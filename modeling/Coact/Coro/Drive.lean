import Coact.Coro.Ledger
import Coact.Pipeline.Nesting
import Coact.Pipeline.Ownership

/-! The registry in its pipeline. Any thread, and the action of any HSM dispatch, may
invoke an operation; it waits for the mutex, and one that completes a task submits the
completion event while it holds the mutex. Operations are numbered by their invocation. -/
namespace Coact.Coro
open Foundation

/-- `submit_from_task` for a completion event in the block `event`. -/
def Posting.args (posting : Posting) (event : Nat) (caller : Option Caller) : Args where
  target := posting.target
  event := event
  critical := posting.qos.critical
  caller := caller

inductive Drive.Pc (T : Type) (capacity : Nat) where
  | acquiring
  | submitting (j : Nat) (i : Fin capacity)
  | returned (result : Result T)
  deriving DecidableEq, Repr

/-- An operation, invoked at top level or by an HSM dispatch. -/
structure Drive.Activation (T : Type) (capacity : Nat) where
  op : Op T
  caller : Option Caller
  pc : Pc T capacity
  deriving DecidableEq, Repr

structure Drive (d : Deployment) (B : Backend StagingSlot) (H T : Type) (capacity : Nat) where
  sys : Sys d B H
  registry : Registry T capacity
  ops : List (Drive.Activation T capacity)
  /-- The owner of the mutex. -/
  lock : Option Nat

inductive Drive.Label (H T : Type) where
  | sys (label : Coact.Label H)
  | invoke (op : Op T) (caller : Option Caller)
  | op (k : Nat) (event : Option Nat)

namespace Drive
variable {d : Deployment} {B : Backend StagingSlot} {H T : Type} {capacity : Nat}

def Activation.active (a : Activation T capacity) : Bool :=
  match a.pc with
  | .returned _ => false
  | _ => true

def Activation.submission (a : Activation T capacity) : Option Nat :=
  match a.pc with
  | .submitting j _ => some j
  | _ => none

def initial (d : Deployment) (B : Backend StagingSlot) (hsm : AoId → H)
    (registry : Registry T capacity) : Drive d B H T capacity := ⟨.initial d B hsm, registry, [], none⟩

variable (s : Drive d B H T capacity)

/-- The HSM dispatch `c` waits for an operation it invoked. -/
def engaged (c : Caller) : Bool := s.ops.any fun a => a.active && a.caller = some c

def free : Option Caller → Bool
  | none => true
  | some c => !s.engaged c

/-- The operation returns and the `lock_guard` is destroyed. -/
def finish (k : Nat) (a : Activation T capacity) (r : Registry T capacity) (result : Result T) :
    Drive d B H T capacity :=
  { s with registry := r, ops := s.ops.set k { a with pc := .returned result }, lock := none }

/-- The mutex is not recursive: it blocks everybody, its owner included. `event` is the
block that the pool gives, if any. -/
def acquire (k : Nat) (a : Activation T capacity) (event : Option Nat) :
    Except Halt (Drive d B H T capacity) :=
  match s.lock with
  | some _ => .error .disabled
  | none =>
    match s.registry.execute a.op, event with
    | (r, .done result), _ => .ok (s.finish k a r result)
    | (r, .post i _), none =>
      let (r', result) := r.afterPost i .poolExhausted
      .ok (s.finish k a r' result)
    | (r, .post i posting), some event =>
      (Sys.step (.submit (posting.args event a.caller)) s.sys).map fun sys =>
        { sys := sys
          registry := r
          ops := s.ops.set k { a with pc := .submitting s.sys.calls.length i }
          lock := some k }

def settle (k : Nat) (a : Activation T capacity) (j : Nat) (i : Fin capacity) :
    Except Halt (Drive d B H T capacity) :=
  match s.sys.calls[j]? with
  | some (.done _ r) =>
    let (r', result) := s.registry.afterPost i (.submitted r.disposition)
    .ok (s.finish k a r' result)
  | _ => .error .disabled

def step : Label H T → Drive d B H T capacity → Except Halt (Drive d B H T capacity)
  | .sys label, s =>
    if s.free label.actor then (Sys.step label s.sys).map fun sys => { s with sys := sys }
    else .error .disabled
  | .invoke op caller, s =>
    if s.sys.maySubmit caller && s.free caller then
      .ok { s with ops := s.ops ++ [⟨op, caller, .acquiring⟩] }
    else .error .disabled
  | .op k event, s =>
    match s.ops[k]? with
    | none => .error .disabled
    | some a =>
      match a.pc with
      | .acquiring => s.acquire k a event
      | .submitting j i => s.settle k a j i
      | .returned _ => .error .disabled

/-- From a registry in its initial state. -/
def Reached (hsm : AoId → H) (allowed : Label H T → Drive d B H T capacity → Prop) : Prop :=
  Reaches step allowed (initial d B hsm (.initial T s.registry.positive s.registry.fits)) s

end Drive

section
variable {d : Deployment} {B : Backend StagingSlot} {H T : Type} {capacity : Nat}

/-- What a step does: the pipeline moves, an operation is invoked, runs to its end, goes
as far as its submission, or returns from it. -/
inductive Drive.Step (s : Drive d B H T capacity) : Label H T → Drive d B H T capacity → Prop where
  | sys {label sys} : s.free label.actor = true → Sys.step label s.sys = .ok sys →
      Step s (.sys label) { s with sys := sys }
  | invoke {op caller} : s.sys.maySubmit caller = true → s.free caller = true →
      Step s (.invoke op caller) { s with ops := s.ops ++ [⟨op, caller, .acquiring⟩] }
  | ended {k a event} : s.ops[k]? = some a → a.pc = .acquiring → s.lock = none →
      Step s (.op k event) (s.finish k a (s.registry.apply a.op .poolExhausted).1
        (s.registry.apply a.op .poolExhausted).2.result)
  | posted {k a event r i posting sys} : s.ops[k]? = some a → a.pc = .acquiring → s.lock = none →
      s.registry.execute a.op = (r, .post i posting) →
      Sys.step (.submit (posting.args event a.caller)) s.sys = .ok sys →
      Step s (.op k (some event))
        ⟨sys, r, s.ops.set k { a with pc := .submitting s.sys.calls.length i }, some k⟩
  | settled {k a event j i args} {result : SubmitResult} : s.ops[k]? = some a →
      a.pc = .submitting j i → s.sys.calls[j]? = some (.done args result) →
      Step s (.op k event) (s.finish k a
        (s.registry.afterPost i (.submitted result.disposition)).1
        (s.registry.afterPost i (.submitted result.disposition)).2)

variable {s t : Drive d B H T capacity}

theorem Drive.acquire_step {event : Option Nat}
    (found : s.ops[k]? = some a) (waiting : a.pc = .acquiring)
    (ran : s.acquire k a event = .ok t) : s.Step (.op k event) t := by
  unfold acquire at ran
  split at ran
  · cases ran
  · rename_i unlocked
    have ended : s.Step (.op k event) _ := .ended found waiting unlocked
    simp only [Registry.apply] at ended
    split at ran
    · rename_i executed
      rw [executed] at ended
      cases ran
      exact ended
    · rename_i executed
      rw [executed] at ended
      cases ran
      exact ended
    · rename_i r i posting event executed
      obtain ⟨sys, submitted, rfl⟩ := map_ok ran
      exact .posted found waiting unlocked executed submitted

theorem Drive.step_cases (ran : Drive.step label s = .ok t) : s.Step label t := by
  cases label with
  | sys label =>
    simp only [step] at ran
    split at ran
    · obtain ⟨sys, moved, rfl⟩ := map_ok ran
      exact .sys ‹_› moved
    · cases ran
  | invoke op caller =>
    simp only [step, Bool.and_eq_true] at ran
    split at ran <;> cases ran
    rename_i may
    exact .invoke may.1 may.2
  | op k event =>
    simp only [step] at ran
    split at ran
    · cases ran
    · rename_i a found
      split at ran
      · exact acquire_step found ‹_› ran
      · rename_i j i submits
        unfold settle at ran
        split at ran <;> cases ran
        exact .settled found submits ‹_›
      · cases ran

theorem Drive.Reached.sys {hsm : AoId → H}
    (run : s.Reached hsm allowed) : Reachable hsm s.sys := by
  refine Reaches.invariant (P := fun s : Drive d B H T capacity => Reachable hsm s.sys) run
    (Relation.ReflTransGen.refl : Reachable hsm (Sys.initial d B hsm))
    fun label s t inv _ ran => ?_
  cases step_cases ran with
  | sys _ moved => exact inv.tail ⟨_, trivial, moved⟩
  | posted _ _ _ _ submitted => exact inv.tail ⟨_, trivial, submitted⟩
  | invoke | ended | settled => exact inv

end

section
variable {d : Deployment} {B : Backend StagingSlot} {H T : Type} {capacity : Nat}

/-- The operations take effect one after the other, as in `l`; the owner of the mutex has
gone as far as its submission. -/
structure Drive.Atomic (s : Drive d B H T capacity) (l : Ledger T capacity) : Prop where
  reached : l.Reached
  unlocked : s.lock = none → s.registry = l.registry
  locked : ∀ k, s.lock = some k → ∃ a j i posting, s.ops[k]? = some a ∧ a.pc = .submitting j i ∧
    l.registry.execute a.op = (s.registry, .post i posting)
  owner : ∀ k a j i, s.ops[k]? = some a → a.pc = .submitting j i → s.lock = some k

variable {s t : Drive d B H T capacity} {l : Ledger T capacity}

theorem Drive.Atomic.finish (inv : s.Atomic l) {delivery : Delivery} {result : Result T}
    (alone : ∀ k', s.lock = some k' → k' = k) (applied : r = (l.registry.apply a.op delivery).1) :
    (s.finish k a r result).Atomic (l.after a.op delivery) where
  reached := inv.reached.tail ⟨(a.op, delivery), trivial, rfl⟩
  unlocked _ := applied
  locked _ taken := nomatch taken
  owner k' a' j i found submits := by
    rcases getElem?_set_cases found with ⟨-, rfl⟩ | ⟨apart, old⟩
    · cases submits
    · exact (apart (alone k' (inv.owner k' a' j i old submits))).elim

/-- A step takes no effect on the registry or that of one whole operation. -/
theorem Drive.Atomic.step (inv : s.Atomic l) (ran : Drive.step label s = .ok t) :
    t.Atomic l ∨ ∃ op delivery, t.Atomic (l.after op delivery) := by
  cases step_cases ran with
  | sys => exact .inl ⟨inv.reached, inv.unlocked, inv.locked, inv.owner⟩
  | invoke =>
    refine .inl ⟨inv.reached, inv.unlocked, fun k taken => ?_, fun k a j i found submits => ?_⟩
    · obtain ⟨a, j, i, posting, found, submits⟩ := inv.locked k taken
      exact ⟨a, j, i, posting, getElem?_append_found _ found, submits⟩
    · rcases getElem?_of_append found with ⟨rfl, -⟩ | old
      · cases submits
      · exact inv.owner k a j i old submits
  | @ended _ a _ _ _ free =>
    refine .inr ⟨a.op, .poolExhausted, inv.finish (fun k' taken => ?_) ?_⟩
    · rw [free] at taken
      cases taken
    · rw [inv.unlocked free]
  | @posted _ _ _ _ i posting _ found _ free executed =>
    refine .inl ⟨inv.reached, nofun, fun k' taken => ?_, fun k' a' j i' there submits => ?_⟩
    · cases taken
      refine ⟨_, _, i, posting, getElem?_set_found found _, rfl, ?_⟩
      rw [← inv.unlocked free]
      exact executed
    · rcases getElem?_set_cases there with ⟨rfl, -⟩ | ⟨-, old⟩
      · rfl
      · have taken := inv.owner k' a' j i' old submits
        rw [free] at taken
        cases taken
  | @settled k a _ j i _ result found submits =>
    have taken := inv.owner k a j i found submits
    refine .inr ⟨a.op, .submitted result.disposition, inv.finish (fun k' other => ?_) ?_⟩
    · rw [taken] at other
      exact (Option.some.inj other).symm
    · obtain ⟨a', j', i', posting, found', submits', executed⟩ := inv.locked k taken
      cases found.symm.trans found'
      cases submits.symm.trans submits'
      simp only [Registry.apply, executed]

theorem Drive.atomic_initial (hsm : AoId → H) (positive : 0 < capacity) (fits : capacity ≤ 256) :
    (initial d B hsm (.initial T positive fits)).Atomic (.initial T positive fits) where
  reached := Relation.ReflTransGen.refl
  unlocked _ := rfl
  locked _ taken := nomatch taken
  owner _ _ _ _ found := nomatch found

theorem Drive.Reached.atomic {hsm : AoId → H} (run : s.Reached hsm allowed) :
    ∃ l, s.Atomic l := by
  refine Reaches.invariant (P := fun s : Drive d B H T capacity => ∃ l, s.Atomic l) run
    ⟨_, atomic_initial hsm _ _⟩ fun label s t inv _ ran => ?_
  obtain ⟨l, atomic⟩ := inv
  rcases atomic.step ran with same | ⟨op, delivery, next⟩
  · exact ⟨l, same⟩
  · exact ⟨_, next⟩

end

end Coact.Coro
