import Coact.Config
import Coact.Foundation.Transition

/-! `Monitor::record_pending` (`monitor.hpp`): producers and the Dispatcher report
an AO's pending count; the monitor keeps the largest one per AO and over all AOs.
Every atomic load and store is a step of its own. A peak is raised by a load, a
comparison and a store, so a store can come after another call has stored more. -/
namespace Coact.Monitor
open Foundation Function

/-- `slot`: the index into the per-AO counters, `none` for `nullptr`. -/
def slot (cfg : Config) (ao : TargetId) : Option Nat :=
  if ao = kInvalidTarget ∨ cfg.kMaxAo < ao.raw.toNat then none else some ao.raw.toNat

/-- The two kinds of `pending_max`. -/
inductive Peak where
  | ao (s : Nat)
  | global
  deriving DecidableEq, Repr

structure Counters where
  pending : Nat → UInt16
  pendingMax : Peak → UInt16

/-- The program points of `record_pending` behind the test of the slot. -/
inductive Point where
  | store (s : Nat)
  | load (peak : Peak)
  | raise (peak : Peak)
  deriving DecidableEq, Repr

/-- Where a call goes when it is done with a peak. -/
def Peak.after : Peak → Option Point
  | .ao _ => some (.load .global)
  | .global => none

/-- One access of `record_pending`; `none` is the return. -/
def recordPendingStep (pending : UInt16) (c : Counters) : Point → Counters × Option Point
  | .store s =>
    ({ c with pending := update c.pending s pending }, some (.load (.ao s)))
  | .load peak => (c, if pending > c.pendingMax peak then some (.raise peak) else peak.after)
  | .raise peak =>
    ({ c with pendingMax := update c.pendingMax peak pending }, peak.after)

theorem raise_self (pending : UInt16) (c : Counters) (peak : Peak) :
    (recordPendingStep pending c (.raise peak)).1.pendingMax peak = pending :=
  update_self ..

theorem raise_other (pending : UInt16) (c : Counters) {peak other : Peak}
    (different : other ≠ peak) :
    (recordPendingStep pending c (.raise peak)).1.pendingMax other = c.pendingMax other :=
  update_of_ne different ..

/-- One call of `record_pending`; it has returned when it has no program point. -/
structure Call where
  ao : TargetId
  pending : UInt16
  pc : Option Point
  deriving DecidableEq, Repr

structure World where
  counters : Counters
  calls : List Call

inductive Label where
  | recordPending (ao : TargetId) (pending : UInt16)
  | access (k : Nat)

/-- A call that has returned takes no further step. -/
inductive Fault where
  | returned

def initial : World := ⟨⟨fun _ => 0, fun _ => 0⟩, []⟩

def step (cfg : Config) : Label → World → Except Fault World
  | .recordPending ao pending, s =>
    .ok { s with calls := s.calls ++ [⟨ao, pending, (slot cfg ao).map Point.store⟩] }
  | .access k, s =>
    match s.calls[k]? with
    | some ⟨ao, pending, some pc⟩ =>
      let (counters, pc') := recordPendingStep pending s.counters pc
      .ok { s with counters := counters, calls := s.calls.set k ⟨ao, pending, pc'⟩ }
    | _ => .error .returned

variable {cfg : Config} {s t : World} {label : Label} {c : Counters} {pending : UInt16}

/-- What one step does. -/
inductive Effect (cfg : Config) (s : World) : Label → World → Prop where
  | recordPending (ao : TargetId) (pending : UInt16) :
      Effect cfg s (.recordPending ao pending)
        { s with calls := s.calls ++ [⟨ao, pending, (slot cfg ao).map Point.store⟩] }
  | access {k : Nat} {ao : TargetId} {pending : UInt16} {pc : Point}
      (running : s.calls[k]? = some ⟨ao, pending, some pc⟩) :
      Effect cfg s (.access k)
        { s with
          counters := (recordPendingStep pending s.counters pc).1
          calls := s.calls.set k ⟨ao, pending, (recordPendingStep pending s.counters pc).2⟩ }

theorem step_effect (ran : step cfg label s = .ok t) : Effect cfg s label t := by
  cases label with
  | recordPending ao pending =>
    cases ran
    exact .recordPending ao pending
  | access k =>
    simp only [step] at ran
    split at ran <;> cases ran
    rename_i ao pending pc running
    exact .access running

/-- No peak is lower in `d` than in `c`. -/
def Counters.Below (c d : Counters) : Prop := ∀ peak, c.pendingMax peak ≤ d.pendingMax peak

theorem Counters.Below.refl (c : Counters) : c.Below c := fun _ => UInt16.le_refl _

theorem Counters.Below.trans {c d e : Counters} (first : c.Below d) (second : d.Below e) :
    c.Below e := fun peak => UInt16.le_trans (first peak) (second peak)

/-- An access that stores a peak finds no larger one there. -/
def Fresh (c : Counters) (pending : UInt16) : Option Point → Prop
  | some (.raise peak) => c.pendingMax peak ≤ pending
  | _ => True

theorem fresh_after (c : Counters) (pending : UInt16) (peak : Peak) :
    Fresh c pending peak.after := by
  cases peak <;> exact trivial

/-- A call compares with the peak it has just loaded. -/
theorem access_fresh (c : Counters) (pending : UInt16) (pc : Point) :
    Fresh (recordPendingStep pending c pc).1 pending (recordPendingStep pending c pc).2 := by
  cases pc with
  | store i => exact trivial
  | load peak =>
    simp only [recordPendingStep]
    split
    · rename_i above
      exact UInt16.le_of_lt above
    · exact fresh_after c pending peak
  | raise peak => exact fresh_after _ pending peak

/-- An access leaves a call alone that is not at the same store of a peak. -/
theorem Fresh.access {other : UInt16} {point : Option Point} (fresh : Fresh c other point)
    {pc : Point} (apart : ∀ peak, pc = .raise peak → point ≠ some (.raise peak)) :
    Fresh (recordPendingStep pending c pc).1 other point := by
  match pc, point with
  | .store _, _ | .load _, _ => exact fresh
  | .raise _, none | .raise _, some (.store _) | .raise _, some (.load _) => exact trivial
  | .raise peak, some (.raise stored) =>
    have different : stored ≠ peak := fun same => apart peak rfl (congrArg _ (congrArg _ same))
    rw [Fresh, raise_other pending c different]
    exact fresh

theorem access_below {pc : Point} (fresh : Fresh c pending (some pc)) :
    c.Below (recordPendingStep pending c pc).1 := by
  cases pc with
  | store i | load peak => exact Counters.Below.refl c
  | raise peak =>
    intro other
    rcases eq_or_ne other peak with rfl | different
    · rwa [raise_self]
    · rw [raise_other pending c different]
      exact UInt16.le_refl _

/-- The program point of call `k`. -/
def World.point (s : World) (k : Nat) : Option Point := s.calls[k]?.bind Call.pc

/-- The peak that call `k` has loaded and is about to store. -/
def World.raising (s : World) (k : Nat) : Option Peak :=
  match s.point k with
  | some (.raise peak) => some peak
  | _ => none

/-- Between a call's load of a peak and its store no other call stores that peak. -/
def Undisturbed : Label → World → Prop
  | .recordPending _ _, _ => True
  | .access k, s => ∀ peak ∈ s.raising k, ∀ j < s.calls.length, peak ∈ s.raising j → j = k

instance : ∀ (label : Label) (s : World), Decidable (Undisturbed label s)
  | .recordPending _ _, _ => isTrue trivial
  | .access k, s => inferInstanceAs (Decidable
      (∀ peak ∈ s.raising k, ∀ j < s.calls.length, peak ∈ s.raising j → j = k))

/-- No store that is still to come finds a larger peak. -/
def AllFresh (s : World) : Prop := ∀ call ∈ s.calls, Fresh s.counters call.pending call.pc

theorem allFresh_effect (fresh : AllFresh s) (undisturbed : Undisturbed label s)
    (effect : Effect cfg s label t) : AllFresh t := by
  cases effect with
  | recordPending ao pending =>
    intro call mem
    rcases List.mem_append.mp mem with old | new
    · exact fresh call old
    · cases List.mem_singleton.mp new
      cases slot cfg ao <;> exact trivial
  | @access k ao pending pc running =>
    intro call mem
    obtain ⟨j, found⟩ := List.mem_iff_getElem?.mp mem
    rcases eq_or_ne j k with rfl | different
    · rw [List.getElem?_set_self (List.getElem?_eq_some_iff.mp running).1] at found
      cases found
      exact access_fresh s.counters pending pc
    · rw [List.getElem?_set_ne different.symm] at found
      refine (fresh call (List.mem_of_getElem? found)).access fun peak raises same => different ?_
      refine undisturbed peak ?_ j (List.getElem?_eq_some_iff.mp found).1 ?_
      · simp only [World.raising, World.point, running, Option.bind_some, raises, Option.mem_def]
      · simp only [World.raising, World.point, found, Option.bind_some, same, Option.mem_def]

theorem initial_allFresh : AllFresh initial := fun _ mem => nomatch mem

theorem AllFresh.reached (fresh : AllFresh s) (run : Reaches (step cfg) Undisturbed s t) :
    AllFresh t := by
  apply run.invariant (P := AllFresh) fresh
  intro label s t fresh undisturbed ran
  exact allFresh_effect fresh undisturbed (step_effect ran)

theorem effect_below (fresh : AllFresh s) (effect : Effect cfg s label t) :
    s.counters.Below t.counters := by
  cases effect with
  | recordPending ao pending => exact Counters.Below.refl _
  | access running => exact access_below (fresh _ (List.mem_of_getElem? running))

/-- A call begins when all calls before it have returned. -/
def Sequential : Label → World → Prop
  | .recordPending _ _, s => ∀ call ∈ s.calls, call.pc = none
  | .access _, _ => True

/-- At most one call has not returned. -/
def Alone (s : World) : Prop := ∀ j k, (s.point j).isSome → (s.point k).isSome → j = k

theorem Alone.undisturbed (alone : Alone s) : Undisturbed label s := by
  have under_way {k : Nat} {peak : Peak} (raises : peak ∈ s.raising k) : (s.point k).isSome := by
    simp only [World.raising] at raises
    split at raises
    · rename_i at_store
      rw [at_store]
      rfl
    · cases raises
  cases label with
  | recordPending => exact trivial
  | access k =>
    intro peak own j _ other
    exact alone j k (under_way other) (under_way own)

theorem alone_effect (alone : Alone s) (sequential : Sequential label s)
    (effect : Effect cfg s label t) : Alone t := by
  cases effect with
  | recordPending ao pending =>
    have last {j : Nat} (running : (World.point { s with calls := s.calls ++
        [⟨ao, pending, (slot cfg ao).map Point.store⟩] } j).isSome) : j = s.calls.length := by
      obtain ⟨pc, at_pc⟩ := Option.isSome_iff_exists.mp running
      obtain ⟨call, found, of_call⟩ := Option.bind_eq_some_iff.mp at_pc
      have bound := (List.getElem?_eq_some_iff.mp found).1
      rw [List.length_append, List.length_singleton] at bound
      refine Nat.le_antisymm (Nat.le_of_lt_succ bound) (Nat.le_of_not_lt fun old => ?_)
      rw [List.getElem?_append_left old] at found
      rw [sequential call (List.mem_of_getElem? found)] at of_call
      cases of_call
    intro j k first second
    rw [last first, last second]
  | @access k ao pending pc running =>
    have before {j : Nat} (after : (World.point { s with
        counters := (recordPendingStep pending s.counters pc).1
        calls := s.calls.set k ⟨ao, pending, (recordPendingStep pending s.counters pc).2⟩ }
        j).isSome) : (s.point j).isSome := by
      rcases eq_or_ne j k with rfl | different
      · simp only [World.point, running, Option.bind_some, Option.isSome_some]
      · simpa only [World.point, List.getElem?_set_ne different.symm] using after
    intro i j first second
    exact alone i j (before first) (before second)

theorem alone_of_reaches (run : Reaches (step cfg) Sequential initial s) : Alone s := by
  apply run.invariant (P := Alone)
  · exact fun _ _ running => (Bool.false_ne_true running).elim
  · intro label s t alone sequential ran
    exact alone_effect alone sequential (step_effect ran)

theorem undisturbed_of_sequential (run : Reaches (step cfg) Sequential initial s) :
    Reaches (step cfg) Undisturbed initial s := by
  induction run with
  | refl => exact .refl
  | tail before last run =>
    obtain ⟨label, -, ran⟩ := last
    exact run.tail ⟨label, (alone_of_reaches before).undisturbed, ran⟩

/-- What a call for the AO in slot `i` has done for the peaks so far. -/
def Raised (i : Nat) (pending : UInt16) (c : Counters) : Option Point → Prop
  | some (.store s) | some (.load (.ao s)) | some (.raise (.ao s)) => s = i
  | some (.load .global) | some (.raise .global) => pending ≤ c.pendingMax (.ao i)
  | none => pending ≤ c.pendingMax (.ao i) ∧ pending ≤ c.pendingMax .global

theorem Raised.mono {i : Nat} {d : Counters} (grows : c.Below d) :
    ∀ {pc : Option Point}, Raised i pending c pc → Raised i pending d pc
  | some (.store _), same => same
  | some (.load (.ao _)), same => same
  | some (.raise (.ao _)), same => same
  | some (.load .global), own => UInt16.le_trans own (grows _)
  | some (.raise .global), own => UInt16.le_trans own (grows _)
  | none, both =>
    ⟨UInt16.le_trans both.1 (grows _), UInt16.le_trans both.2 (grows _)⟩

theorem Raised.after {peak : Peak} (raised : Raised i pending c (some (.load peak)))
    (reaches : pending ≤ c.pendingMax peak) : Raised i pending c peak.after := by
  cases peak with
  | ao s =>
    obtain rfl : s = i := raised
    exact reaches
  | global => exact ⟨raised, reaches⟩

theorem Raised.access {pc : Point} (raised : Raised i pending c (some pc))
    (fresh : Fresh c pending (some pc)) :
    Raised i pending (recordPendingStep pending c pc).1 (recordPendingStep pending c pc).2 := by
  have grows := access_below fresh
  cases pc with
  | store => exact raised
  | load peak =>
    simp only [recordPendingStep]
    split
    · cases peak <;> exact raised
    · rename_i notAbove
      exact raised.after (UInt16.not_lt.mp notAbove)
  | raise peak =>
    have before : Raised i pending c (some (.load peak)) := by
      cases peak <;> exact raised
    apply Raised.after (before.mono grows)
    rw [raise_self]
    exact UInt16.le_refl _

/-- Every call for an AO the monitor counts has raised the peaks it is done with. -/
def Covered (cfg : Config) (s : World) : Prop :=
  ∀ call ∈ s.calls, ∀ i, slot cfg call.ao = some i → Raised i call.pending s.counters call.pc

theorem covered_effect (covered : Covered cfg s) (fresh : AllFresh s)
    (effect : Effect cfg s label t) : Covered cfg t := by
  have grows := effect_below fresh effect
  cases effect with
  | recordPending =>
    intro call mem i counted
    rcases List.mem_append.mp mem with old | new
    · exact covered call old i counted
    · cases List.mem_singleton.mp new
      simp only [counted, Option.map_some]
      rfl
  | access running =>
    have found := List.mem_of_getElem? running
    intro call mem i counted
    rcases List.mem_or_eq_of_mem_set mem with old | rfl
    · exact (covered call old i counted).mono grows
    · exact (covered _ found i counted).access (fresh _ found)

theorem covered_of_reaches (run : Reaches (step cfg) Undisturbed initial s) : Covered cfg s := by
  induction run with
  | refl =>
    intro call mem
    cases mem
  | tail before last covered =>
    obtain ⟨label, -, ran⟩ := last
    exact covered_effect covered (initial_allFresh.reached before) (step_effect ran)

theorem below_of_reaches (fresh : AllFresh s) (run : Reaches (step cfg) Undisturbed s t) :
    s.counters.Below t.counters := by
  induction run with
  | refl => exact Counters.Below.refl _
  | tail before last below =>
    obtain ⟨label, -, ran⟩ := last
    exact below.trans (effect_below (fresh.reached before) (step_effect ran))

/-- As long as no call stores a peak between another call's load and store of it, the peaks
never fall and a call that has returned finds its count in both of its peaks. Calls that
do not overlap keep to this. -/
theorem pending_peak_is_maximum (earlier : Reaches (step cfg) Undisturbed initial s)
    (later : Reaches (step cfg) Undisturbed s t) :
    (∀ peak, s.counters.pendingMax peak ≤ t.counters.pendingMax peak) ∧
    (∀ call ∈ t.calls, call.pc = none → ∀ i, slot cfg call.ao = some i →
      call.pending ≤ t.counters.pendingMax (.ao i) ∧
      call.pending ≤ t.counters.pendingMax .global) ∧
    (∀ u, Reaches (step cfg) Sequential initial u → Reaches (step cfg) Undisturbed initial u) := by
  refine ⟨below_of_reaches (initial_allFresh.reached earlier) later, ?_, ?_⟩
  · intro call mem returned i counted
    have raised := covered_of_reaches (earlier.trans later) call mem i counted
    rwa [returned] at raised
  · intro u sequential
    exact undisturbed_of_sequential sequential

/-- Two calls for one AO that overlap: the second loads each peak when the first has stored it. -/
def inOrder : List Label :=
  [.recordPending ⟨1⟩ 3, .recordPending ⟨1⟩ 5, .access 0, .access 1, .access 0, .access 0,
    .access 1, .access 0, .access 1, .access 0, .access 1, .access 1]

theorem pending_peak_is_maximum_two_calls :
    (⟨⟨1⟩, 3, none⟩ : Call) ∈ (outcome (step DefaultConfig) inOrder initial).calls ∧
    (⟨⟨1⟩, 5, none⟩ : Call) ∈ (outcome (step DefaultConfig) inOrder initial).calls ∧
    5 ≤ (outcome (step DefaultConfig) inOrder initial).counters.pendingMax (.ao 1) ∧
    5 ≤ (outcome (step DefaultConfig) inOrder initial).counters.pendingMax .global := by
  have reached : Reaches (step DefaultConfig) Undisturbed initial
      (outcome (step DefaultConfig) inOrder initial) := reaches_decided (by decide +kernel)
  have small : (⟨⟨1⟩, 3, none⟩ : Call) ∈ (outcome (step DefaultConfig) inOrder initial).calls := by
    decide +kernel
  have large : (⟨⟨1⟩, 5, none⟩ : Call) ∈ (outcome (step DefaultConfig) inOrder initial).calls := by
    decide +kernel
  have peaks := (pending_peak_is_maximum reached .refl).2.1 _ large rfl 1 (by decide)
  exact ⟨small, large, peaks⟩

/-- The same two calls: both load the peak before either stores it, and the smaller count is
stored last. -/
def overtaken : List Label :=
  [.recordPending ⟨1⟩ 3, .recordPending ⟨1⟩ 5, .access 0, .access 1, .access 0, .access 1,
    .access 1, .access 1, .access 1]

/-- The late store lowers the peak from 5 to 3, and there it stays after both calls have
returned. -/
theorem pending_peak_lowered :
    Reaches (step DefaultConfig) Always initial
      (outcome (step DefaultConfig) (overtaken ++ [.access 0, .access 0]) initial) ∧
    (outcome (step DefaultConfig) overtaken initial).counters.pendingMax (.ao 1) = 5 ∧
    (outcome (step DefaultConfig) (overtaken ++ [.access 0, .access 0]) initial).calls =
      [⟨⟨1⟩, 3, none⟩, ⟨⟨1⟩, 5, none⟩] ∧
    (outcome (step DefaultConfig) (overtaken ++ [.access 0, .access 0])
      initial).counters.pendingMax (.ao 1) = 3 := by
  refine ⟨reaches_outcome (by decide +kernel), ?_, ?_, ?_⟩ <;> decide +kernel

end Coact.Monitor
