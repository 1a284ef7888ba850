import Coact.Coro.Drive

/-! The mutex and direct dispatch. A completion event is submitted under the mutex; if
the coordinator dispatches it directly, the action of the waiter runs in the thread that
owns the mutex, and an operation it invokes waits for its own thread. -/
namespace Coact.Coro
open Foundation

variable {d : Deployment} {B : Backend StagingSlot} {H T : Type} {capacity : Nat}

namespace Drive

/-- Operation `k` waits for the mutex in the thread of its owner. -/
def SelfLock (s : Drive d B H T capacity) : Prop :=
  ∃ (k : Nat) (a : Activation T capacity) (c : Caller),
    s.ops[k]? = some a ∧ a.pc = .acquiring ∧ a.caller = some c ∧
    ∃ k' a' j i, s.lock = some k' ∧ s.ops[k']? = some a' ∧ a'.pc = .submitting j i ∧
      s.sys.Under j c

/-- Submission `j`, of a completion event, dispatches it under the mutex. -/
def Direct (s : Drive d B H T capacity) (j : Nat) : Prop :=
  ∃ k a i, s.lock = some k ∧ s.ops[k]? = some a ∧ a.pc = .submitting j i ∧
    s.sys.inHsm (.call j) = true

/-- The step begins such a dispatch. -/
def dispatches : Label H T → Drive d B H T capacity → Bool
  | .sys (.call j _), s =>
    s.ops.any (fun a => a.submission = some j) &&
      s.sys.calls[j]?.any fun call => call.takesLease s.sys.shared
  | _, _ => false

/-- Completion events are queued. -/
def Queues (label : Label H T) (s : Drive d B H T capacity) : Prop := dispatches label s = false

instance (label : Label H T) (s : Drive d B H T capacity) : Decidable (Queues label s) :=
  inferInstanceAs (Decidable (dispatches label s = false))

variable {s t : Drive d B H T capacity}

theorem engaged_iff : s.engaged c = true ↔
    ∃ (k : Nat) (a : Activation T capacity),
      s.ops[k]? = some a ∧ a.active = true ∧ a.caller = some c := by
  rw [engaged, List.any_eq_true]
  simp only [Bool.and_eq_true, decide_eq_true_eq]
  constructor
  · rintro ⟨a, mem, active, caller⟩
    obtain ⟨k, found⟩ := List.getElem?_of_mem mem
    exact ⟨k, a, found, active, caller⟩
  · rintro ⟨k, a, found, active, caller⟩
    exact ⟨a, List.mem_of_getElem? found, active, caller⟩

theorem free_apart {label : Coact.Label H} (free : s.free label.actor = true)
    (waits : s.engaged c = true) : label.actor ≠ some c := by
  intro acts
  rw [acts, Drive.free, waits] at free
  cases free

variable {a : Activation T capacity}

theorem engaged_set {pc : Pc T capacity} {lock : Option Nat}
    {sys : Sys d B H} (found : s.ops[k]? = some a) (active : a.active = true)
    (waits : engaged (⟨sys, r, s.ops.set k { a with pc := pc }, lock⟩ : Drive d B H T capacity) c =
      true) :
    s.engaged c = true := by
  obtain ⟨m, b, there, busy, caller⟩ := engaged_iff.mp waits
  rcases getElem?_set_cases there with ⟨-, rfl⟩ | ⟨-, old⟩
  · exact engaged_iff.mpr ⟨k, a, found, active, caller⟩
  · exact engaged_iff.mpr ⟨m, b, old, busy, caller⟩

theorem active_acquiring (waiting : a.pc = .acquiring) :
    a.active = true := by rw [Activation.active, waiting]

theorem active_submitting (submits : a.pc = .submitting j i) :
    a.active = true := by rw [Activation.active, submits]

variable {hsm : AoId → H}

theorem Reached.inHsm_of_engaged (reached : s.Reached hsm allowed) (waits : s.engaged c = true) :
    s.sys.inHsm c = true := by
  refine Reaches.invariant (P := fun s : Drive d B H T capacity =>
    ∀ c, s.engaged c = true → s.sys.inHsm c = true) reached (fun _ never => nomatch never)
    (fun label s t inside _ ran c waits => ?_) c waits
  cases step_cases ran with
  | sys free moved => exact Sys.inHsm_step moved (free_apart free waits) (inside c waits)
  | invoke may =>
    obtain ⟨k, a, found, active, caller⟩ := engaged_iff.mp waits
    rcases getElem?_of_append found with ⟨rfl, -⟩ | old
    · dsimp only at caller
      rw [caller] at may
      exact (Sys.maySubmit_iff.mp may).1
    · exact inside c (engaged_iff.mpr ⟨k, a, old, active, caller⟩)
  | ended found waiting => exact inside c (engaged_set found (active_acquiring waiting) waits)
  | posted found waiting _ _ submitted =>
    have before := inside c (engaged_set found (active_acquiring waiting) waits)
    obtain ⟨-, rfl⟩ := Sys.step_submit submitted
    exact Sys.inHsm_enter _ before
  | settled found submits =>
    exact inside c (engaged_set found (active_submitting submits) waits)

theorem SelfLock.direct (reached : s.Reached hsm allowed) (stuck : s.SelfLock) :
    ∃ j, s.Direct j := by
  obtain ⟨k, a, c, found, waiting, caller, k', a', j, i, owned, owner, submits, under⟩ := stuck
  have inside := reached.inHsm_of_engaged
    (engaged_iff.mpr ⟨k, a, found, active_acquiring waiting, caller⟩)
  exact ⟨j, k', a', i, owned, owner, submits, under.outermost reached.sys inside⟩

theorem Direct.selfLock {op : Op T} (direct : s.Direct j)
    (ran : Drive.step (.invoke op (some (.call j))) s = .ok t) : t.SelfLock := by
  obtain ⟨k, a, i, owned, found, submits, -⟩ := direct
  cases step_cases ran
  exact ⟨_, _, _, List.getElem?_concat_length, rfl, rfl, k, a, j, i, owned,
    getElem?_append_found _ found, submits, .submission⟩

/-- It is final: the owner waits for its submission, which waits for the mutex. -/
theorem SelfLock.step (reached : s.Reached hsm allowed) (stuck : s.SelfLock)
    (ran : Drive.step label s = .ok t) : t.SelfLock := by
  obtain ⟨j, k', a', i, owned, owner, submits, inside⟩ := stuck.direct reached
  obtain ⟨k, a, c, found, waiting, caller, k₀, a₀, j₀, i₀, owned₀, owner₀, submits₀, under⟩ := stuck
  cases owned.symm.trans owned₀
  cases owner.symm.trans owner₀
  cases submits.symm.trans submits₀
  cases step_cases ran with
  | sys free moved =>
    have apart := free_apart free
      (engaged_iff.mpr ⟨k, a, found, active_acquiring waiting, caller⟩)
    exact ⟨k, a, c, found, waiting, caller, k', a', j, i, owned, owner, submits,
      under.step moved apart⟩
  | invoke =>
    exact ⟨k, a, c, getElem?_append_found _ found, waiting, caller, k', a', j, i, owned,
      getElem?_append_found _ owner, submits, under⟩
  | ended _ _ unlocked | posted _ _ unlocked =>
    rw [unlocked] at owned
    cases owned
  | @settled m b _ j₁ i₁ _ _ there returns ended =>
    -- The only submission under way is that of the owner, and it is inside its dispatch.
    obtain ⟨l, atomic⟩ := reached.atomic
    cases owned.symm.trans (atomic.owner m b j₁ i₁ there returns)
    cases owner.symm.trans there
    cases submits.symm.trans returns
    obtain ⟨call, running, dispatching⟩ := Sys.inHsm_call inside
    cases running.symm.trans ended
    cases dispatching

theorem Reached.not_direct (reached : s.Reached hsm Queues) {k j : Nat}
    (found : s.ops[k]? = some a) (submits : a.pc = .submitting j i) :
    ∃ call, s.sys.calls[j]? = some call ∧ call.dispatching = false := by
  refine Reaches.invariant (P := fun s : Drive d B H T capacity => ∀ k a j i,
    s.ops[k]? = some a → a.pc = .submitting j i →
      ∃ call, s.sys.calls[j]? = some call ∧ call.dispatching = false) reached
    (fun k a j i never => by cases never)
    (fun label s t outside queues ran k a j i found submits => ?_) k a j i found submits
  cases step_cases ran with
  | @sys label sys free moved =>
    obtain ⟨call, running, aside⟩ := outside k a j i found submits
    refine Sys.aside_step moved running aside fun o same => ?_
    have posted : s.ops.any (fun a => a.submission = some j) = true :=
      List.any_eq_true.mpr ⟨a, List.mem_of_getElem? found,
        decide_eq_true (by rw [Activation.submission, submits])⟩
    rw [same, Queues, dispatches, posted, running, Bool.true_and] at queues
    exact queues
  | invoke =>
    rcases getElem?_of_append found with ⟨rfl, -⟩ | old
    · cases submits
    · exact outside k a j i old submits
  | ended | settled =>
    rcases getElem?_set_cases found with ⟨-, rfl⟩ | ⟨-, old⟩
    · cases submits
    · exact outside k a j i old submits
  | @posted _ _ _ _ _ _ _ _ _ _ _ submitted =>
    obtain ⟨-, rfl⟩ := Sys.step_submit submitted
    rcases getElem?_set_cases found with ⟨-, rfl⟩ | ⟨-, old⟩
    · cases submits
      exact ⟨_, List.getElem?_concat_length, Call.enter_dispatching _⟩
    · obtain ⟨call, running, aside⟩ := outside k a j i old submits
      exact ⟨call, getElem?_append_found _ running, aside⟩

/-- The mutex is taken again by its owner exactly through a direct dispatch of a
completion event, to a direct-eligible AO, and then for good. -/
theorem registry_lock_discipline {hsm : AoId → H} (reached : s.Reached hsm Always) :
    (s.Reached hsm Queues → ¬ s.SelfLock) ∧
    (s.SelfLock → ∃ j, s.Direct j ∧ ∃ f : Submit.Frame d B,
      s.sys.calls[j]? = some (.run f) ∧ (d.ao f.ao).directEligible = true) ∧
    (∀ j op t, s.Direct j → Drive.step (.invoke op (some (.call j))) s = .ok t → t.SelfLock) ∧
    (s.SelfLock → ∀ t, Reaches Drive.step Always s t → t.SelfLock) := by
  refine ⟨fun queued stuck => ?_, fun stuck => ?_, fun j op t => Direct.selfLock, fun stuck t run => ?_⟩
  · obtain ⟨j, k, a, i, -, found, submits, inside⟩ := stuck.direct queued
    obtain ⟨call, there, aside⟩ := queued.not_direct found submits
    obtain ⟨call', there', dispatching⟩ := Sys.inHsm_call inside
    cases there.symm.trans there'
    rw [aside] at dispatching
    cases dispatching
  · obtain ⟨j, direct⟩ := stuck.direct reached
    obtain ⟨k, a, i, -, -, -, inside⟩ := id direct
    exact ⟨j, direct, reached.sys.inHsm_eligible inside⟩
  · refine (run.invariant (P := fun t => t.Reached hsm Always ∧ t.SelfLock) ⟨reached, stuck⟩
      fun label s t inv _ ran => ⟨?_, inv.2.step inv.1 ran⟩).2
    exact Relation.ReflTransGen.tail inv.1 ⟨label, trivial, ran⟩

/-- A registry of one task, whose waiter is the AO of `singleAo`. -/
def singleTask : Drive singleAo (QueueBackend.SingleCoreCriticalRing.impl StagingSlot) Nat Nat 1 :=
  initial _ _ (fun _ => 0) (.single Nat 1)

def createWaited : List (Label Nat Nat) :=
  [.invoke (.create ⟨1⟩ 7 ⟨false, false⟩) none, .op 0 none]

/-- An action of the waiter itself completes the task, so the lease is busy and the event
is queued; another thread waits for the mutex. -/
def completeInside : List (Label Nat Nat) :=
  createWaited ++ Label.sys (.submit { target := ⟨1⟩, event := 9 }) ::
    List.replicate 6 (Label.sys (.call 0 {})) ++
    [Label.invoke (.complete (TaskId.make ⟨0⟩ 1) 5) (some (.call 0)), .op 1 (some 20)] ++
    List.replicate 6 (Label.sys (.call 1 {})) ++ [Label.invoke (.isReady (TaskId.make ⟨0⟩ 1)) none]

def contendedState := outcome Drive.step completeInside singleTask

theorem registry_lock_discipline_contended :
    contendedState.lock = some 1 ∧ contendedState.ops.countP (·.active) = 2 ∧
      ¬ contendedState.SelfLock := by
  have queued : contendedState.Reached (fun _ => 0) Queues :=
    reaches_decided (by decide +kernel)
  have reached : contendedState.Reached (fun _ => 0) Always := reaches_outcome (by decide +kernel)
  exact ⟨by decide +kernel, by decide +kernel, (registry_lock_discipline reached).1 queued⟩

/-- A thread completes the task of an idle AO; the event is dispatched directly, and the
action asks whether the task is ready. -/
def completeDirect : List (Label Nat Nat) :=
  createWaited ++ [Label.invoke (.complete (TaskId.make ⟨0⟩ 1) 5) none, .op 1 (some 20)] ++
    List.replicate 6 (Label.sys (.call 0 {})) ++
    [Label.invoke (.isReady (TaskId.make ⟨0⟩ 1)) (some (.call 0))]

def relockedState := outcome Drive.step completeDirect singleTask

theorem completion_relocks :
    relockedState.Reached (fun _ => 0) Always ∧ relockedState.SelfLock ∧
      Drive.step (.op 2 none) relockedState = .error .disabled := by
  refine ⟨reaches_outcome (by decide +kernel), ⟨2, ⟨.isReady (TaskId.make ⟨0⟩ 1), some (.call 0),
    .acquiring⟩, .call 0, by decide +kernel, rfl, rfl, 1, ⟨.complete (TaskId.make ⟨0⟩ 1) 5, none,
    .submitting 0 0⟩, 0, 0, by decide +kernel, by decide +kernel, rfl, .submission⟩, rfl⟩

end Drive

end Coact.Coro
