import Coact.Foundation.Transition
import Coact.Staging

/-! The lifecycle of `Runtime` (`runtime.hpp`) over the POSIX layer (`pal_posix.cpp`): one thread
makes the calls, while submissions and the dispatcher thread go on beside it. A submission is
its admission lease and what it stages, and the dispatcher is its thread and the loop that
serves what is staged; both are taken access by access in the pipeline. -/
namespace Coact
open Foundation Staging

/-- The thread that `pthread_create` made, if it made one. -/
inductive DispatcherThread where
  | none | running | exited
  deriving DecidableEq, Repr

/-- What `stop` has ahead of it: the three accesses of `request_stop`, then the join. -/
inductive StopCall where
  | idle | closeAdmission | storeStop | signal | join
  deriving DecidableEq, Repr

inductive CallEvent where
  | bound (accepted : Bool)
  | initialized
  | started (accepted : Bool)
  | stopCalled

/-- The fields of `Runtime`, of its dispatcher (`stop`), of its staging (`admission`) and of the
POSIX layer (`threadValid`). `leases` are the submissions under way and `staged` the slots that
wait for the dispatcher. The calls are kept for the proofs. -/
structure Runtime where
  registry : AoRegistry
  entered : List AoId
  initialized : Bool
  started : Bool
  admission : Nat
  stop : Bool
  threadValid : Bool
  thread : DispatcherThread
  stopping : StopCall
  leases : Nat
  staged : Nat
  calls : List CallEvent

inductive RuntimeLabel where
  | bind (ao : Option AoId)
  | bindAt (target : TargetId) (ao : AoId)
  | commit
  | start (created : Bool)
  | stop
  | stopper (joined : Bool)
  | submit
  | settle (accepted : Bool)
  | serve
  | exit

inductive RuntimeRefusal where
  | busy | idle | notInitialized | notExited | noLease | nothingStaged | notStopped

namespace Runtime

def init (cfg : Config) : Runtime :=
  ⟨⟨List.replicate cfg.kMaxAo none⟩, [], false, false, 0, false, false, .none, .idle, 0, 0, []⟩

def call (s : Runtime) (e : CallEvent) : Runtime := { s with calls := s.calls ++ [e] }

/-- `bind` and `bind_at`; the registry's answer is not asked for once initialised. -/
def bound (s : Runtime) (answer : Option AoRegistry) : Runtime :=
  if s.initialized then s.call (.bound false)
  else
    match answer with
    | some registry => { s with registry }.call (.bound true)
    | none => s.call (.bound false)

/-- `Runtime::initialize` enters the initial state of every bound object, in table order. -/
def commit (s : Runtime) : Runtime :=
  if s.initialized then s.call .initialized
  else
    { s with
      entered := s.entered ++ s.registry.slots.filterMap id
      initialized := true }.call .initialized

/-- `pal_start_dispatcher` on a layer whose `start_dispatcher` returns nothing. -/
def palStart (s : Runtime) (created : Bool) : Runtime × Bool :=
  ({ s with
      threadValid := created
      thread := if created then .running else s.thread }, true)

/-- `Runtime::start`; `created` is whether `pthread_create` made the thread. -/
def start (s : Runtime) (created : Bool) : Except RuntimeRefusal Runtime :=
  if !s.initialized then .error .notInitialized
  else if s.started then .ok (s.call (.started false))
  else if (s.palStart created).2 then
    .ok ({ (s.palStart created).1 with started := true }.call (.started true))
  else .ok ((s.palStart created).1.call (.started false))

/-- One access of `stop`; `joined` is whether `pthread_join` succeeds. -/
def stopper (s : Runtime) (joined : Bool) : Except RuntimeRefusal Runtime :=
  match s.stopping with
  | .idle => .error .idle
  | .closeAdmission =>
    .ok { s with admission := closeAdmission s.admission, stopping := .storeStop }
  | .storeStop => .ok { s with stop := true, stopping := .signal }
  | .signal => .ok { s with stopping := .join }
  | .join =>
    if s.threadValid && joined then
      if s.thread = .exited then
        .ok { s with threadValid := false, thread := .none, started := false, stopping := .idle }
      else .error .notExited
    else .ok { s with threadValid := false, started := false, stopping := .idle }

def step (cfg : Config) (logicalPrio : AoId → Nat) :
    RuntimeLabel → Runtime → Except RuntimeRefusal Runtime
  | .bind ao, s =>
    if s.stopping ≠ .idle then .error .busy
    else .ok (s.bound (s.registry.bind logicalPrio ao (ao.elim kInvalidPrio logicalPrio)))
  | .bindAt target ao, s =>
    if s.stopping ≠ .idle then .error .busy
    else .ok (s.bound (s.registry.bindAt cfg logicalPrio target ao (logicalPrio ao)))
  | .commit, s => if s.stopping ≠ .idle then .error .busy else .ok s.commit
  | .start created, s => if s.stopping ≠ .idle then .error .busy else s.start created
  | .stop, s =>
    if s.stopping ≠ .idle then .error .busy
    else if s.started then .ok ({ s with stopping := .closeAdmission }.call .stopCalled)
    else .ok (s.call .stopCalled)
  | .stopper joined, s => s.stopper joined
  | .submit, s =>
    if acquireRefused s.admission then .ok s
    else .ok { s with admission := acquired s.admission, leases := s.leases + 1 }
  | .settle accepted, s =>
    if s.leases = 0 then .error .noLease
    else .ok { s with
      admission := releaseSubmission s.admission
      leases := s.leases - 1
      staged := if accepted then s.staged + 1 else s.staged }
  | .serve, s =>
    if s.thread = .running then
      if s.staged = 0 then .error .nothingStaged else .ok { s with staged := s.staged - 1 }
    else .error .idle
  | .exit, s =>
    if s.thread = .running ∧ s.stop = true ∧ s.staged = 0 ∧ submissionsIdle s.admission then
      .ok { s with thread := .exited }
    else .error .notStopped

end Runtime

/-- The last `start` returned true and `stop` was not called since. -/
def CallEvent.live (calls : List CallEvent) : Bool :=
  calls.foldl (fun live call =>
    match call with
    | .started accepted => accepted
    | .stopCalled => false
    | .bound _ | .initialized => live) false

/-- A start that gets to `pthread_create` gets its thread, and was not preceded by a `stop` that
took effect. -/
def CleanStart : RuntimeLabel → Runtime → Prop
  | .start created, s => s.started = false → created = true ∧ s.stop = false
  | _, _ => True

theorem CallEvent.live_snoc (calls : List CallEvent) (call : CallEvent) :
    live (calls ++ [call]) = match call with
      | .started accepted => accepted
      | .stopCalled => false
      | .bound _ | .initialized => live calls := by
  simp [live]

namespace Runtime

/-- `shut` is the closed bit of the admission word. A started runtime that is not being stopped
is served; until a stop closes it, admission is open. -/
structure Sound (s : Runtime) (shut : Bool) : Prop where
  few : s.leases < 2 ^ 31
  word : s.admission = packed shut s.leases
  served : s.started = true → s.stopping = .idle ∨ s.stopping = .closeAdmission →
    s.thread = .running ∧ s.stop = false
  opened : s.stop = false → s.stopping ≠ .storeStop → shut = false
  live : CallEvent.live s.calls = true → s.started = true ∧ s.stopping = .idle

variable {cfg : Config} {shut : Bool}

namespace Sound

theorem init : Sound (init cfg) false := by
  constructor
  case few => exact Nat.two_pow_pos 31
  case word => rfl
  case opened => exact fun _ _ => rfl
  case served =>
    intro started
    cases started
  case live =>
    intro live
    cases live

section
variable (sound : Sound s shut)
include sound

theorem call {registry : AoRegistry} {entered : List AoId} {initialized : Bool}
    (quiet : CallEvent.live (s.calls ++ [e]) = true → CallEvent.live s.calls = true) :
    Sound ({ s with registry, entered, initialized }.call e) shut :=
  { sound with live := fun live => sound.live (quiet live) }

theorem bound (answer : Option AoRegistry) : Sound (s.bound answer) shut := by
  unfold Runtime.bound
  split
  · exact sound.call (by simp [CallEvent.live_snoc])
  · split
    · exact sound.call (by simp [CallEvent.live_snoc])
    · exact sound.call (by simp [CallEvent.live_snoc])

theorem commit : Sound s.commit shut := by
  unfold Runtime.commit
  split <;> exact sound.call (by simp [CallEvent.live_snoc])

/-- A clean start of a runtime that is not started: it has not been stopped, so it is open. -/
theorem start {created : Bool} (idle : s.stopping = .idle)
    (clean : s.started = false → created = true ∧ s.stop = false)
    (ran : s.start created = .ok s') : Sound s' shut := by
  unfold Runtime.start at ran
  split at ran
  · cases ran
  · split at ran
    · cases ran
      exact sound.call (by simp [CallEvent.live_snoc])
    · rename_i fresh
      obtain ⟨rfl, unstopped⟩ := clean (Bool.not_eq_true _ ▸ fresh)
      cases ran
      exact { sound with
        served := fun _ _ => ⟨rfl, unstopped⟩
        live := fun _ => ⟨rfl, idle⟩ }

theorem stop (idle : s.stopping = .idle) :
    Sound ({ s with stopping := .closeAdmission }.call .stopCalled) shut := by
  refine { sound with served := ?_, opened := ?_, live := ?_ }
  · intro started _
    exact sound.served started (.inl idle)
  · intro unstopped _
    exact sound.opened unstopped (by simp [idle])
  · intro live
    simp [Runtime.call, CallEvent.live_snoc] at live

theorem stopper {joined : Bool} (ran : s.stopper joined = .ok s') : ∃ shut', Sound s' shut' := by
  -- While a stop is under way no start counts as live.
  have dead : s.stopping ≠ .idle → CallEvent.live s.calls ≠ true :=
    fun going live => going (sound.live live).2
  unfold Runtime.stopper at ran
  split at ran
  case h_1 => cases ran
  case h_2 here =>
    cases ran
    refine ⟨true, { sound with word := ?_, served := ?_, opened := ?_, live := ?_ }⟩
    · simp only [sound.word, closeAdmission_packed sound.few]
    · rintro _ (other | other) <;> cases other
    · intro _ later
      exact absurd rfl later
    · exact fun live => absurd live (dead (by simp [here]))
  case h_3 here =>
    cases ran
    refine ⟨shut, { sound with served := ?_, opened := ?_, live := ?_ }⟩
    · rintro _ (other | other) <;> cases other
    · intro other
      cases other
    · exact fun live => absurd live (dead (by simp [here]))
  case h_4 here =>
    cases ran
    refine ⟨shut, { sound with served := ?_, opened := ?_, live := ?_ }⟩
    · rintro _ (other | other) <;> cases other
    · exact fun unstopped _ => sound.opened unstopped (by simp [here])
    · exact fun live => absurd live (dead (by simp [here]))
  case h_5 here =>
    have ended : ∀ (threadValid : Bool) (thread : DispatcherThread),
        Sound { s with threadValid, thread, started := false, stopping := .idle } shut := by
      intro threadValid thread
      refine { sound with served := ?_, opened := ?_, live := ?_ }
      · intro started
        cases started
      · exact fun unstopped _ => sound.opened unstopped (by simp [here])
      · exact fun live => absurd live (dead (by simp [here]))
    split at ran
    · split at ran <;> cases ran
      exact ⟨shut, ended _ _⟩
    · cases ran
      exact ⟨shut, ended _ _⟩

theorem submit (accepted : ¬ acquireRefused s.admission) :
    Sound { s with
      admission := acquired s.admission
      leases := s.leases + 1 } shut := by
  have few := sound.few
  rw [Bool.not_eq_true, sound.word, acquireRefused_packed few, Bool.or_eq_false_iff]
    at accepted
  have below : s.leases ≠ kAdmissionCountMask := of_decide_eq_false accepted.2
  simp only [kAdmissionCountMask] at below
  have room : s.leases + 1 < 2 ^ 31 := by omega
  refine { sound with few := room, word := ?_ }
  simp only [sound.word, acquired_packed room]

theorem settle (held : s.leases ≠ 0) (staged : Nat) :
    Sound { s with
      admission := releaseSubmission s.admission
      leases := s.leases - 1
      staged } shut := by
  refine { sound with few := Nat.lt_of_le_of_lt (Nat.sub_le _ _) sound.few, word := ?_ }
  simp only [sound.word, releaseSubmission_packed sound.few (Nat.pos_of_ne_zero held)]

theorem exit (stopped : s.stop = true) : Sound { s with thread := .exited } shut := by
  refine { sound with served := ?_ }
  intro started going
  cases stopped.symm.trans (sound.served started going).2

theorem next (clean : CleanStart l s)
    (ran : step cfg logicalPrio l s = .ok s') : ∃ shut', Sound s' shut' := by
  cases l <;> simp only [step] at ran
  case stopper => exact sound.stopper ran
  all_goals (repeat' split at ran) <;> try cases ran
  · exact ⟨shut, sound.bound _⟩
  · exact ⟨shut, sound.bound _⟩
  · exact ⟨shut, sound.commit⟩
  · exact ⟨shut, sound.start (not_not.mp ‹_›) clean ran⟩
  · exact ⟨shut, sound.stop (not_not.mp ‹_›)⟩
  · exact ⟨shut, sound.call (by simp [CallEvent.live_snoc])⟩
  · exact ⟨shut, sound⟩
  · exact ⟨shut, sound.submit ‹_›⟩
  · exact ⟨shut, sound.settle ‹_› _⟩
  · exact ⟨shut, sound.settle ‹_› _⟩
  · exact ⟨shut, { sound with }⟩
  · rename_i done
    exact ⟨shut, sound.exit done.2.1⟩

end

end Sound

end Runtime

/-- In every run whose starts are clean, a runtime whose last `start` returned true and was not
followed by a `stop` is served: its thread runs and was not asked to stop, admission is open,
and what is staged can be taken. -/
theorem started_runtime_is_served (cfg : Config) (logicalPrio : AoId → Nat) {s : Runtime}
    (run : Reaches (Runtime.step cfg logicalPrio) CleanStart (Runtime.init cfg) s)
    (live : CallEvent.live s.calls = true) :
    s.thread = .running ∧ s.stop = false ∧ closed s.admission = false ∧
      (0 < s.staged → ∃ s', Runtime.step cfg logicalPrio .serve s = .ok s') := by
  obtain ⟨shut, sound⟩ : ∃ shut, Runtime.Sound s shut := by
    apply run.invariant (P := fun s => ∃ shut, Runtime.Sound s shut) ⟨false, .init⟩
    rintro label s s' ⟨shut, sound⟩ clean ran
    exact sound.next clean ran
  obtain ⟨started, idle⟩ := sound.live live
  obtain ⟨running, unstopped⟩ := sound.served started (.inl idle)
  have opened := sound.opened unstopped (by simp [idle])
  refine ⟨running, unstopped, ?_, ?_⟩
  · rw [sound.word, closed_packed sound.few, opened]
  · intro waiting
    simp only [Runtime.step, running, if_true, waiting.ne', if_false]
    exact ⟨_, rfl⟩

instance (l : RuntimeLabel) (s : Runtime) : Decidable (CleanStart l s) :=
  match l with
  | .start created =>
    inferInstanceAs (Decidable (s.started = false → created = true ∧ s.stop = false))
  | .bind _ | .bindAt _ _ | .commit | .stop | .stopper _ | .submit | .settle _ | .serve | .exit =>
    inferInstanceAs (Decidable True)

/-- One object is bound, the runtime is started, and a submission is staged. -/
def startedOnce : List RuntimeLabel := [.bind (some 3), .commit, .start true, .submit, .settle true]

theorem started_runtime_is_served_once :
    CallEvent.live (outcome (Runtime.step DefaultConfig id) startedOnce
      (Runtime.init DefaultConfig)).calls = true ∧
    (outcome (Runtime.step DefaultConfig id) startedOnce (Runtime.init DefaultConfig)).thread =
      .running := by
  have live : CallEvent.live (outcome (Runtime.step DefaultConfig id) startedOnce
    (Runtime.init DefaultConfig)).calls = true := by decide +kernel
  have run : Reaches (Runtime.step DefaultConfig id) CleanStart (Runtime.init DefaultConfig)
      (outcome (Runtime.step DefaultConfig id) startedOnce (Runtime.init DefaultConfig)) :=
    reaches_decided (by decide +kernel)
  exact ⟨live, (started_runtime_is_served DefaultConfig id run live).1⟩

/-- `pthread_create` fails: `start` returns true, submissions are accepted, and no thread is
there to serve them. And a runtime that is started again after a `stop` has the stop flag and
the closed bit of the first run. -/
theorem started_runtime_unserved :
    (∃ s, Reaches (Runtime.step DefaultConfig id) Always (Runtime.init DefaultConfig) s ∧
      CallEvent.live s.calls = true ∧ s.thread = .none ∧ 0 < s.staged) ∧
    ∃ s, Reaches (Runtime.step DefaultConfig id) Always (Runtime.init DefaultConfig) s ∧
      CallEvent.live s.calls = true ∧ s.stop = true ∧ closed s.admission = true := by
  constructor
  · refine ⟨outcome (Runtime.step DefaultConfig id)
      [.commit, .start false, .submit, .settle true] (Runtime.init DefaultConfig),
      reaches_outcome (by decide +kernel), ?_, ?_, ?_⟩ <;> decide +kernel
  · refine ⟨outcome (Runtime.step DefaultConfig id)
      [.commit, .start true, .stop, .stopper true, .stopper true, .stopper true, .exit,
        .stopper true, .start true] (Runtime.init DefaultConfig),
      reaches_outcome (by decide +kernel), ?_, ?_, ?_⟩ <;> decide +kernel

end Coact
