import Coact.Pipeline.Service

/-! The pipeline as a protocol: the shared state with the phase of every
submission, the Dispatcher's custody and mode, and the stop requests. Every step
of the system is a step of the protocol, so an invariant of the protocol holds
along every interleaving of the code. -/
namespace Coact
open Foundation

structure Pipe (d : Deployment) (B : Backend StagingSlot) (H : Type) where
  shared : Shared B H
  phases : List (Phase d B)
  custody : Custody d B
  mode : Mode B
  stoppers : List Stopper

variable {d : Deployment} {B : Backend StagingSlot} {H : Type}

def Pipe.initial (d : Deployment) (B : Backend StagingSlot) (hsm : AoId → H) : Pipe d B H where
  shared := Shared.initial B d hsm
  phases := []
  custody := .free
  mode := .serving
  stoppers := []

/-- The steps of the protocol. -/
inductive Pipe.Step : Pipe d B H → Pipe d B H → Prop where
  | enter (s) : Step s { s with phases := s.phases ++ [.entering] }
  | submission (s) (i : Nat) (ph sh' ph') : s.phases[i]? = some ph →
      Moves d i s.shared ph sh' ph' →
      Step s { s with shared := sh', phases := s.phases.set i ph' }
  | service (s) (sh' cu' m') : Serves d s.shared s.custody s.mode sh' cu' m' →
      Step s { s with shared := sh', custody := cu', mode := m' }
  | requestStop (s) : Step s { s with stoppers := s.stoppers ++ [.close] }
  | close (s) (i : Nat) : s.stoppers[i]? = some .close → Step s { s with
      shared := s.shared.setAdmission (Staging.closeAdmission s.shared.admission)
      stoppers := s.stoppers.set i .store }
  | store (s) (i : Nat) : s.stoppers[i]? = some .store → Step s { s with
      shared := { s.shared with stop := true }, stoppers := s.stoppers.set i .signal }
  | signal (s) (i : Nat) : s.stoppers[i]? = some .signal → Step s { s with
      shared := s.shared.signal, stoppers := s.stoppers.set i .done }
  | breaker (s) (k : Nat) (update) : Step s { s with shared := s.shared.onBreaker k update }

def Sys.pipe (s : Sys d B H) : Pipe d B H where
  shared := s.shared
  phases := s.calls.mapIdx Call.phase
  custody := s.disp.custody
  mode := s.disp.mode
  stoppers := s.stoppers

theorem phase_enter (i : Nat) (args : Args) : (Call.enter d B args).phase i = .entering := by
  unfold Call.enter
  split
  · rfl
  · split <;> rfl

theorem Sys.step_pipe (ran : Sys.step label s = .ok t) : Pipe.Step s.pipe t.pipe := by
  cases label with
  | submit =>
    obtain ⟨-, rfl⟩ := step_submit ran
    have entered := Pipe.Step.enter s.pipe
    simpa [Sys.pipe, List.mapIdx_append, phase_enter]
      using entered
  | call i =>
    obtain ⟨c, sh', c', found, -, moved, rfl⟩ := step_call ran
    have there : s.pipe.phases[i]? = some (c.phase i) := by
      simp [Sys.pipe, found]
    have moved := Pipe.Step.submission s.pipe i _ _ _ there (Call.step_moves moved)
    simpa only [Sys.pipe, List.mapIdx_set] using moved
  | dispatcher =>
    obtain ⟨sh', pc, -, moved, rfl⟩ := step_dispatcher ran
    exact .service s.pipe _ _ _ (Dispatch.Pc.step_serves moved)
  | requestStop => cases ran; exact .requestStop s.pipe
  | stopper i =>
    obtain ⟨stopper, sh', stopper', found, moved, rfl⟩ := step_stopper ran
    cases stopper <;> cases moved
    · exact .close s.pipe i found
    · exact .store s.pipe i found
    · exact .signal s.pipe i found
  | breaker k => cases ran; exact .breaker s.pipe k _

/-- A failed assertion is one of a submission or one of the Dispatcher. -/
theorem Sys.step_fails (failed : Sys.step label s = .error (.assertion a)) :
    (∃ ph ∈ s.pipe.phases, Fails s.pipe.shared ph a) ∨
      ServiceFails s.pipe.shared s.pipe.custody a := by
  cases label with
  | submit =>
    simp only [Sys.step] at failed
    split at failed <;> cases failed
  | call i o =>
    simp only [Sys.step] at failed
    split at failed
    · cases failed
    · rename_i c found
      split at failed
      · cases failed
      · have there : s.pipe.phases[i]? = some (c.phase i) := by
          simp [Sys.pipe, found]
        exact .inl ⟨_, List.mem_of_getElem? there, Call.step_fails (map_error failed)⟩
  | dispatcher =>
    simp only [Sys.step] at failed
    split at failed
    · cases failed
    · exact .inr (Dispatch.Pc.step_fails (map_error failed))
  | requestStop => cases failed
  | stopper i =>
    simp only [Sys.step] at failed
    split at failed
    · cases failed
    · rename_i t found
      have stopped := map_error failed
      cases t <;> cases stopped
  | breaker => cases failed

theorem Moves.stop_kept (move : Moves d i sh ph sh' ph') : sh'.stop = sh.stop := by
  cases move <;> rfl

/-- The invariant rule of the protocol, for every interleaving of the code. -/
theorem Reachable.pipe_invariant {hsm : AoId → H} {P : Pipe d B H → Prop}
    (run : Reachable hsm s) (start : P (Pipe.initial d B hsm))
    (next : ∀ {s t}, P s → Pipe.Step s t → P t) : P s.pipe :=
  Reaches.invariant (P := fun s => P s.pipe) run start
    fun _ _ _ inv _ ran => next inv (Sys.step_pipe ran)

end Coact
