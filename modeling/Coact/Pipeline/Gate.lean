import Coact.Foundation.Tally
import Coact.Pipeline.Protocol

/-! The admission word counts the submissions inside the coordinator, and a stop
closes it before the Dispatcher can see the stop flag. -/
namespace Coact
open Dispatch Foundation Staging

variable {d : Deployment} {B : Backend StagingSlot} {H : Type}

/-- One if the submission holds a lease of the admission word. -/
def Phase.leased : Phase d B → Nat
  | .entering | .left _ _ => 0
  | _ => 1

/-- The loop parts after the stop flag has been seen. -/
def Mode.stopping : Mode B → Prop
  | .draining | .checking _ _ | .checkingIdle | .returned => True
  | _ => False

/-- The admission word, and who has seen to it that it is closed. -/
structure Pipe.Gate (s : Pipe d B H) (shut : Bool) : Prop where
  word : s.shared.admission = packed shut (tally Phase.leased s.phases)
  small : tally Phase.leased s.phases < 2 ^ 31
  stores : ∀ i : Nat, s.stoppers[i]? = some .store → shut = true
  stopped : s.shared.stop = true → shut = true
  stopping : s.mode.stopping → shut = true

section
variable {s t : Pipe d B H} {shut : Bool} {i : Nat} {ph ph' : Phase d B} {sh' : Shared B H}

theorem Pipe.Gate.leaseCount (gate : s.Gate shut) :
    leaseCount s.shared.admission = tally Phase.leased s.phases := by
  rw [gate.word, leaseCount_packed gate.small]

theorem Pipe.Gate.refuses (gate : s.Gate true) : acquireRefused s.shared.admission = true := by
  rw [gate.word, acquireRefused_packed gate.small, Bool.true_or]

theorem Moves.word (gate : s.Gate shut) (found : s.phases[i]? = some ph)
    (move : Moves d i s.shared ph sh' ph') :
    sh'.admission = packed shut (tally Phase.leased (s.phases.set i ph')) ∧
      tally Phase.leased (s.phases.set i ph') < 2 ^ 31 := by
  have exchanged := tally_set (w := Phase.leased) found ph'
  have own := weight_le_tally (w := Phase.leased) (List.mem_of_getElem? found)
  have small := gate.small
  have same (kept : sh'.admission = s.shared.admission) (weight : ph'.leased = ph.leased) :
      sh'.admission = packed shut (tally Phase.leased (s.phases.set i ph')) ∧
        tally Phase.leased (s.phases.set i ph') < 2 ^ 31 := by
    have total : tally Phase.leased (s.phases.set i ph') = tally Phase.leased s.phases := by omega
    rw [kept, gate.word, total]
    exact ⟨rfl, small⟩
  cases move with
  | acquire allowed =>
    rw [gate.word, acquireRefused_packed small, Bool.or_eq_false_iff] at allowed
    have below : tally Phase.leased s.phases ≠ kAdmissionCountMask :=
      of_decide_eq_false allowed.2
    have room : tally Phase.leased s.phases + 1 < 2 ^ 31 := by
      simp only [kAdmissionCountMask] at below
      omega
    rw [Shared.setAdmission_admission, gate.word, acquired_packed room]
    rw [show tally Phase.leased (s.phases.set i .admitted) = tally Phase.leased s.phases + 1 from
      exchanged]
    exact ⟨rfl, room⟩
  | depart queued =>
    have lease : (if queued = true then Phase.published true false
        else Phase.spent : Phase d B).leased = 1 := by cases queued <;> rfl
    rw [lease] at exchanged own
    simp only [Phase.leased] at exchanged
    rw [Shared.setAdmission_admission, gate.word, releaseSubmission_packed small own]
    have total : tally Phase.leased s.phases - 1 = tally Phase.leased
        (s.phases.set i (.left queued
          (lastAfterClose (packed shut (tally Phase.leased s.phases))))) := by
      rw [gate.word] at exchanged
      omega
    rw [← total]
    exact ⟨rfl, by omega⟩
  | _ => exact same rfl rfl

theorem Pipe.Gate.submission (gate : s.Gate shut) (found : s.phases[i]? = some ph)
    (move : Moves d i s.shared ph sh' ph') :
    Pipe.Gate { s with shared := sh', phases := s.phases.set i ph' } shut where
  word := (move.word gate found).1
  small := (move.word gate found).2
  stores := gate.stores
  stopped stop := gate.stopped (move.stop_kept.symm.trans stop)
  stopping := gate.stopping

theorem Pipe.Gate.service (gate : s.Gate shut)
    (move : Serves d s.shared s.custody s.mode sh' cu' m') :
    Pipe.Gate { s with shared := sh', custody := cu', mode := m' } shut := by
  obtain ⟨word, small, stores, stopped, stopping⟩ := gate
  have kept : sh'.admission = s.shared.admission ∧ sh'.stop = s.shared.stop ∧
      (m'.stopping → shut = true) := by
    obtain ⟨sh, phases, cu, m, stoppers⟩ := s
    cases move with
    | stopping _ stop => exact ⟨rfl, rfl, fun _ => stopped stop⟩
    | check | checkNext | checkSome | checkZero | checkLast | idle | busy =>
      exact ⟨rfl, rfl, fun _ => stopping trivial⟩
    | rest | armIdle | scanNext | scanFound | scanNone | sleep | awake =>
      exact ⟨rfl, rfl, fun never => never.elim⟩
    | _ => exact ⟨rfl, rfl, stopping⟩
  exact ⟨kept.1.trans word, small, stores, fun stop => stopped (kept.2.1.symm.trans stop),
    kept.2.2⟩

theorem Pipe.Gate.step (gate : s.Gate shut) (ran : Pipe.Step s t) :
    ∃ shut', t.Gate shut' ∧ (shut = true → shut' = true) := by
  cases ran with
  | submission _ _ _ _ found move => exact ⟨shut, gate.submission found move, id⟩
  | service _ _ _ move => exact ⟨shut, gate.service move, id⟩
  | enter =>
    refine ⟨shut, { gate with word := ?_, small := ?_ }, id⟩ <;>
      simp [tally_append, tally_cons, tally_nil, Phase.leased]
    · exact gate.word
    · exact gate.small
  | requestStop =>
    refine ⟨shut, { gate with stores := fun i there => ?_ }, id⟩
    rcases getElem?_of_append there with ⟨never, -⟩ | before
    · cases never
    · exact gate.stores i before
  | close =>
    refine ⟨true, { gate with
      word := ?_, stores := fun _ _ => rfl, stopped := fun _ => rfl, stopping := fun _ => rfl },
      fun _ => rfl⟩
    rw [Shared.setAdmission_admission, gate.word]
    exact closeAdmission_packed gate.small
  | store i found =>
    refine ⟨shut, { gate with
      stores := fun j there => ?_, stopped := fun _ => gate.stores i found }, id⟩
    rcases getElem?_of_set there with never | before
    · cases never
    · exact gate.stores j before
  | signal =>
    refine ⟨shut, { gate with stores := fun j there => ?_ }, id⟩
    rcases getElem?_of_set there with never | before
    · cases never
    · exact gate.stores j before
  | breaker => exact ⟨shut, { gate with }, id⟩

end

end Coact
