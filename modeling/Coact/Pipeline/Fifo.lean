import Coact.Pipeline.Ownership
import Coact.Pipeline.Order

/-! First in, first out for each AO. The Dispatcher hands over the enqueued
events of an AO in their order, through partition selection, batches and the
deferred slot, and on stop it drops a rest that it never dispatches from again. -/
namespace Coact
open Dispatch Foundation

variable {d : Deployment} {B : Backend StagingSlot} {H : Type}

/-- The Dispatcher drops slots only after it has dispatched its last one. -/
structure Pipe.Served (s : Pipe d B H) : Prop where
  split : ∀ ao, settlements false ao s.shared.log = dispatches ao s.shared.log ++ drops ao s.shared.log
  undropped : ¬ s.mode.stopping → ∀ ao, drops ao s.shared.log = []

section
variable {s t : Pipe d B H} {i : Nat} {ph ph' : Phase d B} {sh' : Shared B H}

theorem Pipe.Served.remarked (inv : s.Served) (act : Act)
    (log : t.shared.log = s.shared.log ++ [act])
    (idle : ∀ ao, act.settlement false ao = none ∧ act.dispatch ao = none ∧ act.drop ao = none)
    (mode : s.mode.stopping → t.mode.stopping) : t.Served := by
  refine ⟨fun ao => ?_, fun running ao => ?_⟩
  · rw [log, settlements_append, dispatches_append, drops_append, (idle ao).1, (idle ao).2.1,
      (idle ao).2.2]
    simpa using inv.split ao
  · rw [log, drops_append, (idle ao).2.2, Option.toList_none, List.append_nil]
    exact inv.undropped (fun stopping => running (mode stopping)) ao

theorem Pipe.Served.aside (inv : s.Served) (log : t.shared.log = s.shared.log)
    (mode : s.mode.stopping → t.mode.stopping) : t.Served := by
  refine ⟨fun ao => ?_, fun running ao => ?_⟩ <;> rw [log]
  · exact inv.split ao
  · exact inv.undropped (fun stopping => running (mode stopping)) ao

theorem Moves.served (inv : s.Served) (move : Moves d i s.shared ph sh' ph') :
    Pipe.Served { s with shared := sh', phases := s.phases.set i ph' } := by
  cases move with
  | refuse | gc | gcDirect =>
    exact inv.remarked (.released .call i) rfl (fun _ => ⟨rfl, rfl, rfl⟩) id
  | read | work => exact inv.remarked (.read i) rfl (fun _ => ⟨rfl, rfl, rfl⟩) id
  | publish b =>
    exact inv.remarked (.published b.ao i) rfl (fun _ => ⟨rfl, rfl, rfl⟩) id
  | take ao =>
    refine inv.remarked (.handed .call ao i) rfl (fun a => ⟨?_, rfl, rfl⟩) id
    simp [Act.settlement]
  | _ => exact inv.aside rfl id

theorem Serves.served (inv : s.Served) (move : Serves d s.shared s.custody s.mode sh' cu' m') :
    Pipe.Served { s with shared := sh', custody := cu', mode := m' } := by
  obtain ⟨sh, phases, cu, m, stoppers⟩ := s
  cases move with
  | popSome _ _ _ _ v =>
    exact inv.remarked (.dequeued v.sub) rfl (fun _ => ⟨rfl, rfl, rfl⟩) id
  | work b => exact inv.remarked (.read b.slot.sub) rfl (fun _ => ⟨rfl, rfl, rfl⟩) id
  | release v | releaseUnbound v =>
    exact inv.remarked (.released .dispatcher v.sub) rfl (fun _ => ⟨rfl, rfl, rfl⟩) id
  | take =>
    have undropped := inv.undropped id
    refine ⟨fun ao => ?_, fun _ ao => ?_⟩
    · change settlements false ao (sh.log ++ [_]) = dispatches ao (sh.log ++ [_]) ++
        drops ao (sh.log ++ [_])
      rw [settlements_append, dispatches_append, drops_append, inv.split ao, undropped ao]
      simp [Act.settlement, Act.dispatch, Act.drop]
    · change drops ao (sh.log ++ [_]) = []
      rw [drops_append, undropped ao]
      rfl
  | discard b =>
    refine ⟨fun ao => ?_, fun running => (running trivial).elim⟩
    change settlements false ao (sh.log ++ [_]) = dispatches ao (sh.log ++ [_]) ++
      drops ao (sh.log ++ [_])
    rw [settlements_append, dispatches_append, drops_append, inv.split ao]
    simp [Act.settlement, Act.dispatch, Act.drop]
  | stopping | check | checkNext | checkSome | checkZero | checkLast | idle | busy =>
    exact inv.aside rfl fun _ => trivial
  | _ => exact inv.aside rfl id

theorem Pipe.Served.step (inv : s.Served) (ran : Pipe.Step s t) : t.Served := by
  cases ran with
  | submission _ _ _ _ _ move => exact move.served inv
  | service _ _ _ move => exact move.served inv
  | _ => exact inv.aside rfl id

theorem Pipe.served_initial (hsm : AoId → H) : (Pipe.initial d B hsm).Served where
  split _ := rfl
  undropped _ _ := rfl

end

/-- The act is the enqueue of submission `i`. -/
def Act.publishes (i : Nat) : Act → Bool
  | .published _ j => j = i
  | _ => false

/-- Each submission is enqueued at most once. -/
def Pipe.Once (s : Pipe d B H) : Prop :=
  ∀ i, s.shared.log.countP (Act.publishes i) = weightAt Phase.transferred s.phases i

section
variable {s t : Pipe d B H} {i : Nat} {ph ph' : Phase d B} {sh' : Shared B H}

theorem Moves.publishes (move : Moves d i s.shared ph sh' ph') (j : Nat) :
    sh'.log.countP (Act.publishes j) + (if j = i then ph.transferred else 0) =
      s.shared.log.countP (Act.publishes j) + if j = i then ph'.transferred else 0 := by
  have remark {act : Act} (other : act.publishes j = false) :
      (s.shared.log ++ [act]).countP (Act.publishes j) =
        s.shared.log.countP (Act.publishes j) := by
    rw [List.countP_append, List.countP_singleton, other]
    rfl
  cases move with
  | publish =>
    change (s.shared.log ++ [_]).countP (Act.publishes j) + _ = _
    by_cases here : j = i
    · simp [here, Act.publishes, Phase.transferred]
    · simp [here, Ne.symm here, Act.publishes]
  | refuse | gc | gcDirect | read | take | work =>
    exact congrArg (· + (if j = i then 0 else 0)) (remark rfl)
  | depart queued => cases queued <;> rfl
  | signalLast queued => cases queued <;> rfl
  | _ => rfl

theorem Serves.publishes (move : Serves d s.shared s.custody s.mode sh' cu' m') (j : Nat) :
    sh'.log.countP (Act.publishes j) = s.shared.log.countP (Act.publishes j) := by
  obtain ⟨sh, phases, cu, m, stoppers⟩ := s
  have remark {act : Act} (other : act.publishes j = false) :
      (sh.log ++ [act]).countP (Act.publishes j) = sh.log.countP (Act.publishes j) := by
    rw [List.countP_append, List.countP_singleton, other]
    rfl
  cases move <;> first | rfl | exact remark rfl

theorem Pipe.Once.step (inv : s.Once) (ran : Pipe.Step s t) : t.Once := by
  intro j
  cases ran with
  | submission i ph sh' ph' found move =>
    have changed := move.publishes j
    have before := inv j
    dsimp only
    rw [weightAt_set found]
    split at changed
    · rename_i here
      subst here
      rw [weightAt_found found] at before
      rw [if_pos rfl]
      omega
    · rename_i away
      rw [if_neg away]
      omega
  | service _ _ _ move => exact (move.publishes j).trans (inv j)
  | enter =>
    rw [weightAt_append (show Phase.transferred (.entering : Phase d B) = 0 from rfl)]
    exact inv j
  | _ => exact inv j

theorem Pipe.Once.nodup (inv : s.Once) (ao : AoId) : (arrivals false ao s.shared.log).Nodup := by
  rw [List.nodup_iff_count_le_one]
  intro i
  have published : ∀ act : Act, (act.arrival false ao == some i) = true →
      act.publishes i = true := by
    intro act arrives
    cases act with
    | published =>
      simp only [Act.arrival] at arrives
      split at arrives
      · simpa [Act.publishes] using arrives
      · cases arrives
    | handed party => cases party <;> simp [Act.arrival] at arrives
    | _ => cases arrives
  calc (arrivals false ao s.shared.log).count i
      = s.shared.log.countP (fun act => act.arrival false ao == some i) := by
        rw [arrivals, List.count_filterMap]
    _ ≤ s.shared.log.countP (Act.publishes i) :=
        List.countP_mono_left fun act _ => published act
    _ = weightAt Phase.transferred s.phases i := inv i
    _ ≤ 1 := (Nat.le_add_right _ _).trans (weightAt_le s.phases i)

end

section
variable {hsm : AoId → H} {s : Sys d (ringBackend StagingSlot) H}

theorem Reachable.served (run : Reachable hsm s) :
    s.pipe.InOrder (ringFifo StagingSlot) false ∧ s.pipe.Served ∧ s.pipe.Once := by
  refine run.pipe_invariant
    (P := fun s => s.InOrder (ringFifo StagingSlot) false ∧ s.Served ∧ s.Once)
    ⟨Pipe.inOrder_initial _ false hsm, Pipe.served_initial hsm, fun i => rfl⟩ ?_
  rintro s t ⟨order, served, once⟩ ran
  exact ⟨order.step ran fun never => (by cases never), served.step ran, once.step ran⟩

/-- The enqueues for an AO are, in this order, the events the Dispatcher has
handed to its HSM, those it has dropped on stop, the deferred one and those in
its partition; none occurs twice, and a drop is never followed by a dispatch. -/
theorem queued_fifo (run : Reachable hsm s) (ao : AoId) :
    arrivals false ao s.shared.log = dispatches ao s.shared.log ++ (drops ao s.shared.log ++
      (s.disp.custody.deferral ao ++ s.shared.waiting (ringFifo StagingSlot) d ao)) ∧
    (arrivals false ao s.shared.log).Nodup ∧
    (¬ s.disp.mode.stopping → drops ao s.shared.log = []) := by
  obtain ⟨order, served, once⟩ := run.served
  refine ⟨?_, once.nodup ao, fun running => served.undropped running ao⟩
  have decomposed := order.order ao
  rw [served.split ao, List.append_assoc] at decomposed
  exact decomposed

end

/-- A direct dispatch holds the lease while two ISR submissions queue events and
the Dispatcher, unable to dispatch the first, waits with it. -/
def deferSchedule : List (Label Nat) :=
  Label.submit { target := ⟨1⟩, event := 7 } :: List.replicate 6 (Label.call 0 {}) ++
    Label.submit { target := ⟨1⟩, event := 8, fromIsr := true } ::
    List.replicate 9 (Label.call 1 {}) ++
    Label.submit { target := ⟨1⟩, event := 9, fromIsr := true } ::
    List.replicate 9 (Label.call 2 {}) ++
    List.replicate 19 (Label.dispatcher {})

def deferredState : Sys singleAo (ringBackend StagingSlot) Nat :=
  runOf singleAo _ (fun _ => 0) deferSchedule

theorem queued_fifo_deferred :
    Reachable (fun _ => 0) deferredState ∧ deferredState.disp.custody.deferral 0 = [1] ∧
      deferredState.shared.waiting (ringFifo StagingSlot) singleAo 0 = [2] := by
  have run : Reachable (fun _ => 0) deferredState := reachable_runOf (by decide +kernel)
  have decomposed := (queued_fifo run 0).1
  have enqueued : arrivals false 0 deferredState.shared.log = [1, 2] := by decide +kernel
  have undispatched : dispatches 0 deferredState.shared.log = [] := by decide +kernel
  have undropped : drops 0 deferredState.shared.log = [] := by decide +kernel
  have deferred : deferredState.disp.custody.deferral 0 = [1] := by decide +kernel
  exact ⟨run, deferred, (List.cons.inj decomposed).2.symm⟩

end Coact
