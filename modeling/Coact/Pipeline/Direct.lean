import Coact.Pipeline.Order

/-! Direct dispatch beside the queue. `submit_internal` does not look at the
pending counter before it dispatches directly, so a direct event may overtake
queued ones; it cannot when the counter is zero. -/
namespace Coact
open Dispatch Foundation

variable {d : Deployment} {B : Backend StagingSlot} {H : Type}

/-- Where an enqueued event of an AO can be, over any backend. -/
structure Pipe.Tracked (L : B.Lawful) (s : Pipe d B H) : Prop where
  queues : s.QueuesOk L
  found : ∀ ao j, .published ao j ∈ s.shared.log →
    .handed .dispatcher ao j ∈ s.shared.log ∨ .dropped ao j ∈ s.shared.log ∨
      j ∈ s.custody.deferral ao ∨ ∃ v ∈ s.shared.staged L, j ∈ v.tag d ao

section
variable {L : B.Lawful} {s t : Pipe d B H} {i : Nat} {ph ph' : Phase d B} {sh' : Shared B H}

/-- Nothing that is settled or on its way is lost by a step that appends to the
log and moves the other events along. -/
theorem Pipe.Tracked.moved (inv : s.Tracked L) (queues : t.QueuesOk L)
    (log : t.shared.log = s.shared.log ++ acts)
    (added : ∀ ao j, .published ao j ∈ acts → ∃ v ∈ t.shared.staged L, j ∈ v.tag d ao)
    (held : ∀ ao j, j ∈ s.custody.deferral ao → j ∈ t.custody.deferral ao ∨
      .handed .dispatcher ao j ∈ acts ∨ .dropped ao j ∈ acts)
    (staged : ∀ v ∈ s.shared.staged L, v ∈ t.shared.staged L ∨
      ∀ ao, v.tag d ao = t.custody.deferral ao) : t.Tracked L := by
  refine ⟨queues, fun ao j published => ?_⟩
  rw [log, List.mem_append] at published
  rw [log, List.mem_append, List.mem_append]
  rcases published with before | new
  · rcases inv.found ao j before with handed | dropped | deferred | ⟨v, mem, tagged⟩
    · exact .inl (.inl handed)
    · exact .inr (.inl (.inl dropped))
    · rcases held ao j deferred with still | handed | dropped
      · exact .inr (.inr (.inl still))
      · exact .inl (.inr handed)
      · exact .inr (.inl (.inr dropped))
    · rcases staged v mem with still | popped
      · exact .inr (.inr (.inr ⟨v, still, tagged⟩))
      · exact .inr (.inr (.inl (popped ao ▸ tagged)))
  · exact .inr (.inr (.inr (added ao j new)))

theorem Moves.tracked (inv : s.Tracked L) (found : s.phases[i]? = some ph)
    (move : Moves d i s.shared ph sh' ph') :
    Pipe.Tracked L { s with shared := sh', phases := s.phases.set i ph' } := by
  have queues := move.queuesOk inv.queues found
  have aside {acts : List Act} (log : sh'.log = s.shared.log ++ acts)
      (silent : ∀ ao j, .published ao j ∉ acts) (same : sh'.staged L = s.shared.staged L) :
      Pipe.Tracked L { s with shared := sh', phases := s.phases.set i ph' } :=
    inv.moved queues log (fun ao j new => (silent ao j new).elim) (fun ao j => .inl)
      fun v mem => .inl (same ▸ mem)
  cases move with
  | pushNext _ _ _ _ ran =>
    obtain ⟨ok, under⟩ := inv.queues.pushing found
    exact aside (List.append_nil _).symm (by simp) (staged_same (L.push_next ok under ran).2)
  | pushFail _ _ _ ran =>
    obtain ⟨ok, under⟩ := inv.queues.pushing found
    exact aside (List.append_nil _).symm (by simp) (staged_same (L.push_fail ok under ran).2)
  | publish b _ q sub ran =>
    obtain ⟨ok, under⟩ := inv.queues.pushing found
    have added := staged_cons (L.push_done ok under ran).2
    refine inv.moved queues rfl (fun ao j new => ?_) (fun ao j => .inl) fun v mem => .inl ?_
    · cases List.mem_singleton.mp new
      refine ⟨b.slot, added ▸ Multiset.mem_cons_self _ _, ?_⟩
      rw [b.tag, if_pos rfl, sub, List.mem_singleton]
    · exact added ▸ Multiset.mem_cons_of_mem mem
  | refuse | gc | gcDirect | read | work | take => exact aside rfl (by simp) rfl
  | _ => exact aside (List.append_nil _).symm (by simp) rfl

theorem Serves.tracked (inv : s.Tracked L) (move : Serves d s.shared s.custody s.mode sh' cu' m') :
    Pipe.Tracked L { s with shared := sh', custody := cu', mode := m' } := by
  have queues := move.queuesOk inv.queues
  obtain ⟨sh, phases, cu, m, stoppers⟩ := s
  have aside {acts : List Act} (log : sh'.log = sh.log ++ acts)
      (silent : ∀ ao j, .published ao j ∉ acts) (same : sh'.staged L = sh.staged L)
      (held : ∀ ao j, j ∈ cu.deferral ao → j ∈ cu'.deferral ao ∨
        .handed .dispatcher ao j ∈ acts ∨ .dropped ao j ∈ acts) :
      Pipe.Tracked L ⟨sh', phases, cu', m', stoppers⟩ :=
    inv.moved queues log (fun ao j new => (silent ao j new).elim) held
      fun v mem => .inl (same ▸ mem)
  have bound {b : BoundSlot d} {ao : AoId} {j : Nat} (mem : j ∈ b.slot.tag d ao) :
      ao = b.ao ∧ j = b.slot.sub := by
    rw [b.tag] at mem
    split at mem
    · rename_i here
      exact ⟨here.symm, List.mem_singleton.mp mem⟩
    · cases mem
  have popping : ∀ {p : Partition} {r : B.Pop}, cu = .popping p r →
      L.Inv (sh.queue p) (pushes phases p) (some r) := by
    rintro p r rfl
    have ok := inv.queues p
    simp only [Custody.pop, if_true] at ok
    exact ok
  cases move with
  | popNext _ _ _ _ _ ran =>
    exact aside (List.append_nil _).symm (by simp)
      (staged_same (L.pop_next (popping rfl) ran).2) fun _ _ => .inl
  | popNone _ _ _ _ ran =>
    exact aside (List.append_nil _).symm (by simp)
      (staged_same (L.pop_none (popping rfl) ran).2) fun _ _ => .inl
  | popSome _ _ _ _ _ ran =>
    have taken := staged_uncons (L.pop_some (popping rfl) ran).2
    refine inv.moved queues rfl (by simp) (fun ao j never => by cases never) fun w mem => ?_
    rw [taken, Multiset.mem_cons] at mem
    rcases mem with rfl | still
    · exact .inr fun ao => rfl
    · exact .inl still
  | take =>
    refine aside rfl (by simp) rfl fun ao j mem => .inr (.inl ?_)
    obtain ⟨rfl, rfl⟩ := bound mem
    exact List.mem_singleton_self _
  | discard =>
    refine aside rfl (by simp) rfl fun ao j mem => .inr (.inr ?_)
    obtain ⟨rfl, rfl⟩ := bound mem
    exact List.mem_singleton_self _
  | work | release => exact aside rfl (by simp) rfl fun _ _ => .inl
  | releaseUnbound _ _ _ _ _ unbound =>
    refine aside rfl (by simp) rfl fun ao j mem => ?_
    simp [Custody.deferral, StagingSlot.tag, unbound] at mem
  | _ => exact aside (List.append_nil _).symm (by simp) rfl fun _ _ => .inl

theorem Pipe.Tracked.step (inv : s.Tracked L) (ran : Pipe.Step s t) : t.Tracked L := by
  have queues := inv.queues.step ran
  cases ran with
  | submission _ _ _ _ found move => exact move.tracked inv found
  | service _ _ _ move => exact move.tracked inv
  | _ => exact ⟨queues, inv.found⟩

theorem Pipe.PendingOk.none_waiting (inv : s.PendingOk L) {ao : AoId}
    (zero : s.shared.pending ao = 0) :
    s.custody.deferral ao = [] ∧ ∀ v ∈ s.shared.staged L, v.tag d ao = [] := by
  have balance := inv.balance ao
  refine ⟨?_, fun v mem => if_neg fun bound => ?_⟩
  · have none : s.custody.counts ao = 0 := by omega
    cases held : s.custody with
    | holding =>
      rw [held] at none
      refine if_neg fun bound => ?_
      rw [Custody.counts, StagingSlot.targets, if_pos bound] at none
      cases none
    | _ => rfl
  · have visible := inv.visible mem bound
    omega

end

theorem Reachable.tracked (L : B.Lawful) {hsm : AoId → H}
    (run : Reachable hsm s) : s.pipe.Tracked L :=
  run.pipe_invariant
    ⟨Pipe.queuesOk_initial L hsm, fun ao j never => by cases never⟩ Pipe.Tracked.step

/-- The step does not dispatch directly to an AO with events pending. -/
def Sys.DirectWhenSettled (label : Label H) (s : Sys d B H) : Prop :=
  ∀ t ao i, Sys.step label s = .ok t → t.shared.log = s.shared.log ++ [.handed .call ao i] →
    s.shared.pending ao = 0

theorem reaches_inOrder {hsm : AoId → H}
    (run : Reaches Sys.step Sys.DirectWhenSettled (Sys.initial d _ hsm) s) :
    s.pipe.PendingOk (ringLawful StagingSlot) ∧
      s.pipe.InOrder (ringFifo StagingSlot) true := by
  refine Reaches.invariant (P := fun s => s.pipe.PendingOk (ringLawful StagingSlot) ∧
    s.pipe.InOrder (ringFifo StagingSlot) true) run
    ⟨Pipe.pendingOk_initial _ hsm, Pipe.inOrder_initial _ true hsm⟩ ?_
  rintro label s t ⟨pending, order⟩ settled ran
  have moved := Sys.step_pipe ran
  refine ⟨pending.step moved, order.step moved fun _ ao i handed => ?_⟩
  obtain ⟨none, clear⟩ := pending.none_waiting (settled t ao i ran handed)
  refine ⟨none, List.flatMap_eq_nil_iff.mpr fun v mem => clear v ?_⟩
  exact mem_staged.mpr ⟨_, Multiset.mem_coe.mpr mem⟩

/-- While the pending counter of an AO is zero every event queued for it has
been handed over or dropped. In a run that dispatches directly only then, the
HSM of an AO gets the direct and the queued events in the order they arrive. -/
theorem direct_after_queued (hsm : AoId → H) :
    (∀ (k : QueueBackend) (s : Sys d (k.impl StagingSlot) H), Reachable hsm s →
      ∀ ao, s.shared.pending ao = 0 → ∀ j, .published ao j ∈ s.shared.log →
        .handed .dispatcher ao j ∈ s.shared.log ∨ .dropped ao j ∈ s.shared.log) ∧
    (∀ s : Sys d (ringBackend StagingSlot) H,
      Reaches Sys.step Sys.DirectWhenSettled (Sys.initial d _ hsm) s →
      ∀ ao, arrivals true ao s.shared.log = settlements true ao s.shared.log ++
        (s.disp.custody.deferral ao ++ s.shared.waiting (ringFifo StagingSlot) d ao)) := by
  refine ⟨fun k s run ao zero j published => ?_, fun s run => ?_⟩
  · obtain ⟨none, clear⟩ := (run.pendingOk (k.laws StagingSlot)).none_waiting zero
    rcases (run.tracked (k.laws StagingSlot)).found ao j published with
      handed | dropped | deferred | ⟨v, mem, tagged⟩
    · exact .inl handed
    · exact .inr dropped
    · rw [none] at deferred
      cases deferred
    · rw [clear v mem] at tagged
      cases tagged
  · exact (reaches_inOrder run).2.order

/-- The test of `DirectWhenSettled` on one step. -/
def Sys.directSettled (label : Label H) (s : Sys d B H) : Bool :=
  match Sys.step label s with
  | .ok t =>
    match t.shared.log.getLast? with
    | some (.handed .call ao _) =>
      t.shared.log.length = s.shared.log.length ∨ s.shared.pending ao = 0
    | _ => true
  | .error _ => true

theorem Sys.directSettled_sound (label : Label H) (s : Sys d B H)
    (settled : s.directSettled label = true) : s.DirectWhenSettled label := by
  intro t ao i ran handed
  simp only [Sys.directSettled, ran, handed, List.getLast?_concat, List.length_append,
    List.length_singleton] at settled
  rcases of_decide_eq_true settled with never | zero
  · omega
  · exact zero

/-- An event is queued and dispatched before the next one is dispatched directly. -/
def settledSchedule : List (Label Nat) :=
  Label.submit { target := ⟨1⟩, event := 7, fromIsr := true } ::
    List.replicate 9 (Label.call 0 {}) ++
    List.replicate 23 (Label.dispatcher {}) ++
    Label.submit { target := ⟨1⟩, event := 8 } :: List.replicate 13 (Label.call 1 {})

def settledState : Sys singleAo (ringBackend StagingSlot) Nat :=
  runOf singleAo _ (fun _ => 0) settledSchedule

theorem direct_after_queued_settled :
    arrivals true 0 settledState.shared.log = [0, 1] ∧
      settlements true 0 settledState.shared.log = [0, 1] ∧
      (.handed .dispatcher 0 0 ∈ settledState.shared.log ∨
        .dropped 0 0 ∈ settledState.shared.log) := by
  have settled : passes Sys.directSettled Sys.step settledSchedule
      (Sys.initial singleAo (ringBackend StagingSlot) fun _ => 0) = true := by decide +kernel
  have ordered := (direct_after_queued (d := singleAo) fun _ => 0).2 settledState
    (reaches_passes Sys.directSettled_sound settled) 0
  have arrived : arrivals true 0 settledState.shared.log = [0, 1] := by decide +kernel
  have deferred : settledState.disp.custody.deferral 0 = [] := by decide +kernel
  have waiting : settledState.shared.waiting (ringFifo StagingSlot) singleAo 0 = [] := by
    decide +kernel
  refine ⟨arrived, ?_, ?_⟩
  · exact ordered.symm
  · exact (direct_after_queued (d := singleAo) fun _ => 0).1 .SingleCoreCriticalRing settledState
      (reachable_runOf (by decide +kernel)) 0 (by decide +kernel) 0 (by decide +kernel)

/-- A task finds the lease held by another one and queues its event. -/
def queueBehindDirect : List (Label Nat) :=
  Label.submit { target := ⟨1⟩, event := 7 } :: List.replicate 6 (Label.call 0 {}) ++
    Label.submit { target := ⟨1⟩, event := 8 } :: List.replicate 11 (Label.call 1 {}) ++
    List.replicate 8 (Label.call 0 {})

def queuedBehind : Sys singleAo (ringBackend StagingSlot) Nat :=
  runOf singleAo _ (fun _ => 0) queueBehindDirect

/-- Then its next event is dispatched directly. -/
def overtakingState : Sys singleAo (ringBackend StagingSlot) Nat :=
  runOf singleAo _ (fun _ => 0) (queueBehindDirect ++
    .submit { target := ⟨1⟩, event := 9 } :: List.replicate 6 (.call 2 {}))

theorem direct_overtakes_queued :
    Reachable (fun _ => 0) overtakingState ∧
      queuedBehind.calls[1]? = some (.done { target := ⟨1⟩, event := 8 } ⟨.Queued, 0⟩) ∧
      queuedBehind.calls.length = 2 ∧ .handed .call 0 2 ∈ overtakingState.shared.log ∧
      overtakingState.shared.waiting (ringFifo StagingSlot) singleAo 0 = [1] :=
  ⟨reachable_runOf (by decide +kernel), by rfl, by decide +kernel, by decide +kernel,
    by decide +kernel⟩

end Coact
