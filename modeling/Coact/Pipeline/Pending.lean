import Coact.Pipeline.Queues
import Coact.Queue.Kinds

/-! Pending accounting. The pending counter of an AO is the number of its slots
in staging, plus the slot of it in the Dispatcher's hands whose decrement is
outstanding, plus the submissions to it between their increment and their
publication or roll-back. -/
namespace Coact
open Foundation Custody

variable {d : Deployment} {B : Backend StagingSlot} {H : Type}

/-- One if the slot targets `ao`. -/
def StagingSlot.targets (d : Deployment) (ao : AoId) (v : StagingSlot) : Nat :=
  if d.lookup v.target = some ao then 1 else 0

def Phase.counts (ao : AoId) : Phase d B → Nat
  | .counted a => if a = ao then 1 else 0
  | .pushing b _ => if b.ao = ao then 1 else 0
  | _ => 0

def Custody.counts (ao : AoId) : Custody d B → Nat
  | .holding v => v.targets d ao
  | .running b => if b.ao = ao then 1 else 0
  | .handled b => if b.ao = ao then 1 else 0
  | _ => 0

/-- The slots in staging that target `ao`. -/
def Shared.queued (L : B.Lawful) (d : Deployment) (sh : Shared B H) (ao : AoId) : Nat :=
  (sh.staged L).countP fun v => d.lookup v.target = some ao

structure Pipe.PendingOk (L : B.Lawful) (s : Pipe d B H) : Prop where
  queues : s.QueuesOk L
  small : ∀ ao, s.shared.pending ao < 2 ^ 16
  balance : ∀ ao, s.shared.pending ao = s.shared.queued L d ao + s.custody.counts ao +
    tally (Phase.counts ao) s.phases

theorem BoundSlot.targets (b : BoundSlot d) (ao : AoId) :
    b.slot.targets d ao = if b.ao = ao then 1 else 0 := by
  rw [StagingSlot.targets, b.bound]
  simp

variable {L : B.Lawful} {sh : Shared B H}

theorem queued_cons {sh' : Shared B H} (ao : AoId) (added : sh'.staged L = v ::ₘ sh.staged L) :
    sh'.queued L d ao = sh.queued L d ao + v.targets d ao := by
  rw [Shared.queued, added, Multiset.countP_cons]
  rfl

theorem queued_same {sh' : Shared B H} (ao : AoId) (same : sh'.staged L = sh.staged L) :
    sh'.queued L d ao = sh.queued L d ao := by
  rw [Shared.queued, same]
  rfl

@[simp] theorem queued_setPending (sh : Shared B H) (a ao : AoId) (n : Nat) :
    (sh.setPending a n).queued L d ao = sh.queued L d ao := rfl

@[simp] theorem queued_record (sh : Shared B H) (act : Act) (ao : AoId) :
    (sh.record act).queued L d ao = sh.queued L d ao := rfl

theorem pending_next (small : sh.pending a < 2 ^ 16) (room : sh.pending a ≠ 0xffff)
    (ao : AoId) : (sh.setPending a (PendingCounter.next (sh.pending a))).pending ao =
      sh.pending ao + if a = ao then 1 else 0 := by
  have bound : sh.pending a + 1 < 0x10000 := by omega
  rw [Shared.setPending_pending, PendingCounter.next, Nat.mod_eq_of_lt bound,
    Function.update_apply]
  by_cases same : ao = a
  · simp [same]
  · simp [same, Ne.symm same]

theorem pending_sub (held : 0 < sh.pending a) (ao : AoId) :
    (sh.setPending a (PendingCounter.decrementSub (sh.pending a))).pending ao +
      (if a = ao then 1 else 0) = sh.pending ao := by
  rw [Shared.setPending_pending, PendingCounter.decrementSub, if_neg held.ne',
    Function.update_apply]
  by_cases same : ao = a
  · subst same
    simp only [if_true]
    omega
  · simp [same, Ne.symm same]

section
variable {L : B.Lawful} {s : Pipe d B H} {i : Nat} {ph ph' : Phase d B} {sh' : Shared B H}

theorem Pipe.PendingOk.counted (inv : s.PendingOk L) (ao : AoId)
    (found : s.phases[i]? = some ph) : ph.counts ao ≤ s.shared.pending ao := by
  have held := weight_le_tally (w := Phase.counts ao) (List.mem_of_getElem? found)
  have balance := inv.balance ao
  omega

theorem Moves.pending (inv : s.PendingOk L) (found : s.phases[i]? = some ph)
    (move : Moves d i s.shared ph sh' ph') (ao : AoId) :
    sh'.pending ao < 2 ^ 16 ∧
    sh'.pending ao + ph.counts ao + s.shared.queued L d ao =
      s.shared.pending ao + ph'.counts ao + sh'.queued L d ao := by
  have small := inv.small ao
  cases move with
  | count a target bound room cap =>
    have added := pending_next (inv.small a) room ao
    refine ⟨?_, ?_⟩
    · by_cases same : a = ao
      · subst same
        rw [added, if_pos rfl]
        omega
      · rw [added, if_neg same]
        exact small
    · simp only [queued_setPending, added, Phase.counts]
      omega
  | uncount a =>
    have held := inv.counted a found
    simp only [Phase.counts, if_true] at held
    have removed := pending_sub held ao
    refine ⟨by omega, ?_⟩
    simp only [queued_setPending, Phase.counts]
    omega
  | pushStart => exact ⟨small, rfl⟩
  | pushNext _ _ _ _ ran =>
    obtain ⟨ok, under⟩ := inv.queues.pushing found
    rw [queued_same ao (staged_same (L.push_next ok under ran).2)]
    exact ⟨small, rfl⟩
  | pushFail _ _ _ ran =>
    obtain ⟨ok, under⟩ := inv.queues.pushing found
    rw [queued_same ao (staged_same (L.push_fail ok under ran).2)]
    exact ⟨small, rfl⟩
  | publish b r q sub ran =>
    obtain ⟨ok, under⟩ := inv.queues.pushing found
    have added := queued_cons (d := d) ao (staged_cons (L.push_done ok under ran).2)
    refine ⟨small, ?_⟩
    simp only [Phase.counts, ← b.targets ao, Shared.record_pending, Shared.setQueue_pending,
      queued_record]
    omega
  | depart queued =>
    refine ⟨small, ?_⟩
    cases queued <;> rfl
  | _ => exact ⟨small, rfl⟩

theorem Serves.pending (inv : s.PendingOk L)
    (move : Serves d s.shared s.custody s.mode sh' cu' m') (ao : AoId) :
    sh'.pending ao < 2 ^ 16 ∧
    sh'.pending ao + s.custody.counts ao + s.shared.queued L d ao =
      s.shared.pending ao + cu'.counts ao + sh'.queued L d ao := by
  have small := inv.small ao
  have held : ∀ a, s.custody.counts a ≤ s.shared.pending a := by
    intro a
    have balance := inv.balance a
    omega
  have queues := inv.queues
  obtain ⟨sh, phases, cu, m, stoppers⟩ := s
  dsimp only at small held move ⊢
  cases move with
  | popNext _ p _ _ _ ran =>
    have ok := queues p
    simp only [pop, if_true] at ok
    rw [queued_same ao (staged_same (L.pop_next ok ran).2)]
    exact ⟨small, rfl⟩
  | popNone _ p _ _ ran =>
    have ok := queues p
    simp only [pop, if_true] at ok
    rw [queued_same ao (staged_same (L.pop_none ok ran).2)]
    exact ⟨small, rfl⟩
  | popSome m p r q v ran =>
    have ok := queues p
    simp only [pop, if_true] at ok
    have taken := queued_cons (d := d) ao (staged_uncons (L.pop_some ok ran).2)
    refine ⟨small, ?_⟩
    simp only [counts, queued_record, Shared.record_pending, Shared.setQueue_pending]
    omega
  | take b =>
    refine ⟨small, ?_⟩
    simp only [counts, b.targets ao]
    rfl
  | pay b =>
    have own := held b.ao
    simp only [counts, if_true] at own
    have removed := pending_sub own ao
    refine ⟨by omega, ?_⟩
    simp only [queued_setPending, counts]
    omega
  | discard b =>
    have own := held b.ao
    simp only [counts, b.targets, if_true] at own
    have removed := pending_sub own ao
    simp only [queued_record, queued_setPending, counts, Shared.record_pending, b.targets]
    omega
  | releaseUnbound _ _ _ _ _ unbound =>
    refine ⟨small, ?_⟩
    simp only [counts, StagingSlot.targets, unbound, reduceCtorEq, if_false]
    rfl
  | _ => exact ⟨small, rfl⟩

theorem Pipe.PendingOk.step (inv : s.PendingOk L) (ran : Pipe.Step s t) : t.PendingOk L := by
  refine ⟨inv.queues.step ran, fun ao => ?_, fun ao => ?_⟩
  · cases ran with
    | submission _ _ _ _ found move => exact (move.pending inv found ao).1
    | service _ _ _ move => exact (move.pending inv ao).1
    | _ => exact inv.small ao
  · have balance := inv.balance ao
    cases ran with
    | enter => simpa [Phase.counts] using balance
    | submission i ph sh' ph' found move =>
      have moved := (move.pending inv found ao).2
      have total := tally_set (w := Phase.counts ao) found ph'
      dsimp only
      omega
    | service sh' cu' m' move =>
      have moved := (move.pending inv ao).2
      dsimp only
      omega
    | _ => exact balance

end

theorem Pipe.pendingOk_initial (L : B.Lawful) (hsm : AoId → H) :
    (Pipe.initial d B hsm).PendingOk L where
  queues := Pipe.queuesOk_initial L hsm
  small _ := (by decide : 0 < 2 ^ 16)
  balance ao := by
    have empty : (Pipe.initial d B hsm).shared.staged L = 0 := by
      simp [Shared.staged, Pipe.initial, Shared.initial, L.resident_empty]
    rw [Shared.queued, empty]
    rfl

theorem Reachable.pendingOk (L : B.Lawful) {hsm : AoId → H}
    (run : Reachable hsm s) : s.pipe.PendingOk L :=
  run.pipe_invariant (Pipe.pendingOk_initial L hsm) Pipe.PendingOk.step

/-- Every target bound to `ao` has a non-zero backlog cap of at most `cap`. -/
def Deployment.Capped (d : Deployment) (ao : AoId) (cap : Nat) : Prop :=
  ∀ target, d.lookup target = some ao → 0 < d.backlogCap target ∧ d.backlogCap target ≤ cap

section
variable {L : B.Lawful} {s : Pipe d B H} {i : Nat} {ph ph' : Phase d B} {sh' : Shared B H}
  {ao : AoId} {cap : Nat}

theorem Moves.pending_capped (capped : d.Capped ao cap) (inv : s.PendingOk L)
    (found : s.phases[i]? = some ph) (move : Moves d i s.shared ph sh' ph')
    (below : s.shared.pending ao ≤ cap) : sh'.pending ao ≤ cap := by
  cases move with
  | count a target bound room limit =>
    rw [pending_next (inv.small a) room]
    split
    · rename_i same
      subst same
      obtain ⟨positive, fits⟩ := capped target bound
      omega
    · exact below
  | uncount a =>
    have held := inv.counted a found
    simp only [Phase.counts, if_true] at held
    have removed := pending_sub held ao
    omega
  | _ => exact below

theorem Serves.pending_le (inv : s.PendingOk L)
    (move : Serves d s.shared s.custody s.mode sh' cu' m') :
    sh'.pending ao ≤ s.shared.pending ao := by
  have held : ∀ a, s.custody.counts a ≤ s.shared.pending a := by
    intro a
    have balance := inv.balance a
    omega
  obtain ⟨sh, phases, cu, m, stoppers⟩ := s
  dsimp only at held move ⊢
  cases move with
  | pay b =>
    have own := held b.ao
    simp only [counts, if_true] at own
    have removed := pending_sub own ao
    omega
  | discard b =>
    have own := held b.ao
    simp only [counts, b.targets, if_true] at own
    have removed := pending_sub own ao
    simp only [Shared.record_pending]
    omega
  | _ => exact le_rfl

theorem Pipe.PendingOk.capped_step (capped : d.Capped ao cap)
    (inv : s.PendingOk L) (below : s.shared.pending ao ≤ cap) (ran : Pipe.Step s t) :
    t.shared.pending ao ≤ cap := by
  cases ran with
  | submission _ _ _ _ found move => exact move.pending_capped capped inv found below
  | service _ _ _ move => exact (move.pending_le inv).trans below
  | _ => exact below

theorem Reachable.pending_capped (L : B.Lawful) {hsm : AoId → H} {s : Sys d B H}
    (capped : d.Capped ao cap) (run : Reachable hsm s) : s.shared.pending ao ≤ cap := by
  have both := run.pipe_invariant (P := fun s => s.PendingOk L ∧ s.shared.pending ao ≤ cap)
      ⟨Pipe.pendingOk_initial L hsm, Nat.zero_le cap⟩
      fun inv ran => ⟨inv.1.step ran, inv.1.capped_step capped inv.2 ran⟩
  exact both.2

end

theorem Pipe.PendingOk.no_underflow (inv : s.pipe.PendingOk L) (label : Label H) :
    Sys.step label s ≠ .error (.assertion .pendingUnderflow) := by
  intro failed
  rcases Sys.step_fails failed with ⟨ph, mem, fails⟩ | fails
  · obtain ⟨i, found⟩ := List.getElem?_of_mem mem
    cases fails with
    | underflow ao empty =>
      have held := inv.counted ao found
      simp only [Phase.counts, if_true] at held
      omega
  · have held : ∀ a, s.pipe.custody.counts a ≤ s.pipe.shared.pending a := by
      intro a
      have balance := inv.balance a
      omega
    generalize s.pipe.custody = cu at fails held
    cases fails with
    | underflow b empty =>
      have own := held b.ao
      simp only [counts, if_true] at own
      omega
    | underflowStop b empty =>
      have own := held b.ao
      simp only [counts, b.targets, if_true] at own
      omega

theorem Pipe.PendingOk.visible {s : Pipe d B H} (inv : s.PendingOk L) {ao : AoId}
    (mem : v ∈ s.shared.staged L) (bound : d.lookup v.target = some ao) :
    0 < s.shared.pending ao := by
  have some_queued : 0 < s.shared.queued L d ao :=
    Multiset.countP_pos_of_mem mem bound
  have balance := inv.balance ao
  omega

/-- The balance in every reachable state, with either queue backend; no
decrement finds an empty counter, no slot is visible with an empty counter, and
an AO whose targets are capped stays within the cap. -/
theorem pending_accounting (k : QueueBackend) {hsm : AoId → H}
    {s : Sys d (k.impl StagingSlot) H} (run : Reachable hsm s) :
    (∀ ao, s.shared.pending ao = s.shared.queued (k.laws StagingSlot) d ao +
      s.disp.custody.counts ao + tally (Phase.counts ao) (s.calls.mapIdx Call.phase)) ∧
    (∀ label, Sys.step label s ≠ .error (.assertion .pendingUnderflow)) ∧
    (∀ ao v, v ∈ s.shared.staged (k.laws StagingSlot) → d.lookup v.target = some ao →
      0 < s.shared.pending ao) ∧
    (∀ ao cap, d.Capped ao cap → s.shared.pending ao ≤ cap) := by
  have inv := run.pendingOk (k.laws StagingSlot)
  refine ⟨inv.balance, inv.no_underflow, fun ao v => inv.visible, fun ao cap capped => ?_⟩
  exact run.pending_capped (k.laws StagingSlot) capped

/-- `singleAo` with a backlog cap of one on its target. -/
def cappedAo : Deployment := { singleAo with rules := some [⟨⟨1⟩, 0, 1⟩] }

/-- Two ISR submissions, the second one refused at the cap. -/
def cappedSchedule : List (Label Nat) :=
  Label.submit { target := ⟨1⟩, event := 7, fromIsr := true } ::
    List.replicate 15 (Label.call 0 {}) ++
    Label.submit { target := ⟨1⟩, event := 8, fromIsr := true } ::
    List.replicate 7 (Label.call 1 {})

def cappedState : Sys cappedAo (QueueBackend.BoundedMpscQueue.impl StagingSlot) Nat :=
  runOf cappedAo _ (fun _ => 0) cappedSchedule

theorem pending_accounting_capped :
    Reachable (fun _ => 0) cappedState ∧ cappedState.shared.pending 0 = 1 ∧
      cappedState.shared.queued (QueueBackend.BoundedMpscQueue.laws StagingSlot) cappedAo 0 = 1 := by
  have run : Reachable (fun _ => 0) cappedState := reachable_runOf (by decide +kernel)
  have balance := (pending_accounting .BoundedMpscQueue run).1 0
  have counter : cappedState.shared.pending 0 = 1 := by decide +kernel
  have hand : cappedState.disp.custody.counts 0 = 0 := by decide +kernel
  have flight : tally (Phase.counts 0) (cappedState.calls.mapIdx Call.phase) = 0 := by
    decide +kernel
  exact ⟨run, counter, by omega⟩

end Coact
