import Coact.Pipeline.Queues
import Coact.Queue.Kinds

/-! Reference conservation. The one reference a submission transfers is, at any
time, with the submitting call, in staging, in the Dispatcher's hands, or
released; the ghost log shows that nobody touches the event afterwards. -/
namespace Coact
open Foundation Custody

variable {d : Deployment} {B : Backend StagingSlot} {H : Type}

/-- The submission an act concerns. -/
def Act.sub : Act → Nat
  | .read i | .handed _ _ i | .published _ i | .dequeued i | .dropped _ i | .released _ i => i

/-- One if the reference has been handed over to staging. -/
def Phase.transferred : Phase d B → Nat
  | .published _ _ => 1
  | .left true _ => 1
  | _ => 0

/-- One if the submitting call has released the reference. -/
def Phase.disposed : Phase d B → Nat
  | .spent => 1
  | .left false _ => 1
  | _ => 0

/-- One if the Dispatcher holds the reference of submission `i`. -/
def Custody.carries (i : Nat) : Custody d B → Nat
  | .holding v => if v.sub = i then 1 else 0
  | .running b => if b.slot.sub = i then 1 else 0
  | .handled b => if b.slot.sub = i then 1 else 0
  | .paid v => if v.sub = i then 1 else 0
  | _ => 0

def Shared.stagedOf (L : B.Lawful) (sh : Shared B H) (i : Nat) : Nat :=
  (sh.staged L).countP fun v => v.sub = i

/-- No act concerns a submission after its reference was released. -/
def Clean (log : List Act) : Prop :=
  ∀ before party i after, log = before ++ .released party i :: after →
    ∀ act ∈ after, act.sub ≠ i

section
variable {log : List Act}

theorem Clean.append (clean : Clean log)
    (unreleased : ∀ party, Act.released party act.sub ∉ log) : Clean (log ++ [act]) := by
  intro before party i after split other mem
  rcases split_snoc split with ⟨rfl, _, _⟩ | ⟨rest, rfl, earlier⟩
  · simp at mem
  · rcases List.mem_append.mp mem with inside | last
    · exact clean before party i rest earlier other inside
    · obtain rfl : other = act := by simpa using last
      rintro rfl
      exact unreleased party (by rw [earlier]; simp)

end

structure Pipe.Owned (L : B.Lawful) (s : Pipe d B H) : Prop where
  queues : s.QueuesOk L
  given : ∀ i, weightAt Phase.transferred s.phases i = s.shared.stagedOf L i +
    s.custody.carries i + s.shared.log.count (.released .dispatcher i)
  kept : ∀ i, weightAt Phase.disposed s.phases i = s.shared.log.count (.released .call i)
  taken : ∀ i, 0 < s.custody.carries i → .dequeued i ∈ s.shared.log
  clean : Clean s.shared.log

theorem stagedOf_cons {sh sh' : Shared B H} (i : Nat) (added : sh'.staged L = v ::ₘ sh.staged L) :
    sh'.stagedOf L i = sh.stagedOf L i + if v.sub = i then 1 else 0 := by
  rw [Shared.stagedOf, added, Multiset.countP_cons]
  rfl

theorem stagedOf_same {sh sh' : Shared B H} (i : Nat)
    (same : sh'.staged L = sh.staged L) : sh'.stagedOf L i = sh.stagedOf L i := by
  rw [Shared.stagedOf, same]
  rfl

theorem Phase.disposed_of_transferred (ph : Phase d B) : ph.transferred + ph.disposed ≤ 1 := by
  cases ph with
  | left queued => cases queued <;> exact le_rfl
  | published => exact le_rfl
  | spent => exact le_rfl
  | _ => exact Nat.zero_le 1

theorem weightAt_le (phases : List (Phase d B)) (i : Nat) :
    weightAt Phase.transferred phases i + weightAt Phase.disposed phases i ≤ 1 := by
  cases found : phases[i]? with
  | none => simp [weightAt, found]
  | some ph =>
    rw [weightAt_found found, weightAt_found found]
    exact ph.disposed_of_transferred

section
variable {L : B.Lawful} {s : Pipe d B H} {i : Nat} {ph ph' : Phase d B} {sh' : Shared B H}

theorem Pipe.Owned.unreleased (inv : s.Owned L)
    (held : weightAt Phase.transferred s.phases i + weightAt Phase.disposed s.phases i = 0 ∨
      0 < s.shared.stagedOf L i + s.custody.carries i) (party : Party) :
    Act.released party i ∉ s.shared.log := by
  have given := inv.given i
  have kept := inv.kept i
  have once := weightAt_le s.phases i
  rw [← List.count_eq_zero]
  cases party <;> omega

theorem Moves.log (move : Moves d i s.shared ph sh' ph') :
    (sh'.log = s.shared.log ∧ ph'.disposed = ph.disposed) ∨
    ∃ act, sh'.log = s.shared.log ++ [act] ∧ act.sub = i ∧
      ph.transferred + ph.disposed = 0 ∧ (∀ j, act ≠ .released .dispatcher j) ∧
      ph'.disposed = if act = .released .call i then 1 else 0 := by
  cases move with
  | refuse | gc | gcDirect => exact .inr ⟨_, rfl, rfl, rfl, by simp, (if_pos rfl).symm⟩
  | read | take | work | publish =>
    exact .inr ⟨_, rfl, rfl, rfl, by simp, rfl⟩
  | depart queued | signalLast queued => cases queued <;> exact .inl ⟨rfl, rfl⟩
  | _ => exact .inl ⟨rfl, rfl⟩

theorem Moves.stagedOf (queues : s.QueuesOk L) (found : s.phases[i]? = some ph)
    (move : Moves d i s.shared ph sh' ph') (j : Nat) :
    sh'.stagedOf L j + (if j = i then ph.transferred else 0) =
      s.shared.stagedOf L j + (if j = i then ph'.transferred else 0) := by
  cases move with
  | pushNext _ _ _ _ ran =>
    obtain ⟨ok, under⟩ := queues.pushing found
    rw [stagedOf_same j (staged_same (L.push_next ok under ran).2)]
    rfl
  | pushFail _ _ _ ran =>
    obtain ⟨ok, under⟩ := queues.pushing found
    rw [stagedOf_same j (staged_same (L.push_fail ok under ran).2)]
    rfl
  | publish b _ q sub ran =>
    obtain ⟨ok, under⟩ := queues.pushing found
    have added := stagedOf_cons j (staged_cons (L.push_done ok under ran).2)
    have recorded : ((s.shared.setQueue (d.partition b.ao) q).record (.published b.ao i)).stagedOf
      L j = (s.shared.setQueue (d.partition b.ao) q).stagedOf L j := rfl
    rw [recorded, added, sub]
    by_cases same : j = i
    · simp [same, Phase.transferred]
    · simp [same, Ne.symm same]
  | depart queued => cases queued <;> rfl
  | signalLast queued => cases queued <;> rfl
  | _ => rfl

theorem Moves.owned (inv : s.Owned L) (found : s.phases[i]? = some ph)
    (move : Moves d i s.shared ph sh' ph') :
    Pipe.Owned L { s with shared := sh', phases := s.phases.set i ph' } := by
  have moved := move.stagedOf inv.queues found
  have at_i := weightAt_found (w := Phase.transferred) found
  have at_i' := weightAt_found (w := Phase.disposed) found
  rcases move.log with ⟨same, disposed⟩ | ⟨act, log, sub, owns, notDispatcher, disposed⟩
  · constructor
    case queues => exact move.queuesOk inv.queues found
    case given =>
      intro j
      have before := inv.given j
      have change := moved j
      rw [weightAt_set found, same]
      split at change
      · rename_i here
        subst here
        simp only [if_true] at change ⊢
        omega
      · rename_i away
        simp only [if_neg away] at change ⊢
        omega
    case kept =>
      intro j
      have before := inv.kept j
      rw [weightAt_set found, same]
      split
      · rename_i here
        subst here
        omega
      · exact before
    case taken =>
      dsimp only; rw [same]; exact inv.taken
    case clean =>
      dsimp only; rw [same]; exact inv.clean
  · subst sub
    constructor
    case queues => exact move.queuesOk inv.queues found
    case given =>
      intro j
      have before := inv.given j
      have change := moved j
      have none : [act].count (.released .dispatcher j) = 0 := by
        simp [notDispatcher j]
      rw [weightAt_set found, log, List.count_append, none]
      split at change
      · rename_i here
        subst here
        simp only [if_true] at change ⊢
        omega
      · rename_i away
        simp only [if_neg away] at change ⊢
        omega
    case kept =>
      intro j
      have before := inv.kept j
      rw [weightAt_set found, log, List.count_append, List.count_singleton]
      by_cases here : j = act.sub
      · subst here
        simp only [if_true, beq_iff_eq]
        omega
      · have other : act ≠ .released .call j := fun eq => here (by rw [eq]; rfl)
        simp only [if_neg here, beq_iff_eq, other, if_false]
        omega
    case taken =>
      intro j carried
      rw [log]
      exact List.mem_append_left _ (inv.taken j carried)
    case clean =>
      rw [log]
      exact inv.clean.append fun party => inv.unreleased (.inl (by omega)) party

variable {cu' : Custody d B} {m' : Mode B}

theorem Serves.log (queues : s.QueuesOk L) (move : Serves d s.shared s.custody s.mode sh' cu' m') :
    sh'.log = s.shared.log ∨ ∃ act, sh'.log = s.shared.log ++ [act] ∧
      (∀ j, act ≠ .released .call j) ∧
      0 < s.shared.stagedOf L act.sub + s.custody.carries act.sub ∧
      ∀ j, act = .released .dispatcher j → 0 < s.custody.carries j := by
  obtain ⟨sh, phases, cu, m, stoppers⟩ := s
  cases move with
  | popSome m p r q v ran =>
    have ok := queues p
    simp only [pop, if_true] at ok
    have taken := stagedOf_cons v.sub (staged_uncons (L.pop_some ok ran).2)
    refine .inr ⟨_, rfl, by simp, ?_, by simp⟩
    simp only [Act.sub]
    rw [if_pos rfl] at taken
    omega
  | take | work | discard =>
    exact .inr ⟨_, rfl, by simp, by simp [Act.sub, carries], by simp⟩
  | release | releaseUnbound =>
    exact .inr ⟨_, rfl, by simp, by simp [Act.sub, carries], by simp [carries]⟩
  | _ => exact .inl rfl

theorem Serves.given (queues : s.QueuesOk L) (move : Serves d s.shared s.custody s.mode sh' cu' m')
    (j : Nat) : sh'.stagedOf L j + cu'.carries j + sh'.log.count (.released .dispatcher j) =
      s.shared.stagedOf L j + s.custody.carries j +
        s.shared.log.count (.released .dispatcher j) := by
  obtain ⟨sh, phases, cu, m, stoppers⟩ := s
  have recorded : ∀ (sh : Shared B H) (act : Act), (sh.record act).stagedOf L j =
      sh.stagedOf L j := fun _ _ => rfl
  have released : ∀ (i : Nat), [Act.released .dispatcher i].count (.released .dispatcher j) =
      if i = j then 1 else 0 := by
    intro i
    rw [List.count_singleton]
    simp
  cases move with
  | popNext _ p _ _ _ ran =>
    have ok := queues p
    simp only [pop, if_true] at ok
    rw [stagedOf_same j (staged_same (L.pop_next ok ran).2)]
    rfl
  | popNone _ p _ _ ran =>
    have ok := queues p
    simp only [pop, if_true] at ok
    rw [stagedOf_same j (staged_same (L.pop_none ok ran).2)]
    rfl
  | popSome _ p _ _ _ ran =>
    have ok := queues p
    simp only [pop, if_true] at ok
    have taken := stagedOf_cons j (staged_uncons (L.pop_some ok ran).2)
    rw [recorded, taken]
    simp only [Shared.record_log, Shared.setQueue_log, List.count_append, carries,
      List.count_singleton]
    simp
  | take | work | discard =>
    simp [Shared.record_log, List.count_append, carries, recorded]; rfl
  | release v m n t enabled | releaseUnbound v m n t enabled unbound =>
    have same : ((sh.record (.released .dispatcher v.sub)).own sh.claims sh.breaker n t).stagedOf
      L j = sh.stagedOf L j := rfl
    rw [same]
    simp only [Shared.own, Shared.record_log, List.count_append, carries, released]
    omega
  | _ => rfl

theorem Serves.taken (move : Serves d s.shared s.custody s.mode sh' cu' m') (j : Nat)
    (carried : 0 < cu'.carries j) : 0 < s.custody.carries j ∨ .dequeued j ∈ sh'.log := by
  obtain ⟨sh, phases, cu, m, stoppers⟩ := s
  cases move with
  | popSome m p r q v ran =>
    right
    simp only [carries] at carried
    split at carried
    · rename_i same
      simp [same]
    · omega
  | _ => first | exact .inl carried | simp [carries] at carried

theorem Serves.owned (inv : s.Owned L) (move : Serves d s.shared s.custody s.mode sh' cu' m') :
    Pipe.Owned L { s with shared := sh', custody := cu', mode := m' } := by
  have given : ∀ j, weightAt Phase.transferred s.phases j = sh'.stagedOf L j +
      cu'.carries j + sh'.log.count (.released .dispatcher j) := fun j =>
    (inv.given j).trans (move.given inv.queues j).symm
  rcases move.log inv.queues with same | ⟨act, log, notCall, held, carried⟩
  · constructor
    case queues => exact move.queuesOk inv.queues
    case given => exact given
    case kept =>
      intro j
      dsimp only; rw [same]; exact inv.kept j
    case taken =>
      intro j carried
      rcases move.taken j carried with earlier | now
      · dsimp only; rw [same]; exact inv.taken j earlier
      · exact now
    case clean =>
      dsimp only; rw [same]; exact inv.clean
  · constructor
    case queues => exact move.queuesOk inv.queues
    case given => exact given
    case kept =>
      intro j
      have none : [act].count (.released .call j) = 0 := by
        simp [notCall j]
      rw [log, List.count_append, none]
      exact inv.kept j
    case taken =>
      intro j carried
      rcases move.taken j carried with earlier | now
      · dsimp only; rw [log]; exact List.mem_append_left _ (inv.taken j earlier)
      · exact now
    case clean =>
      rw [log]
      exact inv.clean.append (inv.unreleased (.inr held))

theorem Pipe.Owned.step (inv : s.Owned L) (ran : Pipe.Step s t) : t.Owned L := by
  have queues := inv.queues.step ran
  cases ran with
  | enter =>
    refine ⟨queues, fun i => ?_, fun i => ?_, inv.taken, inv.clean⟩
    · exact (weightAt_append (w := Phase.transferred) rfl).trans (inv.given i)
    · exact (weightAt_append (w := Phase.disposed) rfl).trans (inv.kept i)
  | submission _ _ _ _ found move => exact move.owned inv found
  | service _ _ _ move => exact move.owned inv
  | _ => exact ⟨queues, inv.given, inv.kept, inv.taken, inv.clean⟩

end

theorem Pipe.owned_initial (L : B.Lawful) (hsm : AoId → H) : (Pipe.initial d B hsm).Owned L where
  queues := Pipe.queuesOk_initial L hsm
  given i := by
    have empty : (Pipe.initial d B hsm).shared.staged L = 0 := by
      simp [Shared.staged, Pipe.initial, Shared.initial, L.resident_empty]
    rw [Shared.stagedOf, empty]
    rfl
  kept _ := rfl
  taken _ carried := absurd carried (Nat.lt_irrefl 0)
  clean before party i after split := by
    have long := congrArg List.length split
    simp [Pipe.initial, Shared.initial] at long

theorem Reachable.owned (L : B.Lawful) {hsm : AoId → H}
    (run : Reachable hsm s) : s.pipe.Owned L :=
  run.pipe_invariant (Pipe.owned_initial L hsm) Pipe.Owned.step

section
variable {L : B.Lawful} {s t : Sys d B H} {i : Nat}

theorem count_grows {log : List Act} {act released : Act}
    (grew : log.count released < (log ++ [act]).count released) : act = released := by
  by_contra other
  rw [List.count_append, List.count_singleton, if_neg (by simpa using other)] at grew
  omega

/-- Who releases a reference: the submission itself, or the Dispatcher for a
slot it has dequeued. -/
theorem Pipe.Owned.releaser (inv : s.pipe.Owned L) (ran : Sys.step label s = .ok t)
    (grew : s.shared.log.count (.released party i) < t.shared.log.count (.released party i)) :
    (party = .call ∧ ∃ o, label = .call i o) ∨
      (party = .dispatcher ∧ (∃ o, label = .dispatcher o) ∧ .dequeued i ∈ s.shared.log) := by
  have still {log : List Act} (same : log = s.shared.log)
      (grew : s.shared.log.count (.released party i) < log.count (.released party i)) :
      ∀ {P : Prop}, P := by
    rw [same] at grew
    exact absurd grew (Nat.lt_irrefl _)
  cases label with
  | submit =>
    obtain ⟨-, rfl⟩ := Sys.step_submit ran
    exact still rfl grew
  | call j o =>
    obtain ⟨c, sh', c', -, -, moved, rfl⟩ := Sys.step_call ran
    rcases Moves.log (s := s.pipe) (Call.step_moves moved) with
      ⟨same, _⟩ | ⟨act, log, sub, _, notDispatcher, _⟩
    · exact still same grew
    · rw [log] at grew
      obtain rfl := count_grows grew
      obtain rfl : i = j := sub
      cases party with
      | call => exact .inl ⟨rfl, o, rfl⟩
      | dispatcher => exact absurd rfl (notDispatcher i)
  | dispatcher o =>
    obtain ⟨sh', pc, -, moved, rfl⟩ := Sys.step_dispatcher ran
    rcases Serves.log (s := s.pipe) inv.queues (Dispatch.Pc.step_serves moved) with
      same | ⟨act, log, notCall, _, carried⟩
    · exact still same grew
    · rw [log] at grew
      obtain rfl := count_grows grew
      cases party with
      | call => exact absurd rfl (notCall i)
      | dispatcher => exact .inr ⟨rfl, ⟨o, rfl⟩, inv.taken i (carried i rfl)⟩
  | requestStop | breaker => cases ran; exact still rfl grew
  | stopper =>
    obtain ⟨stopper, sh', stopper', -, moved, rfl⟩ := Sys.step_stopper ran
    cases stopper <;> cases moved <;> exact still rfl grew

theorem Pipe.Owned.released_once (inv : s.pipe.Owned L) (i : Nat) :
    s.shared.log.count (.released .call i) + s.shared.log.count (.released .dispatcher i) ≤ 1 := by
  have given := inv.given i
  have kept := inv.kept i
  have once := weightAt_le s.pipe.phases i
  have same : s.pipe.shared.log = s.shared.log := rfl
  rw [same] at given kept
  omega

theorem Pipe.Owned.released_by_call (inv : s.pipe.Owned L) {args : Args}
    (found : s.calls[i]? = some (.done args r)) :
    .released .call i ∈ s.shared.log ↔ r.disposition ≠ .Queued := by
  have there : s.pipe.phases[i]? = some (.left r.queued false) := by
    simp only [Sys.pipe, List.getElem?_mapIdx, found]
    rfl
  have kept := inv.kept i
  rw [weightAt_found there] at kept
  have same : s.pipe.shared.log = s.shared.log := rfl
  rw [same] at kept
  rw [← List.count_pos_iff, ← kept]
  by_cases queued : r.disposition = .Queued
  · simp [Phase.disposed, SubmitResult.queued, queued]
  · simp [Phase.disposed, SubmitResult.queued, queued]

end

/-- Every submission's reference is released at most once, by the submission or
by the Dispatcher after it dequeued the slot; by the submission exactly when it
does not return Queued; and no access to the event follows the release. -/
theorem reference_conservation (k : QueueBackend) {hsm : AoId → H}
    {s : Sys d (k.impl StagingSlot) H} (run : Reachable hsm s) :
    (∀ i, s.shared.log.count (.released .call i) +
      s.shared.log.count (.released .dispatcher i) ≤ 1) ∧
    (∀ label t party i, Sys.step label s = .ok t →
      s.shared.log.count (.released party i) < t.shared.log.count (.released party i) →
      (party = .call ∧ ∃ o, label = .call i o) ∨
        (party = .dispatcher ∧ (∃ o, label = .dispatcher o) ∧ .dequeued i ∈ s.shared.log)) ∧
    (∀ i args r, s.calls[i]? = some (.done args r) →
      (.released .call i ∈ s.shared.log ↔ r.disposition ≠ .Queued)) ∧
    (∀ before party i after, s.shared.log = before ++ .released party i :: after →
      ∀ act ∈ after, act.sub ≠ i) := by
  have inv := run.owned (k.laws StagingSlot)
  exact ⟨inv.released_once, fun label t party i => inv.releaser,
    fun i args r => inv.released_by_call, inv.clean⟩

/-- An ISR submission, queued, dispatched and released by the Dispatcher. -/
def queuedSchedule : List (Label Nat) :=
  Label.submit { target := ⟨1⟩, event := 7, fromIsr := true } ::
    List.replicate 9 (Label.call 0 {}) ++
    List.replicate 23 (Label.dispatcher {})

def queuedState : Sys singleAo (QueueBackend.SingleCoreCriticalRing.impl StagingSlot) Nat :=
  runOf singleAo _ (fun _ => 0) queuedSchedule

theorem reference_conservation_queued :
    Reachable (fun _ => 0) queuedState ∧ .released .dispatcher 0 ∈ queuedState.shared.log ∧
      .released .call 0 ∉ queuedState.shared.log := by
  have run : Reachable (fun _ => 0) queuedState := reachable_runOf (by decide +kernel)
  have conserved := reference_conservation .SingleCoreCriticalRing run
  refine ⟨run, by decide +kernel, fun mem => ?_⟩
  exact (conserved.2.2.1 0 _ _ rfl).mp mem rfl

end Coact
