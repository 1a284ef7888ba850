import Coact.Queue.Occupancy
import Coact.Staging.Moves

/-! The cells of the partitions on the `BoundedMpscQueue` backend: each occupied cell
is resident or being written. `push_impl` looks for a cell one at a time, and the
cells it has passed stay occupied as long as the consumer frees none of them. -/
namespace Coact.Staging
open Foundation Mpsc Function

/-- The SMP backend. -/
abbrev Smp : Backend StagingSlot := mpscBackend StagingSlot

variable {cfg : Config}

/-- One if the call is writing a cell of partition `p`. -/
def Call.writing (p : Partition) : Call Smp → Nat
  | .running r (.push x) => if r.part = p then Push.writing x else 0
  | _ => 0

namespace World
variable {w : World Smp} {l : Label}

def partition (w : World Smp) (p : Partition) : Mpsc StagingSlot := w.stage.queue p

def resident (w : World Smp) (p : Partition) : Multiset StagingSlot := (w.partition p).resident

/-- The consumer does not free a cell that a push under way in the same partition
has passed. -/
def Clear (l : Label) (w : World Smp) : Prop :=
  l = .consumer → ∀ p k out, w.dequeue = some (.pop p (.free k out)) →
    ∀ (i : Nat) (r : Request) (start offset : Nat),
      w.calls[i]? = some (.running r (.push (.cas start offset))) → r.part = p →
        ∀ o < offset, (w.partition p).probed start o ≠ k

/-- What is known about the cells: each occupied one is resident or being written,
and those a push has passed are occupied. -/
structure Watched (w : World Smp) : Prop where
  occupancy : ∀ p, tally occupied (w.partition p).cells =
    Multiset.card (w.resident p) + tally (Call.writing p) w.calls
  passed : ∀ (i : Nat) (r : Request) (x : Push),
    w.calls[i]? = some (.running r (.push x)) → Passed (w.partition r.part) x

variable {before after : Call Smp} {stage : Stage Smp}

theorem Watched.quiet (watched : Watched w) (found : w.calls[i]? = some before)
    (queue : stage.queue = w.stage.queue) (writing : ∀ p, after.writing p = before.writing p)
    (passed : ∀ r x, after = .running r (.push x) → x = .probe) :
    Watched (w.called i (stage, after)) := by
  have same (p : Partition) : (w.called i (stage, after)).partition p = w.partition p :=
    congrFun queue p
  constructor
  case occupancy =>
    intro p
    have exchanged := tally_set (w := Call.writing p) found after
    rw [writing p] at exchanged
    rw [resident, same, watched.occupancy p]
    exact congrArg (_ + ·) (Nat.add_right_cancel exchanged).symm
  case passed =>
    intro j r x there
    rw [same]
    rcases getElem?_of_set there with new | old
    · rw [passed r x new.symm]
      trivial
    · exact watched.passed j r x old

theorem Watched.idle (watched : Watched w) {dequeue : Option (Dequeue Smp)}
    {served : List StagingSlot} (queue : stage.queue = w.stage.queue) :
    Watched ⟨stage, w.calls, dequeue, served⟩ := by
  have same (p : Partition) :
      partition ⟨stage, w.calls, dequeue, served⟩ p = w.partition p := congrFun queue p
  constructor
  case occupancy =>
    intro p
    rw [resident, same]
    exact watched.occupancy p
  case passed =>
    intro j r x there
    rw [same]
    exact watched.passed j r x there

theorem Watched.enter (watched : Watched w) :
    Watched { w with calls := w.calls ++ [Call.enter Smp cfg r] } := by
  have start (r' : Request) (x : Push)
      (same : (.running r' (.push x) : Call Smp) = Call.enter Smp cfg r) : x = .probe := by
    rw [Call.enter] at same
    split at same
    · split at same <;> cases same
      rfl
    · cases same
  have light (p : Partition) : Call.writing p (Call.enter Smp cfg r) = 0 := by
    rw [Call.enter]
    split
    · split
      · exact ite_self 0
      · rfl
    · rfl
  constructor
  case occupancy =>
    intro p
    have before := watched.occupancy p
    rw [tally_append, tally_cons, tally_nil, light]
    exact before
  case passed =>
    intro j r' x there
    rcases getElem?_of_append there with ⟨new, -⟩ | old
    · rw [start r' x new]
      trivial
    · exact watched.passed j r' x old

theorem Watched.pushed (watched : Watched w) (ok : QueuesOk (mpscLawful StagingSlot) cfg w)
    {out : Push ⊕ Bool} (found : w.calls[i]? = some (.running r (.push x)))
    (moved : pushStep (r.slot cfg i) (w.partition r.part) x = (q, out))
    (writing : ∀ p, after.writing p = if r.part = p then writingNext out else 0)
    (passed : ∀ r' x', after = .running r' (.push x') → r' = r ∧ out = .inl x') :
    Watched (w.called i (w.stage.setQueue r.part q, after)) := by
  obtain ⟨inv, under⟩ := ok.pushing found
  have at_part : (w.called i (w.stage.setQueue r.part q, after)).partition r.part = q :=
    update_self ..
  have elsewhere {p : Partition} (other : p ≠ r.part) :
      (w.called i (w.stage.setQueue r.part q, after)).partition p = w.partition p :=
    update_of_ne other ..
  constructor
  case occupancy =>
    intro p
    have before := watched.occupancy p
    have exchanged := tally_set (w := Call.writing p) found after
    have mine : Call.writing p (.running r (.push x) : Call Smp) =
      if r.part = p then x.writing else 0 := rfl
    rw [writing p, mine] at exchanged
    change _ = _ + tally (Call.writing p) (w.calls.set i after)
    by_cases here : p = r.part
    · subst here
      have grown := (Inv.pushStep inv under moved).2
      have cells := pushStep_occupied inv under moved
      rw [if_pos rfl, if_pos rfl] at exchanged
      rw [resident, at_part, grown, Multiset.card_add]
      change tally occupied (w.partition r.part).cells = Multiset.card
        (w.partition r.part).resident + _ at before
      change tally occupied q.cells = _ + Multiset.card (w.partition r.part).resident + _
      change _ = tally occupied (w.partition r.part).cells + _ + _ at cells
      omega
    · rw [if_neg (Ne.symm here), if_neg (Ne.symm here)] at exchanged
      rw [resident, elsewhere here, before]
      exact congrArg (_ + ·) (Nat.add_right_cancel exchanged).symm
  case passed =>
    intro j r' x' there
    rcases getElem?_of_set there with new | old
    · obtain ⟨rfl, ended⟩ := passed r' x' new.symm
      rw [at_part]
      exact (watched.passed i r' x found).next (ended ▸ moved)
    · have known := watched.passed j r' x' old
      by_cases here : r'.part = r.part
      · rw [here] at known ⊢
        have kept : Passed (pushStep (r.slot cfg i) (w.partition r.part) x).1 x' :=
          known.other
        rw [moved] at kept
        rw [at_part]
        exact kept
      · rw [elsewhere here]
        exact known

theorem Watched.popped (watched : Watched w) (ok : QueuesOk (mpscLawful StagingSlot) cfg w)
    (clear : Clear .consumer w) {out : Pop StagingSlot ⊕ Option StagingSlot} {next : Outcome Smp}
    (busy : w.dequeue = some (.pop p x)) (moved : popStep (w.partition p) x = (q, out)) :
    Watched (w.consumed (w.stage.setQueue p q, next)) := by
  have inv := ok.popping busy
  have at_part : (w.consumed (w.stage.setQueue p q, next)).partition p = q :=
    update_self ..
  have elsewhere {p' : Partition} (other : p' ≠ p) :
      (w.consumed (w.stage.setQueue p q, next)).partition p' = w.partition p' :=
    update_of_ne other ..
  constructor
  case occupancy =>
    intro p'
    have before := watched.occupancy p'
    change _ = _ + tally (Call.writing p') w.calls
    by_cases here : p' = p
    · subst here
      have taken : (w.partition p').resident = popTakes out + q.resident :=
        (Inv.popStep inv moved).2
      have cells : tally occupied (w.partition p').cells =
        tally occupied q.cells + Multiset.card (popTakes out) :=
          popStep_occupied inv moved
      rw [resident, taken, Multiset.card_add] at before
      rw [resident, at_part]
      omega
    · rw [resident, elsewhere here]
      exact before
  case passed =>
    intro j r x' there
    have known := watched.passed j r x' there
    by_cases here : r.part = p
    · rw [here] at known ⊢
      have kept : Passed (popStep (w.partition p) x).1 x' := by
        refine known.pop ?_
        rintro start offset k out rfl rfl
        exact clear rfl p k out busy j r start offset there here
      rw [moved] at kept
      rw [at_part]
      exact kept
    · rw [elsewhere here]
      exact known

theorem Watched.step (watched : Watched w) (ok : QueuesOk (mpscLawful StagingSlot) cfg w)
    (clear : Clear l w) (move : Moves cfg w l w') : Watched w' := by
  cases move with
  | enter => exact watched.enter
  | wait _ r pc pc' _ found claiming claiming' =>
    refine watched.quiet found rfl (fun p => ?_) fun r x same => ?_
    · cases pc with
      | push => exact claiming.elim
      | releaseClaim => exact claiming.elim
      | _ =>
        cases pc' with
        | push => exact claiming'.elim
        | _ => rfl
    · cases same
      exact claiming'.elim
  | refuse _ r _ _ found | rollback _ r _ found =>
    exact watched.quiet found rfl (fun _ => rfl) fun r x never => by cases never
  | claim _ r _ _ found =>
    refine watched.quiet found rfl (fun p => ite_self 0) fun r x same => ?_
    cases same
    rfl
  | pushNext _ _ _ _ _ _ found moved =>
    refine watched.pushed ok found moved (fun _ => rfl) fun r' x'' same => ?_
    cases same
    exact ⟨rfl, rfl⟩
  | pushFail _ r _ _ _ found moved =>
    refine watched.pushed ok found moved (fun p => ?_) fun r' x' same => ?_
    · have ended : Call.writing p (if r.claim cfg = .None then .returned r false
          else .running r .releaseClaim) = 0 := by
        split <;> rfl
      exact ended.trans (ite_self 0).symm
    · split at same <;> cases same
  | publish _ _ _ _ _ found moved =>
    exact watched.pushed ok found moved (fun p => (ite_self 0).symm) fun r' x' never => by cases never
  | observe | popStart => exact watched.idle rfl
  | popNext _ _ _ _ busy moved | popNone _ _ _ busy moved | popSome _ _ _ _ busy moved =>
    exact watched.popped ok clear busy moved
  | serve v => exact watched.idle (Stage.release_queue w.stage v)

theorem watched_initial (cfg : Config) : Watched (initial Smp cfg) := by
  constructor
  case occupancy =>
    intro p
    have empty : (initial Smp cfg).resident p = 0 :=
      (mpscLawful StagingSlot).resident_empty _ (cfg.capacity_pos p)
    rw [empty]
    refine tally_zero fun cell mem => ?_
    rw [List.eq_of_mem_replicate mem]
    rfl
  case passed =>
    intro i r x never
    cases never

end World

end Coact.Staging
