import Coact.Staging.Claims
import Coact.Staging.Occupancy

/-! Reservations on the `BoundedMpscQueue` backend. The claim counters leave a cell
for every claim holder, but a cell that the consumer frees after a push has passed it
may be all that was left. As long as the consumer frees no cell that a push under way
has passed, a claim is as good as a cell. -/
namespace Coact.Staging
open Foundation
variable {cfg : Config}

/-- One if the call is writing a critical High slot. -/
def Call.criticalHigh : Call Smp → Nat
  | .running r (.push x) => if r.part = .High ∧ r.critical = true then Mpsc.Push.writing x else 0
  | _ => 0

namespace World
variable {w w' : World Smp} {l : Label}

section
variable {i : Nat} {r : Request} {x : Mpsc.Push} {q : Mpsc StagingSlot}

/-- The critical High slots that are resident or being written. -/
def criticalHigh (w : World Smp) : Nat :=
  (w.resident .High).countP (fun v => w.ordinary v = false) + tally Call.criticalHigh w.calls

theorem writing_le (x : Mpsc.Push) : x.writing ≤ 1 := by
  cases x <;> simp [Mpsc.Push.writing]

theorem writing_failed {q q' : Mpsc StagingSlot}
    (failed : Mpsc.pushStep v q x = (q', .inr false)) : x.writing = 0 := by
  cases x with
  | probe | cas => rfl
  | _ => cases failed

theorem Watched.full (watched : Watched w) (kept : Kept (mpscBounded StagingSlot) cfg w)
    (found : w.calls[i]? = some (.running r (.push x)))
    (failed : Mpsc.pushStep (r.slot cfg i) (w.partition r.part) x = (q, .inr false))
    (divides : cfg.capacity r.part ∣ 2 ^ 32) :
    Multiset.card (w.resident r.part) + tally (Call.writing r.part) w.calls =
      cfg.capacity r.part := by
  have length : (w.partition r.part).cells.length = cfg.capacity r.part := kept.sized r.part
  rw [← watched.occupancy, ← length]
  exact (watched.passed i r x found).full failed (length ▸ divides)

theorem claim_normal (reserves : cfg.kNormalReservedCapacity ≠ 0) (part : r.part = .Normal) :
    r.claim cfg = .NormalOrdinary ∨ r.claim cfg = .NormalReserved := by
  obtain ⟨target, event, cls, nowNs, critical, admission⟩ := r
  cases cls with
  | Normal => cases admission <;> simp [Request.claim, classifyClaim, reserves]
  | High | Low => cases part

theorem card_normal_le (kept : Kept (mpscBounded StagingSlot) cfg w)
    (reserves : cfg.kNormalReservedCapacity ≠ 0) :
    Multiset.card (w.resident .Normal) ≤
      w.stage.carrying (mpscLawful StagingSlot) .NormalOrdinary +
        w.stage.carrying (mpscLawful StagingSlot) .NormalReserved := by
  have carried (c : ReservationClaim) : (w.resident .Normal).countP (fun v => v.claim = c) ≤
    w.stage.carrying (mpscLawful StagingSlot) c :=
      carrying_part (L := mpscLawful StagingSlot) w.stage .Normal c
  have covered : Multiset.card (w.resident .Normal) ≤
      (w.resident .Normal).countP (fun v => v.claim = .NormalOrdinary) +
        (w.resident .Normal).countP (fun v => v.claim = .NormalReserved) := by
    refine card_le_countP fun v mem => ?_
    obtain ⟨r', -, same, part'⟩ := kept.genuine.resident .Normal v mem
    rw [same]
    exact claim_normal reserves part'
  exact covered.trans (Nat.add_le_add (carried .NormalOrdinary) (carried .NormalReserved))

theorem held_normal (reserves : cfg.kNormalReservedCapacity ≠ 0) (part : r.part = .Normal)
    (x : Mpsc.Push) :
    Call.held cfg .NormalOrdinary (.running r (.push x) : Call Smp) +
      Call.held cfg .NormalReserved (.running r (.push x) : Call Smp) = 1 := by
  rcases claim_normal reserves part with claim | claim <;> simp [Call.held, claim]

theorem writing_le_held (reserves : cfg.kNormalReservedCapacity ≠ 0) (call : Call Smp) :
    call.writing .Normal ≤ call.held cfg .NormalOrdinary + call.held cfg .NormalReserved := by
  cases call with
  | returned => exact Nat.zero_le _
  | running r pc =>
    cases pc with
    | push x =>
      by_cases here : r.part = .Normal
      · rw [held_normal reserves here x, Call.writing, if_pos here]
        exact writing_le x
      · rw [Call.writing, if_neg here]
        exact Nat.zero_le _
    | _ => exact Nat.zero_le _

theorem Watched.normal_succeeds (watched : Watched w) (kept : Kept (mpscBounded StagingSlot) cfg w)
    (divides : cfg.kNormalCapacity ∣ 2 ^ 32) (reserves : cfg.kNormalReservedCapacity ≠ 0)
    (part : r.part = .Normal) (found : w.calls[i]? = some (.running r (.push x)))
    (failed : Mpsc.pushStep (r.slot cfg i) (w.partition r.part) x = (q, .inr false)) : False := by
  have full := watched.full kept found failed (part ▸ divides)
  rw [part] at full
  have slots := card_normal_le kept reserves
  -- The push that fails holds a claim without having a cell.
  have pushes : tally (Call.writing .Normal) w.calls <
      tally (Call.held cfg .NormalOrdinary) w.calls +
        tally (Call.held cfg .NormalReserved) w.calls := by
    rw [tally, tally, tally, ← List.sum_map_add]
    refine List.sum_lt_sum _ _ (fun call _ => writing_le_held reserves call)
      ⟨_, List.mem_of_getElem? found, ?_⟩
    have idle : Call.writing .Normal (.running r (.push x) : Call Smp) = 0 :=
      (if_pos part).trans (writing_failed failed)
    rw [held_normal reserves part x, idle]
    exact Nat.one_pos
  have ordinary := kept.books.balance .NormalOrdinary (by simp)
  have reserved := kept.books.balance .NormalReserved (by simp)
  have ordinaryLimit : _ ≤ cfg.kNormalCapacity - cfg.kNormalReservedCapacity :=
    kept.books.bounded .NormalOrdinary (by simp)
  have reservedLimit : _ ≤ cfg.kNormalReservedCapacity :=
    kept.books.bounded .NormalReserved (by simp)
  have fits := cfg.normal_reserve
  have capacity : cfg.capacity .Normal = cfg.kNormalCapacity := rfl
  omega

theorem writing_high_le (reserves : cfg.kHighCriticalReserve ≠ 0) (call : Call Smp) :
    call.writing .High ≤ call.held cfg .HighOrdinary + call.criticalHigh := by
  cases call with
  | returned => exact Nat.zero_le _
  | running r pc =>
    cases pc with
    | push x =>
      by_cases here : r.part = .High
      · rw [Call.writing, if_pos here]
        by_cases critical : r.critical = true
        · rw [Call.criticalHigh, if_pos ⟨here, critical⟩]
          exact Nat.le_add_left _ _
        · have plain : r.ordinary = true := by
            obtain ⟨target, event, cls, nowNs, critical', admission⟩ := r
            cases cls with
            | High => simpa [Request.ordinary] using critical
            | Normal | Low => cases here
          rw [Call.held, if_pos (high_claim reserves r here plain)]
          exact (writing_le x).trans (Nat.le_add_right _ _)
      · rw [Call.writing, if_neg here]
        exact Nat.zero_le _
    | _ => exact Nat.zero_le _

theorem Watched.reserve_used (watched : Watched w) (kept : Kept (mpscBounded StagingSlot) cfg w)
    (divides : cfg.kHighCapacity ∣ 2 ^ 32) (part : r.part = .High)
    (found : w.calls[i]? = some (.running r (.push x)))
    (failed : Mpsc.pushStep (r.slot cfg i) (w.partition r.part) x = (q, .inr false)) :
    cfg.kHighCriticalReserve ≤ w.criticalHigh := by
  by_cases reserves : cfg.kHighCriticalReserve = 0
  · rw [reserves]
    exact Nat.zero_le _
  have full := watched.full kept found failed (part ▸ divides)
  rw [part] at full
  have slots : Multiset.card (w.resident .High) ≤
      (w.resident .High).countP (fun v => w.ordinary v = true) +
        (w.resident .High).countP (fun v => w.ordinary v = false) :=
    card_le_countP fun v _ => Bool.eq_false_or_eq_true (w.ordinary v)
  have carried : (w.resident .High).countP (fun v => w.ordinary v = true) ≤ _ :=
    kept.ordinary_carried (high_claim reserves)
  have pushes : tally (Call.writing .High) w.calls ≤
      tally (Call.held cfg .HighOrdinary) w.calls + tally Call.criticalHigh w.calls := by
    rw [tally, tally, tally, ← List.sum_map_add]
    exact List.sum_le_sum fun call _ => writing_high_le reserves call
  have ordinary := kept.books.balance .HighOrdinary (by simp)
  have limit : _ ≤ cfg.kHighCapacity - cfg.kHighCriticalReserve :=
    kept.books.bounded .HighOrdinary (by simp)
  have fits := cfg.high_reserve
  have capacity : cfg.capacity .High = cfg.kHighCapacity := rfl
  rw [criticalHigh]
  omega

end

section

/-- What a reservation is worth. A reserved call that fails has read a counter at its
limit, and the counter had that value at the moment of its previous access. -/
structure Reserved (cfg : Config) (w : World Smp) : Prop where
  holders : cfg.kNormalReservedCapacity ≠ 0 → ∀ (i : Nat) (r : Request), r.cls = .Normal →
    w.calls[i]? ≠ some (.running r .releaseClaim)
  refused : ∀ (i : Nat) (b : Bool) (w' : World Smp) (r : Request) (pc : Enqueue Smp),
    r.claim cfg = .NormalReserved → w.calls[i]? = some (.running r pc) →
    step cfg (.call i b) w = .ok w' → w'.calls[i]? = some (.returned r false) →
      ∃ observed, pc = .claimCas observed ∧ cfg.kNormalReservedCapacity ≤ observed
  observed : ∀ (i : Nat) (b : Bool) (w' : World Smp) (r : Request) (pc : Enqueue Smp)
    (observed : Nat), r.claim cfg = .NormalReserved → w.calls[i]? = some (.running r pc) →
    step cfg (.call i b) w = .ok w' → w'.calls[i]? = some (.running r (.claimCas observed)) →
      observed = w.stage.claims .NormalReserved
  critical : ∀ (i : Nat) (b : Bool) (w' : World Smp) (r : Request) (pc : Enqueue Smp),
    r.cls = .High → r.critical = true → w.calls[i]? = some (.running r pc) →
    step cfg (.call i b) w = .ok w' → w'.calls[i]? = some (.returned r false) →
      cfg.kHighCriticalReserve ≤ w.criticalHigh

variable {i : Nat} {b : Bool} {r : Request} {pc : Enqueue Smp}

theorem step_call (found : w.calls[i]? = some (.running r pc))
    (ran : step cfg (.call i b) w = .ok w') :
    ∃ out, pc.step cfg r i b w.stage = .ok out ∧ w'.calls[i]? = some out.2 := by
  simp only [step, found] at ran
  obtain ⟨out, moved, rfl⟩ := map_ok ran
  exact ⟨out, moved, getElem?_set_found found _⟩

theorem step_failed (found : w.calls[i]? = some (.running r pc))
    (ran : step cfg (.call i b) w = .ok w') (failed : w'.calls[i]? = some (.returned r false)) :
    (∃ observed, pc = .claimCas observed ∧ r.limit cfg ≤ observed) ∨ pc = .releaseClaim ∨
    ∃ x q, pc = .push x ∧
      Mpsc.pushStep (r.slot cfg i) (w.partition r.part) x = (q, .inr false) ∧ r.claim cfg = .None := by
  obtain ⟨out, moved, here⟩ := step_call found ran
  obtain ⟨stage, call⟩ := out
  obtain rfl : call = .returned r false := Option.some.inj (here.symm.trans failed)
  cases pc with
  | claimLoad => cases moved
  | claimCas observed =>
    simp only [Enqueue.step] at moved
    (repeat' split at moved) <;> cases moved
    exact .inl ⟨observed, rfl, ‹_›⟩
  | push x =>
    simp only [Enqueue.step] at moved
    (repeat' split at moved) <;> cases moved
    exact .inr (.inr ⟨x, _, rfl, ‹_›, ‹_›⟩)
  | releaseClaim => exact .inr (.inl rfl)

theorem step_observed {observed : Nat} (found : w.calls[i]? = some (.running r pc))
    (ran : step cfg (.call i b) w = .ok w')
    (waiting : w'.calls[i]? = some (.running r (.claimCas observed))) :
    observed = w.stage.claims (r.claim cfg) := by
  obtain ⟨⟨stage, call⟩, moved, here⟩ := step_call found ran
  obtain rfl : call = .running r (.claimCas observed) := Option.some.inj (here.symm.trans waiting)
  cases pc with
  | claimLoad | claimCas | push =>
    simp only [Enqueue.step] at moved
    (repeat' split at moved) <;> cases moved <;> rfl
  | releaseClaim =>
    obtain ⟨count, -, ended⟩ := asserted_ok moved
    cases ended

theorem claim_critical (cls : r.cls = .High) (critical : r.critical = true) :
    r.claim cfg = .None := by
  obtain ⟨target, event, cls', nowNs, critical', admission⟩ := r
  cases cls
  cases critical
  simp [Request.claim, classifyClaim]

theorem class_reserved (claim : r.claim cfg = .NormalReserved) : r.cls = .Normal := by
  by_contra other
  simp only [Request.claim, classifyClaim, other, false_and, if_false] at claim
  split at claim <;> cases claim

/-- No call that holds a Normal claim has failed in `try_push`. -/
def Unfailed (w : World Smp) : Prop :=
  ∀ (i : Nat) (r : Request), r.cls = .Normal → w.calls[i]? ≠ some (.running r .releaseClaim)

theorem Unfailed.step (unfailed : Unfailed w) (watched : Watched w)
    (kept : Kept (mpscBounded StagingSlot) cfg w) (divides : cfg.kNormalCapacity ∣ 2 ^ 32)
    (reserves : cfg.kNormalReservedCapacity ≠ 0) (move : Moves cfg w l w') : Unfailed w' := by
  intro i r cls there
  have placed {j : Nat} {after : Call Smp}
      (there : (w.calls.set j after)[i]? = some (.running r .releaseClaim))
      (other : after ≠ .running r .releaseClaim) : False := by
    rcases getElem?_of_set there with same | old
    · exact other same.symm
    · exact unfailed i r cls old
  cases move with
  | enter =>
    rcases getElem?_of_append there with ⟨entered, -⟩ | old
    · rw [Call.enter] at entered
      split at entered
      · split at entered <;> cases entered
      · cases entered
    · exact unfailed i r cls old
  | wait _ _ _ _ _ _ _ claiming' =>
    refine placed there fun same => ?_
    cases same
    exact claiming'
  | refuse | claim
  | pushNext | publish | rollback =>
    exact placed there (by simp)
  | pushFail _ _ _ _ _ found moved =>
    refine placed there fun same => ?_
    split at same <;> cases same
    have part : r.part = .Normal := congrArg partitionFromClass cls
    exact watched.normal_succeeds kept divides reserves part found moved
  | _ => exact unfailed i r cls there

/-- Runs in which the consumer frees no cell behind a push. -/
theorem reservation_kept (cfg : Config) (high : cfg.kHighCapacity ∣ 2 ^ 32)
    (normal : cfg.kNormalCapacity ∣ 2 ^ 32)
    (run : Reaches (World.step cfg) Clear (initial Smp cfg) w) : Reserved cfg w := by
  obtain ⟨kept, watched, unfailed⟩ := run.invariant
    (P := fun w => Kept (mpscBounded StagingSlot) cfg w ∧ Watched w ∧
      (cfg.kNormalReservedCapacity ≠ 0 → Unfailed w))
    ⟨kept_initial _ cfg, watched_initial cfg, fun _ i r _ never => by cases never⟩
    fun _ _ _ ⟨kept, watched, unfailed⟩ clear ran =>
      have move := step_moves ran
      ⟨kept.step move, watched.step kept.queues clear move,
        fun reserves => (unfailed reserves).step watched kept normal reserves move⟩
  constructor
  case holders => exact unfailed
  case refused =>
    intro i b w' r pc claim found ran failed
    have cls := class_reserved claim
    have limit : r.limit cfg = cfg.kNormalReservedCapacity := congrArg (claimLimit cfg) claim
    rcases step_failed found ran failed with full | rfl | ⟨x, q, -, -, unclaimed⟩
    · rw [limit] at full
      exact full
    · by_cases reserves : cfg.kNormalReservedCapacity = 0
      · have held := kept.books.holding found
        have bounded : _ ≤ r.limit cfg := kept.books.bounded (r.claim cfg) (by simp [claim])
        omega
      · exact (unfailed reserves i r cls found).elim
    · rw [claim] at unclaimed
      cases unclaimed
  case observed =>
    intro i b w' r pc observed claim found ran waiting
    rw [← claim]
    exact step_observed found ran waiting
  case critical =>
    intro i b w' r pc cls critical found ran failed
    have unclaimed : r.claim cfg = .None := claim_critical cls critical
    have part : r.part = .High := congrArg partitionFromClass cls
    rcases step_failed found ran failed with ⟨observed, rfl, -⟩ | rfl | ⟨x, q, rfl, ended, -⟩
    · exact (kept.books.claimed i r _ found (by simp) unclaimed).elim
    · exact (kept.books.claimed i r _ found (by simp) unclaimed).elim
    · exact watched.reserve_used kept high part found ended

/-- One if the call has failed in `try_push` and is about to give its claim back. -/
def rollingBack : Call Smp → Bool
  | .running _ .releaseClaim => true
  | _ => false

def reservedNormal : Request := ⟨⟨1⟩, 0, .Normal, 0, false, .ReservedNormal⟩
def plainHigh : Request := ⟨⟨1⟩, 0, .High, 0, false, .Ordinary⟩
def urgentHigh : Request := ⟨⟨1⟩, 0, .High, 0, true, .Ordinary⟩

/-- One `dequeue_one` of `accesses` steps. -/
def drain (accesses : Nat) : List Label :=
  .dequeueOne 0 inOrder :: List.replicate accesses .consumer

/-- Call 0 stops after `lead` accesses, before its first cell. A later call takes the
other cell and is served; another one takes the first cell. Call 0 fails on the first
cell, which is then served, and a last call takes the other cell before call 0
gets there. -/
def overtaken (first later : Request) (lead accesses : Nat) : List Label :=
  Label.enqueue first :: List.replicate lead (Label.call 0 false) ++
  Label.enqueue later :: List.replicate 8 (Label.call 1 false) ++ drain accesses ++
  Label.enqueue later :: List.replicate 8 (Label.call 2 false) ++
  Label.call 0 false :: drain accesses ++
  Label.enqueue later :: List.replicate 8 (Label.call 3 false) ++
  [Label.call 0 false, Label.call 0 false]

/-- A reserved Normal call that holds its claim fails although a cell is Free, and a
critical High call fails although no critical slot was ever resident or written. -/
theorem reservation_overtaken :
    (∃ w : World Smp, Reachable oneReserved w ∧ w.calls[0]?.any rollingBack = true ∧
      w.calls.map Call.request = [reservedNormal, plainNormal, plainNormal, plainNormal] ∧
      (w.partition .Normal).cells.map MpscCell.state = [.Free, .Ready]) ∧
    passes (fun _ w => decide (w.criticalHigh < oneReserved.kHighCriticalReserve))
      (World.step oneReserved) (overtaken urgentHigh plainHigh 1 27) (initial Smp oneReserved) = true ∧
    (outcome (World.step oneReserved) (overtaken urgentHigh plainHigh 1 27)
      (initial Smp oneReserved)).calls.map (fun call => (call.request, call.result)) =
        [(urgentHigh, some false), (plainHigh, some true), (plainHigh, some true),
          (plainHigh, some true)] := by
  refine ⟨⟨outcome (World.step oneReserved) (overtaken reservedNormal plainNormal 3 30)
    (initial Smp oneReserved), reaches_outcome (by decide +kernel), ?_, ?_, ?_⟩, ?_, ?_⟩ <;>
      decide +kernel

/-- A test for `Clear`. -/
def isClear (l : Label) (w : World Smp) : Bool :=
  match l, w.dequeue with
  | .consumer, some (.pop p (.free k _)) => w.calls.all fun call =>
    match call with
    | .running r (.push (.cas start offset)) =>
      r.part ≠ p || (List.range offset).all fun o => (w.partition p).probed start o ≠ k
    | _ => true
  | _, _ => true

theorem clear_of_isClear (l : Label) (w : World Smp) (test : isClear l w = true) : Clear l w := by
  rintro rfl p k out busy i r start offset found part o tried
  simp only [isClear, busy, List.all_eq_true] at test
  have passed := test _ (List.mem_of_getElem? found)
  simp only [part, ne_eq, not_true_eq_false, decide_false, Bool.false_or, List.all_eq_true,
    List.mem_range, decide_eq_true_eq] at passed
  exact passed o tried

/-- The consumer serves one slot while a reserved call waits for its first cell. -/
def undisturbed : List Label :=
  Label.enqueue plainNormal :: List.replicate 8 (Label.call 0 false) ++
  Label.enqueue reservedNormal :: List.replicate 3 (Label.call 1 false) ++ drain 30 ++
  List.replicate 5 (Label.call 1 false)

theorem reservation_kept_undisturbed :
    (outcome (World.step oneReserved) undisturbed (initial Smp oneReserved)).calls.map
      Call.result = [some true, some true] ∧
    Reserved oneReserved (outcome (World.step oneReserved) undisturbed (initial Smp oneReserved)) :=
  ⟨by decide +kernel, reservation_kept oneReserved (by decide) (by decide)
    (reaches_passes clear_of_isClear (by decide +kernel))⟩

end

end World

end Coact.Staging
