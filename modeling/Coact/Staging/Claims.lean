import Coact.Queue.Kinds
import Coact.Staging.Slots

/-! Claim accounting. What a call has taken and not given back is what it has added
to a claim counter, so a call that fails has added nothing, and the counters bound
the ordinary slots of their partitions. -/
namespace Coact.Staging
open Foundation
variable {B : Backend StagingSlot} {cfg : Config}

namespace World
variable {L : B.Lawful} {w w' : World B}

section
variable {bounds : Backend.Bounded L}

/-- The request behind a slot was ordinary. -/
def ordinary (w : World B) (v : StagingSlot) : Bool :=
  w.calls[v.sub]?.any fun call => call.request.ordinary

theorem carrying_part (s : Stage B) (p : Partition) (c : ReservationClaim) :
    (L.resident (s.queue p)).countP (fun v => v.claim = c) ≤ s.carrying L c := by
  rw [Stage.carrying, staged, Multiset.countP_add, Multiset.countP_add]
  cases p <;> omega

theorem Kept.ordinary_carried (kept : Kept bounds cfg w)
    (claimed : ∀ r : Request, r.part = p → r.ordinary = true → r.claim cfg = c) :
    (L.resident (w.stage.queue p)).countP (fun v => w.ordinary v = true) ≤ w.stage.carrying L c := by
  refine (countP_mono fun v mem plain => ?_).trans (carrying_part w.stage p c)
  obtain ⟨r, returned, same, part⟩ := kept.genuine.resident p v mem
  rw [ordinary, returned] at plain
  rw [same]
  exact claimed r part plain

theorem Kept.ordinary_le (kept : Kept bounds cfg w) (p : Partition) (c : ReservationClaim)
    (counted : c ≠ .None) (reserve : Nat) (limit : claimLimit cfg c = cfg.capacity p - reserve)
    (claimed : reserve ≠ 0 → ∀ r : Request, r.part = p → r.ordinary = true →
      r.claim cfg = c) :
    (L.resident (w.stage.queue p)).countP (fun v => w.ordinary v = true) ≤
      cfg.capacity p - reserve := by
  by_cases reserves : reserve = 0
  · have room := bounds.card_le (w.stage.queue p)
    rw [kept.sized p] at room
    rw [reserves]
    exact (Multiset.countP_le_card _ _).trans room
  · have carried := kept.ordinary_carried (claimed reserves)
    have balance := kept.books.balance c counted
    have bounded := kept.books.bounded c counted
    omega

end

section
variable {i : Nat} {bounds : Backend.Bounded L} {schedule : List Label}

/-- What the accesses of call `i` add to the counter of claim `c`, in total, when
`schedule` runs from `w`. -/
def effect (cfg : Config) (i : Nat) (c : ReservationClaim) : List Label → World B → Int
  | [], _ => 0
  | l :: rest, w =>
    match step cfg l w with
    | .ok w' =>
      (match l with
        | .call j _ => if j = i then (w'.stage.claims c : Int) - w.stage.claims c else 0
        | _ => 0) + effect cfg i c rest w'
    | .error _ => 0

/-- No access of call `i` changes the contents of a queue when `schedule` runs from `w`. -/
def Silent (L : B.Lawful) (cfg : Config) (i : Nat) : List Label → World B → Prop
  | [], _ => True
  | l :: rest, w =>
    match step cfg l w with
    | .ok w' => ((∃ b, l = .call i b) → ∀ p, L.resident (w'.stage.queue p) =
        L.resident (w.stage.queue p)) ∧ Silent L cfg i rest w'
    | .error _ => True

theorem Moves.others (move : Moves cfg w l w') (ok : QueuesOk L cfg w)
    (books : Books L cfg w) (other : ∀ b, l ≠ .call i b) (counted : c ≠ .None) :
    weightAt (Call.taken cfg c) w'.calls i = weightAt (Call.taken cfg c) w.calls i := by
  have called : (∃ j b, l = .call j b) →
      weightAt (Call.taken cfg c) w'.calls i = weightAt (Call.taken cfg c) w.calls i := by
    rintro ⟨j, b, rfl⟩
    obtain ⟨before, after, exchange⟩ := move.exchange ok books
    have apart : i ≠ j := fun same => other b (by rw [same])
    rw [exchange.calls, weightAt_set exchange.found, if_neg apart]
  cases move with
  | enter r =>
    exact weightAt_append (Call.taken_enter r counted)
  | observe | popStart | popNext | popNone | popSome | serve => rfl
  | _ => exact called ⟨_, _, rfl⟩

theorem Kept.effect_eq (kept : Kept bounds cfg w) (ran : replay (World.step cfg) schedule w = some w')
    (counted : c ≠ .None) :
    effect cfg i c schedule w + weightAt (Call.taken cfg c) w.calls i =
      weightAt (Call.taken cfg c) w'.calls i := by
  induction schedule generalizing w with
  | nil =>
    cases ran
    exact Int.zero_add _
  | cons l rest ih =>
    rw [replay] at ran
    split at ran
    · rename_i w₁ stepped
      have move := step_moves stepped
      have tail := ih (kept.step move) ran
      rw [effect, stepped]
      by_cases mine : ∃ b, l = .call i b
      · obtain ⟨b, rfl⟩ := mine
        obtain ⟨before, after, exchange⟩ := move.exchange kept.queues kept.books
        have claims := exchange.claims c counted
        rw [exchange.calls, weightAt_set exchange.found, if_pos rfl] at tail
        rw [weightAt_found exchange.found]
        simp only [if_true]
        omega
      · have same := move.others kept.queues kept.books (i := i) (fun b here => mine ⟨b, here⟩) counted
        rw [same] at tail
        have still : (match l with
            | .call j _ => if j = i then (w₁.stage.claims c : Int) - w.stage.claims c else 0
            | _ => 0) = 0 := by
          split
          · rename_i j b
            exact if_neg fun here => mine ⟨b, by rw [here]⟩
          · rfl
        simp only [still, Int.zero_add]
        exact tail
    · cases ran

theorem Moves.returned {queued : Bool} (move : Moves cfg w l w')
    (there : w.calls[i]? = some (.returned r queued)) :
    w'.calls[i]? = some (.returned r queued) := by
  have called {j : Nat} {r' : Request} {pc : Enqueue B} {after : Call B}
      (found : w.calls[j]? = some (.running r' pc)) :
      (w.calls.set j after)[i]? = some (.returned r queued) :=
    getElem?_set_other found there (by simp)
  cases move with
  | enter => exact getElem?_append_found _ there
  | observe | popStart | popNext | popNone | popSome | serve => exact there
  | wait _ _ _ _ _ found | refuse _ _ _ _ found | claim _ _ _ _ found | pushNext _ _ _ _ _ _ found
  | pushFail _ _ _ _ _ found | publish _ _ _ _ _ found | rollback _ _ _ found => exact called found

theorem returned_stays {queued : Bool} (ran : replay (World.step cfg) schedule w = some w')
    (there : w.calls[i]? = some (.returned r queued)) :
    w'.calls[i]? = some (.returned r queued) :=
  (reaches_replay ran).invariant (P := fun w => w.calls[i]? = some (.returned r queued)) there
    fun _ _ _ there _ stepped => (step_moves stepped).returned there

theorem Kept.silent (kept : Kept bounds cfg w) (ran : replay (World.step cfg) schedule w = some w')
    (failed : w'.calls[i]? = some (.returned r false)) : Silent L cfg i schedule w := by
  induction schedule generalizing w with
  | nil => trivial
  | cons l rest ih =>
    rw [replay] at ran
    rw [Silent]
    split at ran
    · rename_i w₁ stepped
      have move := step_moves stepped
      rw [stepped]
      refine ⟨?_, ih (kept.step move) ran⟩
      rintro ⟨b, rfl⟩ p
      obtain ⟨before, after, exchange⟩ := move.exchange kept.queues kept.books
      have unsent : after.sent cfg i p = 0 := by
        rw [Call.sent.eq_def]
        split
        · rename_i r'
          have placed : w₁.calls[i]? = some (.returned r' true) :=
            exchange.calls ▸ getElem?_set_found exchange.found _
          cases (returned_stays ran placed).symm.trans failed
        · rfl
      rw [exchange.contents p, unsent, zero_add]
    · cases ran

end

theorem high_claim (reserves : cfg.kHighCriticalReserve ≠ 0) (r : Request) (part : r.part = .High)
    (plain : r.ordinary = true) : r.claim cfg = .HighOrdinary := by
  obtain ⟨target, event, cls, nowNs, critical, admission⟩ := r
  cases cls with
  | High =>
    cases critical with
    | false => simp [Request.claim, classifyClaim, reserves]
    | true => cases plain
  | Normal | Low => cases part

theorem normal_claim (reserves : cfg.kNormalReservedCapacity ≠ 0) (r : Request)
    (part : r.part = .Normal) (plain : r.ordinary = true) :
    r.claim cfg = .NormalOrdinary := by
  obtain ⟨target, event, cls, nowNs, critical, admission⟩ := r
  cases cls with
  | Normal =>
    cases admission with
    | Ordinary => simp [Request.claim, classifyClaim, reserves]
    | ReservedNormal => cases plain
  | High | Low => cases part

/-- What the claim counters guarantee in the state `w` a schedule leads to. -/
structure Accounted (k : QueueBackend) (cfg : Config) (schedule : List Label)
    (w : World (k.impl StagingSlot)) : Prop where
  counters : ∀ c, c ≠ .None → w.stage.claims c = w.stage.carrying (k.laws StagingSlot) c +
    tally (Call.held cfg c) w.calls + Dequeue.held c w.dequeue
  limits : ∀ c, c ≠ .None → w.stage.claims c ≤ claimLimit cfg c
  asserts : ∀ l a, World.step cfg l w ≠ .error (.assertion a)
  failures : ∀ (i : Nat) (r : Request), w.calls[i]? = some (.returned r false) →
    (∀ c, c ≠ .None → effect cfg i c schedule (initial (k.impl StagingSlot) cfg) = 0) ∧
      Silent (k.laws StagingSlot) cfg i schedule (initial (k.impl StagingSlot) cfg) ∧
      (∀ p, ∀ v ∈ (k.laws StagingSlot).resident (w.stage.queue p), v.sub ≠ i) ∧
      ∀ v ∈ w.served, v.sub ≠ i
  ordinaryHigh : ((k.laws StagingSlot).resident (w.stage.queue .High)).countP
    (fun v => w.ordinary v = true) ≤ cfg.kHighCapacity - cfg.kHighCriticalReserve
  ordinaryNormal : ((k.laws StagingSlot).resident (w.stage.queue .Normal)).countP
    (fun v => w.ordinary v = true) ≤ cfg.kNormalCapacity - cfg.kNormalReservedCapacity

theorem claim_accounting (k : QueueBackend) (cfg : Config) (schedule : List Label)
    {w : World (k.impl StagingSlot)}
    (ran : replay (World.step cfg) schedule (initial (k.impl StagingSlot) cfg) = some w) :
    Accounted k cfg schedule w := by
  have start := kept_initial (k.bounds StagingSlot) cfg
  have kept := start.run (reaches_replay ran)
  constructor
  case counters => exact kept.books.balance
  case limits => exact kept.books.bounded
  case asserts => exact kept.safe
  case failures =>
    intro i r failed
    have unsent {p : Partition} {v : StagingSlot} (sent : Sent cfg w.calls p v) : v.sub ≠ i := by
      obtain ⟨r', returned, -⟩ := sent
      rintro rfl
      cases failed.symm.trans returned
    refine ⟨fun c counted => ?_, start.silent ran failed, fun p v mem => ?_, fun v mem => ?_⟩
    · have total := start.effect_eq (i := i) ran counted
      rw [weightAt_found failed] at total
      exact (Int.add_zero _).symm.trans total
    · exact unsent (kept.genuine.resident p v mem)
    · obtain ⟨p, sent⟩ := kept.genuine.served v mem
      exact unsent sent
  case ordinaryHigh =>
    exact kept.ordinary_le .High .HighOrdinary (by simp) cfg.kHighCriticalReserve rfl high_claim
  case ordinaryNormal =>
    exact kept.ordinary_le .Normal .NormalOrdinary (by simp) cfg.kNormalReservedCapacity rfl
      normal_claim

/-- One cell of two in High and Normal is held back. -/
def oneReserved : Config where
  kMaxAo := 1
  kBatchSizeMax := 8
  kHighCapacity := 2
  kNormalCapacity := 2
  kLowCapacity := 2
  kHighCriticalReserve := 1
  kNormalReservedCapacity := 1
  kBatchTimeoutMs := 5
  kLowMaxWaitMs := 100
  kCooldownCycles := 100
  high_pos := Nat.two_pos
  normal_pos := Nat.two_pos
  low_pos := Nat.two_pos
  high_reserve := by decide
  normal_reserve := by decide
  low_wait := DefaultConfig.low_wait

def plainNormal : Request := ⟨⟨1⟩, 0, .Normal, 0, false, .Ordinary⟩

/-- An ordinary Normal event is queued; a second one finds the ordinary claims used up. -/
def secondRefused : List Label :=
  Label.enqueue plainNormal :: List.replicate 8 (Label.call 0 false) ++
    Label.enqueue plainNormal :: List.replicate 2 (Label.call 1 false)

theorem claim_accounting_refused :
    (outcome (World.step oneReserved) secondRefused
      (initial (QueueBackend.impl .BoundedMpscQueue StagingSlot) oneReserved)).calls.map
        Call.result = [some true, some false] ∧
    Accounted .BoundedMpscQueue oneReserved secondRefused
      (outcome (World.step oneReserved) secondRefused (initial _ oneReserved)) :=
  ⟨by decide +kernel, claim_accounting _ _ _ (replay_outcome (by decide +kernel))⟩

end World

end Coact.Staging
