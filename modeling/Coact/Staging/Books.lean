import Coact.Staging.Moves

/-! The books of the claim counters. A counter counts the resident slots that carry
the claim, the `enqueue` calls between claim and publication or rollback, and the
`dequeue_one` call between pop and release. A step of a call exchanges what the call
has taken and not given back against the counter and the queue. -/
namespace Coact.Staging
open Foundation Function
variable {B : Backend StagingSlot} {cfg : Config}

/-- The claims a call holds between claim and publication or rollback. -/
def Call.held (cfg : Config) (c : ReservationClaim) : Call B → Nat
  | .running r (.push _) | .running r .releaseClaim => if r.claim cfg = c then 1 else 0
  | _ => 0

/-- The claims a call has taken and not given back. -/
def Call.taken (cfg : Config) (c : ReservationClaim) : Call B → Nat
  | .running r (.push _) | .running r .releaseClaim | .returned r true =>
    if r.claim cfg = c then 1 else 0
  | _ => 0

/-- What call `i` has published in partition `p`. -/
def Call.sent (cfg : Config) (i : Nat) (p : Partition) : Call B → Multiset StagingSlot
  | .returned r true => if r.part = p then {r.slot cfg i} else 0
  | _ => 0

/-- The claim the consumer holds between pop and release. -/
def Dequeue.held (c : ReservationClaim) : Option (Dequeue B) → Nat
  | some (.releaseClaim v) => if v.claim = c then 1 else 0
  | _ => 0

/-- The resident slots that carry claim `c`. -/
def Stage.carrying (L : B.Lawful) (s : Stage B) (c : ReservationClaim) : Nat :=
  (staged L s.queue).countP fun v => v.claim = c

theorem Call.taken_eq (cfg : Config) (c : ReservationClaim) (i : Nat) (call : Call B) :
    call.taken cfg c = call.held cfg c + (call.sent cfg i .High + call.sent cfg i .Normal +
      call.sent cfg i .Low).countP fun v => v.claim = c := by
  cases call with
  | running _ pc => cases pc <;> rfl
  | returned r queued =>
    cases queued with
    | false => rfl
    | true =>
      have one : Multiset.countP (fun v : StagingSlot => v.claim = c) {r.slot cfg i} =
          if r.claim cfg = c then 1 else 0 := by
        rw [← Multiset.cons_zero, Multiset.countP_cons, Multiset.countP_zero, Nat.zero_add]
        rfl
      cases part : r.part <;>
        simp [Call.taken, Call.held, Call.sent, part, one]

theorem Call.held_le_taken (cfg : Config) (c : ReservationClaim) (call : Call B) :
    call.held cfg c ≤ call.taken cfg c := by
  rw [Call.taken_eq cfg c 0]
  exact Nat.le_add_right _ _

theorem Call.taken_enter (r : Request) (counted : c ≠ .None) :
    (Call.enter B cfg r).taken cfg c = 0 := by
  rw [Call.enter]
  split
  · split
    · rename_i unclaimed
      exact if_neg fun same => counted (same.symm.trans unclaimed)
    · rfl
  · rfl

namespace World
variable {L : B.Lawful} {w w' : World B}

/-- The books of the claim counters. -/
structure Books (L : B.Lawful) (cfg : Config) (w : World B) : Prop where
  balance : ∀ c, c ≠ .None → w.stage.claims c =
    w.stage.carrying L c + tally (Call.held cfg c) w.calls + Dequeue.held c w.dequeue
  bounded : ∀ c, c ≠ .None → w.stage.claims c ≤ claimLimit cfg c
  claimed : ∀ (i : Nat) (r : Request) (pc : Enqueue B), w.calls[i]? = some (.running r pc) →
    (∀ x, pc ≠ .push x) → r.claim cfg ≠ .None

theorem Books.holding (books : Books L cfg w) {i : Nat}
    (found : w.calls[i]? = some (.running r .releaseClaim)) : 0 < w.stage.claims (r.claim cfg) := by
  have balance := books.balance _ (books.claimed i r _ found (by simp))
  have mine := weight_le_tally (w := Call.held cfg (r.claim cfg)) (List.mem_of_getElem? found)
  rw [Call.held, if_pos rfl] at mine
  omega

/-- What a step of call `i` exchanges: the counters change by what the call takes
or gives back, and the queues by what it publishes. -/
structure Exchange (L : B.Lawful) (cfg : Config) (i : Nat) (w w' : World B)
    (before after : Call B) : Prop where
  found : w.calls[i]? = some before
  unsent : ∀ p, before.sent cfg i p = 0
  calls : w'.calls = w.calls.set i after
  claims : ∀ c, c ≠ .None →
    w'.stage.claims c + before.taken cfg c = w.stage.claims c + after.taken cfg c
  contents : ∀ p, L.resident (w'.stage.queue p) =
    after.sent cfg i p + L.resident (w.stage.queue p)
  consumer : w'.dequeue = w.dequeue ∧ w'.served = w.served

section
variable {before after : Call B}

theorem Exchange.quiet (found : w.calls[i]? = some before)
    (unsent : ∀ p, before.sent cfg i p = 0) (taken : ∀ c, after.taken cfg c = before.taken cfg c)
    (idle : ∀ p, after.sent cfg i p = 0) :
    Exchange L cfg i w (w.called i (w.stage, after)) before after where
  found := found
  unsent := unsent
  calls := rfl
  claims c _ := by
    rw [taken c]
    rfl
  contents p := by
    rw [idle p]
    exact (zero_add _).symm
  consumer := ⟨rfl, rfl⟩

theorem Exchange.pushed (found : w.calls[i]? = some (.running r (.push x)))
    (same : L.resident q = L.resident (w.stage.queue r.part))
    (taken : ∀ c, c ≠ .None → after.taken cfg c = if r.claim cfg = c then 1 else 0)
    (idle : ∀ p, after.sent cfg i p = 0) :
    Exchange L cfg i w (w.called i (w.stage.setQueue r.part q, after)) (.running r (.push x)) after where
  found := found
  unsent _ := rfl
  calls := rfl
  claims c counted := by
    rw [taken c counted]
    rfl
  contents := by
    refine (Function.forall_update_iff w.stage.queue fun p q =>
      L.resident q = after.sent cfg i p + L.resident (w.stage.queue p)).mpr ⟨?_, fun p _ => ?_⟩
    · rw [idle, zero_add, same]
    · rw [idle, zero_add]
  consumer := ⟨rfl, rfl⟩

theorem Moves.exchange (ok : QueuesOk L cfg w) (books : Books L cfg w)
    (move : Moves cfg w (.call i b) w') : ∃ before after, Exchange L cfg i w w' before after := by
  cases move with
  | observe => exact False.elim ‹Label.OfConsumer (.call i b)›
  | wait _ _ pc pc' _ found claiming claiming' =>
    refine ⟨_, _, .quiet found (fun _ => rfl) (fun c => ?_) fun _ => rfl⟩
    cases pc with
    | push => exact claiming.elim
    | releaseClaim => exact claiming.elim
    | _ =>
      cases pc' with
      | push => exact claiming'.elim
      | releaseClaim => exact claiming'.elim
      | _ => rfl
  | refuse _ _ _ _ found =>
    exact ⟨_, _, .quiet found (fun _ => rfl) (fun _ => rfl) fun _ => rfl⟩
  | claim _ r _ _ found =>
    refine ⟨_, .running r (.push B.tryPush), found, fun _ => rfl, rfl, fun c _ => ?_,
      fun p => (zero_add _).symm, rfl, rfl⟩
    refine (Function.forall_update_iff w.stage.claims fun c n => n + 0 = w.stage.claims c +
      (if r.claim cfg = c then 1 else 0)).mpr ⟨?_, fun c other => ?_⟩ c
    · rw [if_pos rfl]
    · rw [if_neg (Ne.symm other)]
  | pushNext _ _ _ _ _ _ found moved =>
    obtain ⟨here, under⟩ := ok.pushing found
    exact ⟨_, _, .pushed found (L.push_next here under moved).2 (fun _ _ => rfl) fun _ => rfl⟩
  | pushFail i r x q b found moved =>
    obtain ⟨here, under⟩ := ok.pushing found
    refine ⟨_, _, .pushed found (L.push_fail here under moved).2 (fun c counted => ?_) fun p => ?_⟩
    · split
      · rename_i unclaimed
        rw [unclaimed, if_neg (Ne.symm counted)]
        rfl
      · rfl
    · split <;> rfl
  | publish i r _ q _ found moved =>
    obtain ⟨here, under⟩ := ok.pushing found
    have grown := (L.push_done here under moved).2
    refine ⟨_, .returned r true, found, fun _ => rfl, rfl, fun c _ => rfl, ?_, rfl, rfl⟩
    refine (Function.forall_update_iff w.stage.queue fun p q => L.resident q =
      (if r.part = p then {r.slot cfg i} else 0) + L.resident (w.stage.queue p)).mpr
        ⟨?_, fun p other => ?_⟩
    · rw [if_pos rfl, grown, Multiset.singleton_add]
    · rw [if_neg (Ne.symm other), zero_add]
  | rollback _ r _ found =>
    refine ⟨_, .returned r false, found, fun _ => rfl, rfl, ?_, fun p => (zero_add _).symm, rfl, rfl⟩
    refine (Function.forall_update_iff w.stage.claims fun c n => c ≠ .None →
      n + (if r.claim cfg = c then 1 else 0) = w.stage.claims c + 0).mpr
        ⟨fun _ => ?_, fun c other _ => ?_⟩
    · rw [if_pos rfl]
      exact Nat.sub_add_cancel (books.holding found)
    · rw [if_neg (Ne.symm other)]

theorem Exchange.carrying (exchange : Exchange L cfg i w w' before after) (c : ReservationClaim) :
    w'.stage.carrying L c + after.held cfg c = w.stage.carrying L c + after.taken cfg c := by
  have grown : staged L w'.stage.queue = (after.sent cfg i .High + after.sent cfg i .Normal +
      after.sent cfg i .Low) + staged L w.stage.queue := by
    simp only [staged, exchange.contents]
    abel
  rw [Stage.carrying, grown, Multiset.countP_add, Call.taken_eq cfg c i, Stage.carrying]
  omega

theorem Exchange.balance (exchange : Exchange L cfg i w w' before after) (books : Books L cfg w)
    (c : ReservationClaim) (counted : c ≠ .None) : w'.stage.claims c =
      w'.stage.carrying L c + tally (Call.held cfg c) w'.calls + Dequeue.held c w'.dequeue := by
  have balance := books.balance c counted
  have claims := exchange.claims c counted
  have carrying := exchange.carrying c
  have held := tally_set (w := Call.held cfg c) exchange.found after
  have unsent := Call.taken_eq cfg c i before
  simp only [exchange.unsent, add_zero, Multiset.countP_zero] at unsent
  rw [exchange.calls, exchange.consumer.1]
  omega

end

theorem Moves.bounded (books : Books L cfg w) (move : Moves cfg w l w') :
    ∀ c, c ≠ .None → w'.stage.claims c ≤ claimLimit cfg c := by
  have updated {claim : ReservationClaim} {count : Nat}
      (small : claim ≠ .None → count ≤ claimLimit cfg claim) :
      ∀ c, c ≠ .None → update w.stage.claims claim count c ≤ claimLimit cfg c :=
    (Function.forall_update_iff w.stage.claims fun c n => c ≠ .None → n ≤ claimLimit cfg c).mpr
      ⟨small, fun c _ => books.bounded c⟩
  cases move with
  | claim _ _ _ _ _ below => exact updated fun _ => below
  | rollback =>
    exact updated fun counted => (Nat.sub_le _ _).trans (books.bounded _ counted)
  | serve =>
    rw [Stage.release]
    split
    · exact books.bounded
    · exact updated fun counted => (Nat.sub_le _ _).trans (books.bounded _ counted)
  | _ => exact books.bounded

theorem Moves.claimed (books : Books L cfg w) (move : Moves cfg w l w') (i : Nat) (r : Request)
    (pc : Enqueue B) (there : w'.calls[i]? = some (.running r pc)) (other : ∀ x, pc ≠ .push x) :
    r.claim cfg ≠ .None := by
  have placed {j : Nat} {after : Call B} (there : (w.calls.set j after)[i]? = some (.running r pc))
      (sound : after = .running r pc → r.claim cfg ≠ .None) : r.claim cfg ≠ .None := by
    rcases getElem?_of_set there with same | old
    · exact sound same.symm
    · exact books.claimed i r pc old other
  cases move with
  | enter r' =>
    rcases getElem?_of_append there with ⟨entered, -⟩ | old
    · rw [Call.enter] at entered
      split at entered
      · split at entered
        · cases entered
          exact (other _ rfl).elim
        · rename_i claimed
          cases entered
          exact claimed
      · cases entered
    · exact books.claimed i r pc old other
  | wait j _ pc' _ _ found claiming =>
    refine placed there fun same => ?_
    cases same
    refine books.claimed j r pc' found fun x here => ?_
    subst here
    exact claiming
  | refuse | publish | rollback =>
    exact placed there fun never => by cases never
  | claim | pushNext =>
    refine placed there fun same => ?_
    cases same
    exact (other _ rfl).elim
  | pushFail j r' x q b found moved =>
    refine placed there fun same => ?_
    split at same <;> cases same
    rename_i claimed
    exact claimed
  | _ => exact books.claimed i r pc there other

theorem held_looking {dequeue : Option (Dequeue B)} (c : ReservationClaim)
    (looking : ∀ pc, dequeue = some pc → pc.Looking) : Dequeue.held c dequeue = 0 := by
  cases dequeue with
  | none => rfl
  | some pc =>
    have quiet := looking pc rfl
    cases pc with
    | releaseClaim => exact quiet.elim
    | _ => rfl

theorem balance_served {n : Nat}
    (balance : w.stage.claims c = w.stage.carrying L c + n +
      Dequeue.held c (some (.releaseClaim v : Dequeue B))) (counted : c ≠ .None) :
    (w.stage.release v).claims c = (w.stage.release v).carrying L c + n := by
  have held : Dequeue.held c (some (.releaseClaim v : Dequeue B)) =
    if v.claim = c then 1 else 0 := rfl
  rw [held] at balance
  rw [Stage.release]
  split
  · rename_i unclaimed
    rw [if_neg fun same => counted (same.symm.trans unclaimed)] at balance
    exact balance
  · change update w.stage.claims v.claim _ c = w.stage.carrying L c + n
    by_cases mine : v.claim = c
    · subst mine
      rw [if_pos rfl] at balance
      rw [update_self]
      omega
    · rw [if_neg mine] at balance
      rw [update_of_ne (Ne.symm mine)]
      exact balance

theorem Books.step (books : Books L cfg w) (ok : QueuesOk L cfg w) (move : Moves cfg w l w') :
    Books L cfg w' := by
  refine ⟨fun c counted => ?_, move.bounded books, move.claimed books⟩
  have balance := books.balance c counted
  have called : (∃ i b, l = .call i b) → w'.stage.claims c = w'.stage.carrying L c +
      tally (Call.held cfg c) w'.calls + Dequeue.held c w'.dequeue := by
    rintro ⟨i, b, rfl⟩
    obtain ⟨before, after, exchange⟩ := move.exchange ok books
    exact exchange.balance books c counted
  cases move with
  | enter r =>
    have fresh : Call.held cfg c (Call.enter B cfg r) = 0 :=
      Nat.le_zero.mp ((Call.held_le_taken cfg c _).trans_eq (Call.taken_enter r counted))
    rw [tally_append, tally_cons, tally_nil, fresh]
    omega
  | observe _ _ _ _ _ looking looking' =>
    rw [held_looking c looking] at balance
    rw [held_looking c looking']
    exact balance
  | popStart _ looking =>
    rw [held_looking c looking] at balance
    exact balance
  | popNext _ _ _ _ busy moved =>
    rw [busy, Stage.carrying, ← staged_update_same (L.pop_next (ok.popping busy) moved).2] at balance
    exact balance
  | popNone _ _ _ busy moved =>
    rw [busy, Stage.carrying, ← staged_update_same (L.pop_none (ok.popping busy) moved).2] at balance
    exact balance
  | popSome _ _ _ _ busy moved =>
    rw [busy, Stage.carrying, staged_update_uncons (L.pop_some (ok.popping busy) moved).2,
      Multiset.countP_cons, Nat.add_right_comm _ _ (tally _ _)] at balance
    exact balance
  | serve _ busy =>
    rw [busy] at balance
    exact balance_served balance counted
  | _ => exact called ⟨_, _, rfl⟩

end World

end Coact.Staging
