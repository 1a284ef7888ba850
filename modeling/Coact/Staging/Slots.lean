import Coact.Staging.Books

/-! Where slots come from: every slot in a queue, in the consumer's hand or served
was published by the call it names. With the books of the claim counters and the
capacities this is what every step of `Staging` keeps. -/
namespace Coact.Staging
open Foundation
variable {B : Backend StagingSlot} {cfg : Config}

namespace World
variable {L : B.Lawful} {w : World B}

section
variable {p : Partition} {v : StagingSlot}

/-- Slot `v` was published in partition `p` by the call it names. -/
def Sent (cfg : Config) (calls : List (Call B)) (p : Partition) (v : StagingSlot) : Prop :=
  ∃ r, calls[v.sub]? = some (.returned r true) ∧ v = r.slot cfg v.sub ∧ r.part = p

/-- Every slot stems from a call that returned true. -/
structure Genuine (L : B.Lawful) (cfg : Config) (w : World B) : Prop where
  resident : ∀ p, ∀ v ∈ L.resident (w.stage.queue p), Sent cfg w.calls p v
  inHand : ∀ v, w.dequeue = some (.releaseClaim v) → ∃ p, Sent cfg w.calls p v
  served : ∀ v ∈ w.served, ∃ p, Sent cfg w.calls p v

theorem Sent.set {calls : List (Call B)} {before after : Call B} (sent : Sent cfg calls p v)
    (found : calls[i]? = some before) (unsent : ∀ r, before ≠ .returned r true) :
    Sent cfg (calls.set i after) p v := by
  obtain ⟨r, there, same, part⟩ := sent
  exact ⟨r, getElem?_set_other found there fun here => unsent r here.symm, same, part⟩

theorem Exchange.genuine {before after : Call B} (genuine : Genuine L cfg w)
    (exchange : Exchange L cfg i w w' before after) : Genuine L cfg w' := by
  have unsent (r : Request) : before ≠ .returned r true := by
    rintro rfl
    have never := exchange.unsent r.part
    rw [Call.sent, if_pos rfl] at never
    exact Multiset.singleton_ne_zero _ never
  have kept {p : Partition} {v : StagingSlot} (sent : Sent cfg w.calls p v) :
      Sent cfg w'.calls p v := exchange.calls ▸ sent.set exchange.found unsent
  constructor
  case resident =>
    intro p v mem
    rw [exchange.contents p, Multiset.mem_add] at mem
    rcases mem with new | old
    · rw [Call.sent.eq_def] at new
      split at new
      · rename_i r
        split at new
        · rename_i part
          obtain rfl := Multiset.mem_singleton.mp new
          exact ⟨r, exchange.calls ▸ getElem?_set_found exchange.found _, rfl, part⟩
        · exact (Multiset.notMem_zero v new).elim
      · exact (Multiset.notMem_zero v new).elim
    · exact kept (genuine.resident p v old)
  case inHand =>
    intro v busy
    rw [exchange.consumer.1] at busy
    exact (genuine.inHand v busy).imp fun _ => kept
  case served =>
    intro v mem
    rw [exchange.consumer.2] at mem
    exact (genuine.served v mem).imp fun _ => kept

theorem Genuine.consumed (genuine : Genuine L cfg w) {p : Partition} {out : Outcome B}
    (fewer : ∀ v ∈ L.resident q, v ∈ L.resident (w.stage.queue p)) (silent : returnedSlot out = [])
    (inHand : ∀ v, out = .inl (.releaseClaim v) → v ∈ L.resident (w.stage.queue p)) :
    Genuine L cfg (w.consumed (w.stage.setQueue p q, out)) := by
  constructor
  case resident =>
    exact (Function.forall_update_iff w.stage.queue fun p q =>
      ∀ v ∈ L.resident q, Sent cfg w.calls p v).mpr
        ⟨fun v mem => genuine.resident p v (fewer v mem), fun p' _ => genuine.resident p'⟩
  case inHand =>
    intro v busy
    exact ⟨p, genuine.resident p v (inHand v (Sum.getLeft?_eq_some_iff.mp busy))⟩
  case served =>
    intro v mem
    change v ∈ w.served ++ returnedSlot out at mem
    rw [silent, List.append_nil] at mem
    exact genuine.served v mem

theorem Genuine.step (genuine : Genuine L cfg w) (ok : QueuesOk L cfg w) (books : Books L cfg w)
    (move : Moves cfg w l w') : Genuine L cfg w' := by
  have called : (∃ i b, l = .call i b) → Genuine L cfg w' := by
    rintro ⟨i, b, rfl⟩
    obtain ⟨before, after, exchange⟩ := move.exchange ok books
    exact exchange.genuine genuine
  cases move with
  | enter r =>
    have kept {p : Partition} {v : StagingSlot} (sent : Sent cfg w.calls p v) :
        Sent cfg (w.calls ++ [Call.enter B cfg r]) p v := by
      obtain ⟨r', there, same, part⟩ := sent
      exact ⟨r', getElem?_append_found _ there, same, part⟩
    exact ⟨fun p v mem => kept (genuine.resident p v mem),
      fun v busy => (genuine.inHand v busy).imp fun _ => kept,
      fun v mem => (genuine.served v mem).imp fun _ => kept⟩
  | observe _ _ _ _ _ _ looking' =>
    exact ⟨genuine.resident, fun v busy => (looking' _ busy).elim, genuine.served⟩
  | popStart =>
    exact ⟨genuine.resident, fun v never => (by cases never), genuine.served⟩
  | popNext _ _ _ _ busy moved =>
    have same := (L.pop_next (ok.popping busy) moved).2
    exact genuine.consumed (fun v mem => same ▸ mem) rfl fun v never => by cases never
  | popNone _ _ _ busy moved =>
    have same := (L.pop_none (ok.popping busy) moved).2
    exact genuine.consumed (fun v mem => same ▸ mem) rfl fun v never => by cases never
  | popSome _ _ _ v busy moved =>
    have taken := (L.pop_some (ok.popping busy) moved).2
    refine genuine.consumed (fun v' mem => ?_) rfl fun v' same => ?_
    · rw [taken]
      exact Multiset.mem_cons_of_mem mem
    · cases same
      rw [taken]
      exact Multiset.mem_cons_self v _
  | serve v busy =>
    refine ⟨fun p v' mem => ?_, fun v' never => (by cases never), fun v' mem => ?_⟩
    · change v' ∈ L.resident ((w.stage.release v).queue p) at mem
      rw [Stage.release_queue] at mem
      exact genuine.resident p v' mem
    · rcases List.mem_append.mp mem with old | new
      · exact genuine.served v' old
      · obtain rfl := List.mem_singleton.mp new
        exact genuine.inHand v' busy
  | _ => exact called ⟨_, _, rfl⟩

/-- The queues keep their capacities. -/
def Sized (bounds : Backend.Bounded L) (cfg : Config) (w : World B) : Prop :=
  ∀ p, bounds.capacity (w.stage.queue p) = cfg.capacity p

theorem Sized.step {bounds : Backend.Bounded L} (sized : Sized bounds cfg w)
    (move : Moves cfg w l w') : Sized bounds cfg w' := by
  have updated {p : Partition} {q : B.Q}
      (same : bounds.capacity q = bounds.capacity (w.stage.queue p)) :
      ∀ p', bounds.capacity (Function.update w.stage.queue p q p') = cfg.capacity p' :=
    (Function.forall_update_iff w.stage.queue fun p q => bounds.capacity q = cfg.capacity p).mpr
      ⟨same.trans (sized p), fun p' _ => sized p'⟩
  have pushed {p : Partition} {v : StagingSlot} {x : B.Push} {q : B.Q} {out : B.Push ⊕ Bool}
      (moved : B.pushStep v (w.stage.queue p) x = (q, out)) :
      bounds.capacity q = bounds.capacity (w.stage.queue p) := by
    rw [← bounds.push v (w.stage.queue p) x, moved]
  have popped {p : Partition} {x : B.Pop} {q : B.Q} {out : B.Pop ⊕ Option StagingSlot}
      (moved : B.popStep (w.stage.queue p) x = (q, out)) :
      bounds.capacity q = bounds.capacity (w.stage.queue p) := by
    rw [← bounds.pop (w.stage.queue p) x, moved]
  cases move with
  | pushNext _ _ _ _ _ _ _ moved | pushFail _ _ _ _ _ _ moved
  | publish _ _ _ _ _ _ moved => exact updated (pushed moved)
  | popNext _ _ _ _ _ moved | popNone _ _ _ _ moved | popSome _ _ _ _ _ moved =>
    exact updated (popped moved)
  | serve v =>
    intro p
    change bounds.capacity ((w.stage.release v).queue p) = _
    rw [Stage.release_queue]
    exact sized p
  | _ => exact sized

end

section

/-- What every step preserves. -/
structure Kept (bounds : Backend.Bounded L) (cfg : Config) (w : World B) : Prop where
  queues : QueuesOk L cfg w
  books : Books L cfg w
  genuine : Genuine L cfg w
  sized : Sized bounds cfg w

variable {bounds : Backend.Bounded L}

theorem Kept.step (kept : Kept bounds cfg w) (move : Moves cfg w l w') : Kept bounds cfg w' where
  queues := kept.queues.step move
  books := kept.books.step kept.queues move
  genuine := kept.genuine.step kept.queues kept.books move
  sized := kept.sized.step move

theorem kept_initial (bounds : Backend.Bounded L) (cfg : Config) :
    Kept bounds cfg (initial B cfg) := by
  have nothing (p : Partition) : L.resident ((initial B cfg).stage.queue p) = 0 :=
    L.resident_empty _ (cfg.capacity_pos p)
  constructor
  case queues => exact queuesOk_initial L cfg
  case books =>
    refine ⟨fun c _ => ?_, fun c _ => Nat.zero_le _, fun i r pc never => by cases never⟩
    simp only [Stage.carrying, staged, nothing]
    rfl
  case genuine =>
    refine ⟨fun p v mem => ?_, fun v never => (by cases never), fun v never => by cases never⟩
    rw [nothing] at mem
    exact (Multiset.notMem_zero v mem).elim
  case sized => exact fun p => bounds.empty _ (cfg.capacity_pos p)

theorem Kept.run (kept : Kept bounds cfg w)
    (run : Reaches (World.step cfg) allowed w w') : Kept bounds cfg w' :=
  run.invariant (P := Kept bounds cfg) kept fun _ _ _ kept _ ran => kept.step (step_moves ran)

theorem Kept.safe (kept : Kept bounds cfg w) (l : Label) (a : Assertion) :
    World.step cfg l w ≠ .error (.assertion a) := by
  intro failed
  rcases step_fails failed with ⟨i, r, found, zero⟩ | ⟨v, busy, claimed, zero⟩
  · exact Nat.ne_of_gt (kept.books.holding found) zero
  · have balance := kept.books.balance v.claim claimed
    have held : Dequeue.held v.claim w.dequeue = 1 := by
      rw [busy]
      exact if_pos rfl
    omega

end

end World

end Coact.Staging
