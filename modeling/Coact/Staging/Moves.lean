import Coact.Foundation.Tally
import Coact.Staging.System

/-! What a step of the staging system can do, said once, and the backend invariants
of the three queues for the pushes and the pop that are under way. -/
namespace Coact.Staging
open Foundation Dispatch Function
variable {B : Backend StagingSlot} {cfg : Config}

/-- `enqueue` has not taken its claim yet. -/
def Enqueue.Claiming : Enqueue B → Prop
  | .claimLoad | .claimCas _ => True
  | .push _ | .releaseClaim => False

/-- `dequeue_one` only reads. -/
def Dequeue.Looking : Dequeue B → Prop
  | .pop _ _ | .releaseClaim _ => False
  | _ => True

/-- The steps of the consumer thread. -/
def Label.OfConsumer : Label → Prop
  | .beginBatch | .dequeueOne _ _ | .consumer => True
  | .enqueue _ | .call _ _ => False

/-- The counters after the consumer has released the claim of `v`. -/
def Stage.release (s : Stage B) (v : StagingSlot) : Stage B :=
  if v.claim = .None then s else s.setClaims v.claim (s.claims v.claim - 1)

theorem Stage.release_queue (s : Stage B) (v : StagingSlot) : (s.release v).queue = s.queue := by
  rw [release]
  split <;> rfl

namespace World

/-- No pop is under way and no slot is in hand. -/
def Looking (w : World B) : Prop := ∀ pc, w.dequeue = some pc → pc.Looking

/-- The moves of the staging system. -/
inductive Moves (cfg : Config) (w : World B) : Label → World B → Prop where
  | enter (r) : Moves cfg w (.enqueue r) { w with calls := w.calls ++ [Call.enter B cfg r] }
  | wait (i r pc pc' b) : w.calls[i]? = some (.running r pc) → pc.Claiming → pc'.Claiming →
      Moves cfg w (.call i b) (w.called i (w.stage, .running r pc'))
  | refuse (i r observed b) : w.calls[i]? = some (.running r (.claimCas observed)) →
      Moves cfg w (.call i b) (w.called i (w.stage, .returned r false))
  | claim (i r observed b) : w.calls[i]? = some (.running r (.claimCas observed)) →
      w.stage.claims (r.claim cfg) < r.limit cfg →
      Moves cfg w (.call i b) (w.called i
        (w.stage.setClaims (r.claim cfg) (w.stage.claims (r.claim cfg) + 1),
          .running r (.push B.tryPush)))
  | pushNext (i r p q p' b) : w.calls[i]? = some (.running r (.push p)) →
      B.pushStep (r.slot cfg i) (w.stage.queue r.part) p = (q, .inl p') →
      Moves cfg w (.call i b) (w.called i (w.stage.setQueue r.part q, .running r (.push p')))
  | pushFail (i r p q b) : w.calls[i]? = some (.running r (.push p)) →
      B.pushStep (r.slot cfg i) (w.stage.queue r.part) p = (q, .inr false) →
      Moves cfg w (.call i b) (w.called i (w.stage.setQueue r.part q,
        if r.claim cfg = .None then .returned r false else .running r .releaseClaim))
  | publish (i r p q b) : w.calls[i]? = some (.running r (.push p)) →
      B.pushStep (r.slot cfg i) (w.stage.queue r.part) p = (q, .inr true) →
      Moves cfg w (.call i b) (w.called i (w.stage.setQueue r.part q, .returned r true))
  | rollback (i r b) : w.calls[i]? = some (.running r .releaseClaim) →
      Moves cfg w (.call i b) (w.called i
        (w.stage.setClaims (r.claim cfg) (w.stage.claims (r.claim cfg) - 1), .returned r false))
  | observe (l : Label) (batchUsed nowNs dequeue) : l.OfConsumer → w.Looking →
      (∀ pc, dequeue = some pc → pc.Looking) →
      Moves cfg w l { w with
        stage := { w.stage with batchUsed := batchUsed, nowNs := nowNs }, dequeue := dequeue }
  | popStart (p) : w.Looking →
      Moves cfg w .consumer { w with dequeue := some (.pop p B.tryPop) }
  | popNext (p r q r') : w.dequeue = some (.pop p r) →
      B.popStep (w.stage.queue p) r = (q, .inl r') →
      Moves cfg w .consumer (w.consumed (w.stage.setQueue p q, .inl (.pop p r')))
  | popNone (p r q) : w.dequeue = some (.pop p r) →
      B.popStep (w.stage.queue p) r = (q, .inr none) →
      Moves cfg w .consumer (w.consumed (w.stage.setQueue p q, .inr none))
  | popSome (p r q v) : w.dequeue = some (.pop p r) →
      B.popStep (w.stage.queue p) r = (q, .inr (some v)) →
      Moves cfg w .consumer (w.consumed (w.stage.setQueue p q, .inl (.releaseClaim v)))
  | serve (v) : w.dequeue = some (.releaseClaim v) →
      Moves cfg w .consumer (w.consumed ((w.stage.release v).draw, .inr (some v)))

theorem Moves.looking {pc : Dequeue B} {out : Outcome B} (busy : w.dequeue = some pc)
    (before : pc.Looking) (unserved : returnedSlot out = [])
    (after : ∀ pc', out = .inl pc' → pc'.Looking) :
    Moves cfg w .consumer (w.consumed (w.stage, out)) := by
  have same : w.consumed (w.stage, out) = { w with
      stage := { w.stage with batchUsed := w.stage.batchUsed, nowNs := w.stage.nowNs }
      dequeue := out.getLeft? } := by
    simp [consumed, unserved]
  rw [same]
  refine .observe .consumer _ _ _ trivial (fun pc' found => ?_) fun pc' found => ?_
  · cases busy.symm.trans found
    exact before
  · exact after pc' (Sum.getLeft?_eq_some_iff.mp found)

theorem enqueue_moves {pc : Enqueue B} {out : Stage B × Call B}
    (found : w.calls[i]? = some (.running r pc))
    (ran : pc.step cfg r i b w.stage = .ok out) : Moves cfg w (.call i b) (w.called i out) := by
  cases pc with
  | claimLoad =>
    cases ran
    exact .wait i r _ _ b found trivial trivial
  | claimCas observed =>
    simp only [Enqueue.step] at ran
    (repeat' split at ran) <;> cases ran
    · exact .refuse i r observed b found
    · rename_i swapped
      rw [← swapped.1]
      exact .claim i r observed b found (by omega)
    · exact .wait i r _ _ b found trivial trivial
  | push p =>
    simp only [Enqueue.step] at ran
    split at ran <;> cases ran
    · exact .pushNext i r p _ _ b found ‹_›
    · exact .publish i r p _ b found ‹_›
    · exact .pushFail i r p _ b found ‹_›
  | releaseClaim =>
    obtain ⟨count, released, rfl⟩ := asserted_ok ran
    simp only [releaseClaimCounter] at released
    split at released <;> cases released
    exact .rollback i r b found

theorem dequeue_moves {pc : Dequeue B} {out : Stage B × Outcome B} (busy : w.dequeue = some pc)
    (ran : pc.step cfg w.stage = .ok out) : Moves cfg w .consumer (w.consumed out) := by
  have look {out : Outcome B} (before : pc.Looking) (unserved : returnedSlot out = [])
      (after : ∀ pc', out = .inl pc' → pc'.Looking) :
      Moves cfg w .consumer (w.consumed (w.stage, out)) := .looking busy before unserved after
  cases pc with
  | ready | count | aging =>
    simp only [Dequeue.step] at ran
    (repeat' split at ran) <;> cases ran <;>
      exact look trivial rfl (by rintro _ ⟨⟩ <;> trivial)
  | select =>
    simp only [Dequeue.step] at ran
    (repeat' split at ran) <;> cases ran
    · exact look trivial rfl (by rintro _ ⟨⟩; trivial)
    · exact look trivial rfl (by rintro _ ⟨⟩; trivial)
    · rename_i p selected
      have looking : w.Looking := fun pc found => by
        cases busy.symm.trans found
        trivial
      have same : w.consumed (w.stage, .inl (.pop p B.tryPop)) =
          { w with dequeue := some (.pop p B.tryPop) } := by
        simp [consumed, returnedSlot]
      rw [same]
      exact .popStart p looking
    · exact look trivial rfl (by rintro _ ⟨⟩)
  | pop p r =>
    simp only [Dequeue.step] at ran
    split at ran <;> cases ran
    · exact .popNext p r _ _ busy ‹_›
    · exact .popNone p r _ busy ‹_›
    · exact .popSome p r _ _ busy ‹_›
  | releaseClaim v =>
    have served : Moves cfg w .consumer (w.consumed ((w.stage.release v).draw, .inr (some v))) :=
      .serve v busy
    rw [Stage.release] at served
    simp only [Dequeue.step] at ran
    split at ran
    · rename_i unclaimed
      cases ran
      rw [if_pos unclaimed] at served
      exact served
    · rename_i claimed
      obtain ⟨count, released, rfl⟩ := asserted_ok ran
      simp only [releaseClaimCounter] at released
      split at released <;> cases released
      rw [if_neg claimed] at served
      exact served

theorem step_moves (ran : step cfg l w = .ok w') : Moves cfg w l w' := by
  cases l with
  | enqueue r =>
    cases ran
    exact .enter r
  | call i b =>
    simp only [step] at ran
    split at ran
    · rename_i r pc found
      obtain ⟨out, moved, rfl⟩ := map_ok ran
      exact enqueue_moves found moved
    · cases ran
  | beginBatch =>
    simp only [step] at ran
    split at ran <;> cases ran
    rename_i idle
    have looking : w.Looking := fun pc busy => by rw [idle] at busy; cases busy
    exact .observe .beginBatch 0 w.stage.nowNs w.dequeue trivial looking looking
  | dequeueOne nowNs order =>
    simp only [step] at ran
    split at ran <;> cases ran
    rename_i idle
    refine .observe (.dequeueOne nowNs order) w.stage.batchUsed (some nowNs) _ trivial
      (fun pc busy => ?_) fun pc started => ?_
    · rw [idle] at busy
      cases busy
    · cases started
      trivial
  | consumer =>
    simp only [step] at ran
    split at ran
    · rename_i pc busy
      obtain ⟨out, moved, rfl⟩ := map_ok ran
      exact dequeue_moves busy moved
    · cases ran

theorem step_fails (failed : step cfg l w = .error (.assertion a)) :
    (∃ (i : Nat) (r : Request), w.calls[i]? = some (.running r .releaseClaim) ∧
      w.stage.claims (r.claim cfg) = 0) ∨
    ∃ v, w.dequeue = some (.releaseClaim v) ∧ v.claim ≠ .None ∧ w.stage.claims v.claim = 0 := by
  have underflow {count : Nat} (failed : releaseClaimCounter count = .error a) : count = 0 := by
    rw [releaseClaimCounter] at failed
    split at failed <;> cases failed
    omega
  cases l with
  | enqueue => cases failed
  | call i b =>
    simp only [step] at failed
    split at failed
    · rename_i r pc found
      have failed := map_error failed
      cases pc with
      | releaseClaim => exact .inl ⟨i, r, found, underflow (asserted_error failed)⟩
      | _ =>
        simp only [Enqueue.step] at failed
        (repeat' split at failed) <;> cases failed
    · cases failed
  | beginBatch | dequeueOne =>
    simp only [step] at failed
    split at failed <;> cases failed
  | consumer =>
    simp only [step] at failed
    split at failed
    · rename_i pc busy
      have failed := map_error failed
      cases pc with
      | ready | select | count | aging | pop =>
        simp only [Dequeue.step] at failed
        (repeat' split at failed) <;> cases failed
      | releaseClaim v =>
        simp only [Dequeue.step] at failed
        split at failed
        · cases failed
        · rename_i claimed
          exact .inr ⟨v, busy, claimed, underflow (asserted_error failed)⟩
    · cases failed

section

/-- The push call `i` has under way in partition `p`. -/
def pushOf (cfg : Config) (p : Partition) (i : Nat) : Call B → Option (StagingSlot × B.Push)
  | .running r (.push x) => if r.part = p then some (r.slot cfg i, x) else none
  | _ => none

def pushes (cfg : Config) (calls : List (Call B)) (p : Partition) : B.Pushes :=
  fun i => calls[i]?.bind (pushOf cfg p i)

/-- The pop the consumer has under way in partition `p`. -/
def popOf (p : Partition) : Option (Dequeue B) → Option B.Pop
  | some (.pop p' x) => if p' = p then some x else none
  | _ => none

/-- The invariants of the queues. -/
def QueuesOk (L : B.Lawful) (cfg : Config) (w : World B) : Prop :=
  ∀ p, L.Inv (w.stage.queue p) (pushes cfg w.calls p) (popOf p w.dequeue)

variable {L : B.Lawful} {w w' : World B} {p : Partition} {i : Nat} {r : Request}

theorem pushes_reads (cfg : Config) (p : Partition) (calls : List (Call B)) (i : Nat) :
    pushes cfg calls p i = calls[i]?.bind (pushOf cfg p i) := rfl

theorem pushes_at {call : Call B} (found : w.calls[i]? = some call) :
    pushes cfg w.calls p i = pushOf cfg p i call := by
  simp [pushes, found]

variable {before after : Call B}

theorem pushes_set {calls : List (Call B)} (found : calls[i]? = some before) :
    pushes cfg (calls.set i after) p =
      update (pushes cfg calls p) i (pushOf cfg p i after) :=
  read_set (pushes_reads cfg p) found

theorem pushes_kept {calls : List (Call B)} (found : calls[i]? = some before)
    (same : pushOf cfg p i after = pushOf cfg p i before) :
    pushes cfg (calls.set i after) p = pushes cfg calls p :=
  read_kept (pushes_reads cfg p) found same

theorem pushOf_here :
    pushOf cfg r.part i (.running r (.push x)) = some (r.slot cfg i, x) := if_pos rfl

theorem pushOf_away (other : p ≠ r.part) :
    pushOf cfg p i (.running r (.push x)) = none := if_neg (Ne.symm other)

theorem pushOf_enter (cfg : Config) (p : Partition) (i : Nat) (r : Request) :
    pushOf cfg p i (Call.enter B cfg r) = none ∨
    p = r.part ∧ pushOf cfg p i (Call.enter B cfg r) = some (r.slot cfg i, B.tryPush) := by
  rw [Call.enter]
  split
  · split
    · by_cases here : p = r.part
      · exact .inr ⟨here, by rw [here, pushOf_here]⟩
      · exact .inl (pushOf_away here)
    · exact .inl rfl
  · exact .inl rfl

variable {x : B.Pop}

theorem popOf_here : popOf p (some (.pop p x : Dequeue B)) = some x := if_pos rfl

theorem popOf_away (other : p' ≠ p) :
    popOf p' (some (.pop p x : Dequeue B)) = none := if_neg (Ne.symm other)

theorem popOf_looking {dequeue : Option (Dequeue B)}
    (looking : ∀ pc, dequeue = some pc → pc.Looking) : popOf p dequeue = none := by
  cases dequeue with
  | none => rfl
  | some pc =>
    have quiet := looking pc rfl
    cases pc with
    | pop => exact quiet.elim
    | releaseClaim => exact quiet.elim
    | _ => rfl

section
variable (ok : QueuesOk L cfg w)
include ok

theorem QueuesOk.called {stage : Stage B} (found : w.calls[i]? = some before) (p : Partition)
    (queue : stage.queue = update w.stage.queue p q)
    (away : ∀ p', p' ≠ p → pushOf cfg p' i after = pushOf cfg p' i before)
    (here : L.Inv q (update (pushes cfg w.calls p) i (pushOf cfg p i after))
      (popOf p w.dequeue)) :
    QueuesOk L cfg (w.called i (stage, after)) := by
  intro p'
  change L.Inv (stage.queue p') (pushes cfg (w.calls.set i after) p') (popOf p' w.dequeue)
  rw [queue]
  by_cases same : p' = p
  · subst same
    rw [update_self, pushes_set found]
    exact here
  · rw [update_of_ne same, pushes_kept found (away p' same)]
    exact ok p'

theorem QueuesOk.quiet {stage : Stage B} (found : w.calls[i]? = some before)
    (queue : stage.queue = w.stage.queue) (same : ∀ p, pushOf cfg p i after = pushOf cfg p i before) :
    QueuesOk L cfg (w.called i (stage, after)) := by
  intro p
  change L.Inv (stage.queue p) (pushes cfg (w.calls.set i after) p) (popOf p w.dequeue)
  rw [queue, pushes_kept found (same p)]
  exact ok p

theorem QueuesOk.pushing {x : B.Push} (found : w.calls[i]? = some (.running r (.push x))) :
    L.Inv (w.stage.queue r.part) (pushes cfg w.calls r.part) (popOf r.part w.dequeue) ∧
      pushes cfg w.calls r.part i = some (r.slot cfg i, x) :=
  ⟨ok _, by rw [pushes_at found, pushOf_here]⟩

theorem QueuesOk.popping (busy : w.dequeue = some (.pop p x)) :
    L.Inv (w.stage.queue p) (pushes cfg w.calls p) (some x) := by
  have here := ok p
  rw [busy, popOf_here] at here
  exact here

theorem QueuesOk.popped {out : Outcome B}
    (busy : w.dequeue = some (.pop p x)) (away : ∀ p', p' ≠ p → popOf p' out.getLeft? = none)
    (here : L.Inv q (pushes cfg w.calls p) (popOf p out.getLeft?)) :
    QueuesOk L cfg (w.consumed (w.stage.setQueue p q, out)) := by
  intro p'
  change L.Inv ((w.stage.setQueue p q).queue p') (pushes cfg w.calls p') (popOf p' out.getLeft?)
  rw [Stage.setQueue_queue]
  by_cases same : p' = p
  · subst same
    rw [update_self]
    exact here
  · have other := ok p'
    rw [busy, popOf_away same] at other
    rw [update_of_ne same, away p' same]
    exact other

theorem QueuesOk.enter : QueuesOk L cfg { w with calls := w.calls ++ [Call.enter B cfg r] } := by
  intro p
  have idle : pushes cfg w.calls p w.calls.length = none :=
    read_beyond (pushes_reads cfg p) le_rfl
  have grown := read_append (pushes_reads cfg p) w.calls (Call.enter B cfg r)
  rw [grown]
  rcases pushOf_enter (B := B) cfg p w.calls.length r with later | ⟨-, pushing⟩
  · rw [later, ← idle, update_eq_self]
    exact ok p
  · rw [pushing]
    exact L.push_start (ok p) idle

theorem QueuesOk.step (move : Moves cfg w l w') : QueuesOk L cfg w' := by
  cases move with
  | enter => exact ok.enter
  | wait _ _ pc pc' _ found before after =>
    refine ok.quiet found rfl fun p => ?_
    cases pc with
    | push => exact before.elim
    | releaseClaim => exact before.elim
    | _ =>
      cases pc' with
      | push => exact after.elim
      | _ => rfl
  | refuse _ _ _ _ found | rollback _ _ _ found => exact ok.quiet found rfl fun _ => rfl
  | claim i r _ _ found =>
    refine ok.called found r.part (update_eq_self r.part w.stage.queue).symm
      (fun p' other => pushOf_away other) ?_
    have idle : pushes cfg w.calls r.part i = none := by rw [pushes_at found]; rfl
    rw [pushOf_here]
    exact L.push_start (ok r.part) idle
  | pushNext _ r _ _ _ _ found moved =>
    obtain ⟨here, under⟩ := ok.pushing found
    refine ok.called found r.part rfl (fun p' other => ?_) ?_
    · rw [pushOf_away other, pushOf_away other]
    · rw [pushOf_here]
      exact (L.push_next here under moved).1
  | pushFail i r _ _ _ found moved =>
    obtain ⟨here, under⟩ := ok.pushing found
    have ended (p : Partition) : pushOf cfg p i (if r.claim cfg = .None then .returned r false
        else .running r .releaseClaim : Call B) = none := by
      split <;> rfl
    refine ok.called found r.part rfl (fun p' other => ?_) ?_
    · rw [ended, pushOf_away other]
    · rw [ended]
      exact (L.push_fail here under moved).1
  | publish _ r _ _ _ found moved =>
    obtain ⟨here, under⟩ := ok.pushing found
    refine ok.called found r.part rfl (fun p' other => (pushOf_away other).symm) ?_
    exact (L.push_done here under moved).1
  | observe _ _ _ _ _ before after =>
    intro p
    have here := ok p
    rw [popOf_looking before] at here
    rw [popOf_looking after]
    exact here
  | popStart p before =>
    intro p'
    have here := ok p'
    rw [popOf_looking before] at here
    by_cases same : p' = p
    · subst same
      rw [popOf_here]
      exact L.pop_start here
    · rw [popOf_away same]
      exact here
  | popNext p _ q x' busy moved =>
    refine ok.popped busy (fun p' other => popOf_away other) ?_
    change L.Inv q (pushes cfg w.calls p) (popOf p (some (.pop p x')))
    rw [popOf_here]
    exact (L.pop_next (ok.popping busy) moved).1
  | popNone _ _ _ busy moved =>
    exact ok.popped busy (fun _ _ => rfl) (L.pop_none (ok.popping busy) moved).1
  | popSome _ _ _ _ busy moved =>
    exact ok.popped busy (fun _ _ => rfl) (L.pop_some (ok.popping busy) moved).1
  | serve v busy =>
    intro p
    have here := ok p
    rw [busy] at here
    change L.Inv ((w.stage.release v).queue p) (pushes cfg w.calls p) none
    rw [Stage.release_queue]
    exact here

end

theorem queuesOk_initial (L : B.Lawful) (cfg : Config) : QueuesOk L cfg (initial B cfg) := by
  intro p
  exact L.inv_empty _ (cfg.capacity_pos p)

end

end World

end Coact.Staging
