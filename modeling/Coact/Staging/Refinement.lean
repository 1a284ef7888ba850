import Coact.Staging.Scheduler

/-! The single-core ring carries out the scheduler: three circular buffers with
claim counters, selector and 32-bit clock represent its lists, every call keeps the
representation and gets the scheduler's answer. -/
namespace Coact.Staging
open Foundation Dispatch Function

theorem aged_eq (cfg : Config) (nowNs : Nat) (v : StagingSlot) :
    aged cfg nowNs v.enqueueNs = Scheduler.isAged cfg nowNs v := by
  have same : ((nowNs % 2 ^ 32 + (2 ^ 32 - v.enqueueNs % 2 ^ 32)) % 2 ^ 32 : Nat) =
      Scheduler.waited nowNs v := by
    rw [Scheduler.waited]
    omega
  rw [Bool.eq_iff_iff]
  simp only [aged, Scheduler.isAged, decide_eq_true_eq, ← same]
  omega

section
variable {cfg : Config}

abbrev RingSession := Session (ringBackend StagingSlot)

def Stage.ring (stage : Stage (ringBackend StagingSlot)) (p : Partition) : Ring StagingSlot :=
  stage.queue p

def Stage.setRing (stage : Stage (ringBackend StagingSlot)) (p : Partition) (q : Ring StagingSlot) :
    Stage (ringBackend StagingSlot) := stage.setQueue p q

theorem Stage.ring_setRing (stage : Stage (ringBackend StagingSlot)) (p : Partition)
    (q : Ring StagingSlot) : (stage.setRing p q).ring = update stage.ring p q := rfl

/-- The ring's `Staging` represents a state of the scheduler. -/
structure Represents (cfg : Config) (s : RingSession) (sch : Scheduler) : Prop where
  lists : ∀ p, (s.stage.ring p).toList = sch.list p
  capacity : ∀ p, (s.stage.ring p).capacity = cfg.capacity p
  claims : ∀ c, c ≠ .None → s.stage.claims c = sch.holding c
  drawn : s.stage.batchUsed = sch.drawn
  calls : s.calls = sch.calls

theorem Represents.initial (cfg : Config) : Represents cfg (.initial _ cfg) .initial where
  lists _ := rfl
  capacity _ := rfl
  claims _ _ := rfl
  drawn := rfl
  calls := rfl

theorem Represents.ready (rep : Represents cfg s sch) (nowNs : Option Nat) (p : Partition) :
    Stage.ready (ringAlone _) { s.stage with nowNs := nowNs } p = (sch.list p).head?.isSome := by
  rw [← rep.lists p]
  exact (Ring.hasReady_front _).trans (congrArg Option.isSome (Ring.front_eq_head _))

theorem Represents.agingExpired (rep : Represents cfg s sch) (nowNs : Nat) :
    Stage.agingExpired (ringAlone _) cfg { s.stage with nowNs := some nowNs } =
      (sch.list .Low).head?.any (Scheduler.isAged cfg nowNs) := by
  have front : (ringAlone StagingSlot).front (s.stage.queue .Low) = (sch.list .Low).head? := by
    rw [← rep.lists .Low]
    exact Ring.front_eq_head _
  simp only [Stage.agingExpired, front]
  cases (sch.list .Low).head? with
  | none => rfl
  | some v => exact aged_eq cfg nowNs v

theorem Represents.selected (rep : Represents cfg s sch) (nowNs : Nat) :
    Stage.selected (ringAlone _) cfg { s.stage with nowNs := some nowNs } =
      sch.choice cfg nowNs := by
  rw [Stage.selected, rep.agingExpired, rep.ready, rep.ready, rep.ready]
  simp only [select, rep.drawn, Scheduler.choice, List.find?_cons, List.find?_nil]
  cases sch.list .Low with
  | nil => cases sch.list .High <;> cases sch.list .Normal <;> rfl
  | cons =>
    cases sch.list .High <;> cases sch.list .Normal <;> rfl

section
variable {stage : Stage (ringBackend StagingSlot)}

theorem pushInto_room (cfg : Config) (i : Nat)
    (room : (stage.ring r.part).toList.length < (stage.ring r.part).capacity) :
    ∃ q, stage.pushInto (ringAlone _) cfg r i = .ok (stage.setRing r.part q, true) ∧
      q.toList = (stage.ring r.part).toList ++ [r.slot cfg i] ∧
      q.capacity = (stage.ring r.part).capacity := by
  have kept := Ring.capacity_pushObserved (stage.ring r.part) (r.slot cfg i)
  rcases Ring.pushObserved_cases (stage.ring r.part) (r.slot cfg i) with
    ⟨q, pushed, appended⟩ | ⟨full, _⟩
  · rw [pushed] at kept
    have done : (ringAlone StagingSlot).tryPush (stage.queue r.part) (r.slot cfg i) = (q, true) := pushed
    refine ⟨q, ?_, appended, kept⟩
    simp only [Stage.pushInto, done]
    rfl
  · rw [Ring.toList_length] at room
    omega

theorem pushInto_full (full : ¬ (stage.ring r.part).toList.length < (stage.ring r.part).capacity) :
    stage.pushInto (ringAlone _) cfg r i = (stage.releaseClaim (r.claim cfg)).map (·, false) := by
  have refused : (ringAlone StagingSlot).tryPush (stage.queue r.part) (r.slot cfg i) =
      (stage.queue r.part, false) := by
    rw [Ring.toList_length] at full
    exact dif_neg full
  have same : stage.setQueue r.part (stage.queue r.part) = stage := by
    simp only [Stage.setQueue, update_eq_self]
  simp only [Stage.pushInto, refused, same]

theorem releaseClaim_claimed {stage claimed : Stage B}
    (taken : stage.tryClaim cfg c = some claimed) :
    claimed.releaseClaim c = .ok stage := by
  rw [Stage.tryClaim] at taken
  rw [Stage.releaseClaim]
  split at taken
  · rename_i unclaimed
    cases taken
    rw [if_pos unclaimed]
  · rename_i some
    split at taken <;> cases taken
    rw [if_neg some]
    simp [releaseClaimCounter, Stage.setClaims, Except.map]

variable {claimed : Stage (ringBackend StagingSlot)}

theorem Represents.holding (rep : Represents cfg s sch) (r : Request) (accepted : sch.accepts cfg r)
    (c : ReservationClaim) (real : c ≠ .None)
    (taken : s.stage.tryClaim cfg (r.claim cfg) = some claimed) :
    claimed.claims c = (sch.enqueue cfg r).1.holding c := by
  rw [Scheduler.enqueue, if_pos accepted, Scheduler.holding, Scheduler.contents_append,
    Multiset.countP_cons]
  change _ = sch.holding c + if r.claim cfg = c then 1 else 0
  rw [← rep.claims c real]
  rw [Stage.tryClaim] at taken
  split at taken
  · rename_i unclaimed
    cases taken
    rw [if_neg (by rw [unclaimed]; exact real.symm)]
    rfl
  · split at taken <;> cases taken
    by_cases same : r.claim cfg = c
    · subst same
      simp
    · simp [same, update_of_ne (Ne.symm same)]

theorem tryClaim_isSome (rep : Represents cfg s sch) (r : Request) :
    (s.stage.tryClaim cfg (r.claim cfg)).isSome =
      (r.claim cfg = .None ∨ sch.holding (r.claim cfg) < r.limit cfg) := by
  rw [Stage.tryClaim]
  by_cases unclaimed : r.claim cfg = .None
  · simp [unclaimed]
  · rw [if_neg unclaimed, rep.claims _ unclaimed]
    by_cases below : sch.holding (r.claim cfg) < r.limit cfg
    · have limit : sch.holding (r.claim cfg) < claimLimit cfg (r.claim cfg) := below
      simp [limit, below]
    · have limit : ¬ sch.holding (r.claim cfg) < claimLimit cfg (r.claim cfg) := below
      simp [limit, below, unclaimed]

theorem Represents.refused (rep : Represents cfg s sch) :
    Represents cfg ⟨s.stage, s.calls + 1⟩ { sch with calls := sch.calls + 1 } where
  lists := rep.lists
  capacity := rep.capacity
  claims := rep.claims
  drawn := rep.drawn
  calls := congrArg (· + 1) rep.calls

theorem Represents.accepted (rep : Represents cfg s sch) (accepted : sch.accepts cfg r)
    (taken : s.stage.tryClaim cfg (r.claim cfg) = some claimed)
    (appended : q.toList = (s.stage.ring r.part).toList ++ [r.slot cfg s.calls])
    (kept : q.capacity = (s.stage.ring r.part).capacity) :
    Represents cfg ⟨claimed.setRing r.part q, s.calls + 1⟩ (sch.enqueue cfg r).1 := by
  obtain ⟨sameQueue, sameBatch⟩ := Stage.tryClaim_same taken
  have rings : (claimed.setRing r.part q).ring = update s.stage.ring r.part q := by
    rw [Stage.ring_setRing, show claimed.ring = s.stage.ring from sameQueue]
  have listed : (sch.enqueue cfg r).1.list =
      update sch.list r.part (sch.list r.part ++ [r.slot cfg sch.calls]) := by
    rw [Scheduler.enqueue, if_pos accepted]
  constructor
  case lists =>
    intro p
    rw [rings, listed]
    by_cases same : p = r.part
    · subst same
      rw [update_self, update_self, appended, rep.lists, rep.calls]
    · rw [update_of_ne same, update_of_ne same, rep.lists]
  case capacity =>
    intro p
    rw [rings]
    by_cases same : p = r.part
    · subst same
      rw [update_self, kept, rep.capacity]
    · rw [update_of_ne same, rep.capacity]
  case claims =>
    intro c real
    have held : claimed.claims c = _ := rep.holding r accepted c real taken
    exact held
  case drawn =>
    rw [Scheduler.enqueue, if_pos accepted]
    exact sameBatch.trans rep.drawn
  case calls =>
    rw [Scheduler.enqueue, if_pos accepted]
    exact congrArg (· + 1) rep.calls

theorem Represents.enqueue (rep : Represents cfg s sch) (r : Request) :
    ∃ stage, s.stage.enqueue (ringAlone _) cfg r s.calls = .ok (stage, (sch.enqueue cfg r).2) ∧
      Represents cfg ⟨stage, s.calls + 1⟩ (sch.enqueue cfg r).1 := by
  have refuse (refused : sch.accepts cfg r = false)
      (done : s.stage.enqueue (ringAlone _) cfg r s.calls = .ok (s.stage, false)) :
      ∃ stage, s.stage.enqueue (ringAlone _) cfg r s.calls = .ok (stage, (sch.enqueue cfg r).2) ∧
        Represents cfg ⟨stage, s.calls + 1⟩ (sch.enqueue cfg r).1 := by
    refine ⟨s.stage, ?_, ?_⟩
    · rw [done, Scheduler.enqueue, refused]
      rfl
    · rw [Scheduler.enqueue, refused]
      exact rep.refused
  by_cases valid : r.valid cfg
  · have passed := tryClaim_isSome rep r
    cases taken : s.stage.tryClaim cfg (r.claim cfg) with
    | none =>
      rw [taken] at passed
      refine refuse ?_ ?_
      · simp only [Scheduler.accepts, ← passed]
        simp
      · rw [Stage.enqueue, if_pos valid, taken]
    | some claimed =>
      rw [taken] at passed
      have sameRing : claimed.ring = s.stage.ring := (Stage.tryClaim_same taken).1
      have entered : s.stage.enqueue (ringAlone _) cfg r s.calls =
          claimed.pushInto (ringAlone _) cfg r s.calls := by
        rw [Stage.enqueue, if_pos valid, taken]
      have length : (claimed.ring r.part).toList = sch.list r.part := by
        rw [sameRing, rep.lists]
      have capacity : (claimed.ring r.part).capacity = cfg.capacity r.part := by
        rw [sameRing, rep.capacity]
      by_cases room : (sch.list r.part).length < cfg.capacity r.part
      · have accepted : sch.accepts cfg r := by
          simp only [Scheduler.accepts, ← passed]
          simp [valid, room]
        obtain ⟨q, pushed, appended, kept⟩ := pushInto_room cfg s.calls
          (show (claimed.ring r.part).toList.length < (claimed.ring r.part).capacity by
            rw [length, capacity]; exact room)
        refine ⟨claimed.setRing r.part q, ?_, ?_⟩
        · rw [entered, pushed, Scheduler.enqueue, if_pos accepted]
        · rw [sameRing] at appended kept
          exact rep.accepted accepted taken appended kept
      · refine refuse ?_ ?_
        · simp only [Scheduler.accepts]
          simp [room]
        · rw [entered, pushInto_full (by rw [length, capacity]; exact room),
            releaseClaim_claimed taken]
          rfl
  · refine refuse ?_ ?_
    · simp only [Scheduler.accepts]
      simp [valid]
    · rw [Stage.enqueue, if_neg valid]

end

section
variable {rest : List StagingSlot}

theorem tryPop_head {ring : Ring StagingSlot} (head : ring.toList = v :: rest) :
    ring.tryPop.2 = some v ∧ ring.tryPop.1.toList = rest := by
  rcases Ring.tryPop_cases ring with ⟨q, v', popped, split⟩ | ⟨nil, _⟩
  · rw [head] at split
    obtain ⟨rfl, rfl⟩ := List.cons.inj split
    rw [popped]
    exact ⟨rfl, rfl⟩
  · rw [head] at nil
    cases nil

theorem Represents.release (rep : Represents cfg s sch) (head : sch.list p = v :: rest)
    {stage : Stage (ringBackend StagingSlot)} (same : stage.claims = s.stage.claims) :
    ∃ claims, stage.releaseClaim v.claim = .ok { stage with claims := claims } ∧
      ∀ c, c ≠ .None → claims c =
        Scheduler.holding ⟨update sch.list p rest, sch.drawn + 1, sch.calls⟩ c := by
  have holding (c : ReservationClaim) : sch.holding c =
      Scheduler.holding ⟨update sch.list p rest, sch.drawn + 1, sch.calls⟩ c +
        if v.claim = c then 1 else 0 := by
    rw [Scheduler.holding, Scheduler.contents_tail head (sch.drawn + 1), Multiset.countP_cons]
    rfl
  rw [Stage.releaseClaim]
  by_cases unclaimed : v.claim = .None
  · rw [if_pos unclaimed]
    refine ⟨stage.claims, rfl, ?_⟩
    intro c real
    have kept := holding c
    rw [if_neg (by rw [unclaimed]; exact real.symm), Nat.add_zero] at kept
    rw [same, rep.claims c real, kept]
  · rw [if_neg unclaimed]
    have kept := holding v.claim
    rw [if_pos rfl] at kept
    have count : stage.claims v.claim = sch.holding v.claim := by rw [same, rep.claims _ unclaimed]
    refine ⟨update stage.claims v.claim (stage.claims v.claim - 1), ?_, ?_⟩
    · rw [releaseClaimCounter, if_pos (show 0 < stage.claims v.claim by omega)]
      rfl
    · intro c real
      by_cases own : c = v.claim
      · subst own
        rw [update_self]
        omega
      · have kept := holding c
        rw [if_neg (Ne.symm own), Nat.add_zero] at kept
        rw [update_of_ne own, same, rep.claims c real, kept]

theorem Represents.draw (rep : Represents cfg s sch) (fits : cfg.kBatchSizeMax < 2 ^ 8)
    {nowNs : Nat} (chosen : sch.choice cfg nowNs = some p) (head : sch.list p = v :: rest) :
    ∃ stage, Stage.popFrom (ringAlone _) { s.stage with nowNs := some nowNs } p =
        .ok (stage, some v) ∧
      Represents cfg ⟨stage, s.calls⟩
        ⟨update sch.list p rest, sch.drawn + 1, sch.calls⟩ := by
  have budget : sch.drawn < cfg.kBatchSizeMax := by
    by_contra full
    rw [Scheduler.choice, if_pos (not_lt.mp full)] at chosen
    cases chosen
  obtain ⟨taken, left⟩ := tryPop_head ((rep.lists p).trans head)
  let q : Ring StagingSlot := (s.stage.ring p).tryPop.1
  have popped : (ringAlone StagingSlot).tryPop (s.stage.queue p) = (q, some v) :=
    Prod.ext rfl taken
  let stage := Stage.setRing { s.stage with nowNs := some nowNs } p q
  obtain ⟨claims, released, counts⟩ := rep.release head (show stage.claims = s.stage.claims from rfl)
  have rings : stage.ring = update s.stage.ring p q := rfl
  refine ⟨Stage.draw { stage with claims := claims }, ?_, ?_⟩
  · simp only [Stage.popFrom, popped]
    change (stage.releaseClaim v.claim).map _ = _
    rw [released]
    rfl
  · constructor
    case lists =>
      intro p'
      change (stage.ring p').toList = update sch.list p rest p'
      rw [rings]
      by_cases same : p' = p
      · subst same
        rw [update_self, update_self]
        exact left
      · rw [update_of_ne same, update_of_ne same, rep.lists]
    case capacity =>
      intro p'
      change (stage.ring p').capacity = _
      rw [rings]
      by_cases same : p' = p
      · subst same
        rw [update_self, ← rep.capacity]
        exact Ring.capacity_tryPop _
      · rw [update_of_ne same, rep.capacity]
    case claims => exact counts
    case drawn =>
      change (s.stage.batchUsed + 1) % 2 ^ 8 = sch.drawn + 1
      rw [rep.drawn, Nat.mod_eq_of_lt (by omega)]
    case calls => exact rep.calls

theorem Represents.dequeueOne (rep : Represents cfg s sch) (fits : cfg.kBatchSizeMax < 2 ^ 8)
    (nowNs : Nat) :
    ∃ stage, s.stage.dequeueOne (ringAlone _) cfg nowNs =
        .ok (stage, (sch.dequeueOne cfg nowNs).2) ∧
      Represents cfg ⟨stage, s.calls⟩ (sch.dequeueOne cfg nowNs).1 := by
  have selected := rep.selected nowNs
  cases chosen : sch.choice cfg nowNs with
  | none =>
    rw [chosen] at selected
    rw [Scheduler.dequeueOne, chosen]
    refine ⟨{ s.stage with nowNs := some nowNs }, ?_, ⟨rep.lists, rep.capacity, rep.claims,
      rep.drawn, rep.calls⟩⟩
    simp only [Stage.dequeueOne, selected]
    split <;> rfl
  | some p =>
    obtain ⟨v, rest, head⟩ := Scheduler.choice_head chosen
    obtain ⟨stage, popped, rep'⟩ := rep.draw fits chosen head
    have ready : Stage.ready (ringAlone _) { s.stage with nowNs := some nowNs } p = true := by
      rw [rep.ready, head]
      rfl
    have any : Stage.anyReady (ringAlone _) { s.stage with nowNs := some nowNs } = true := by
      cases p <;> simp [Stage.anyReady, ready]
    refine ⟨stage, ?_, ?_⟩
    · simp [Stage.dequeueOne, any, selected, popped, Scheduler.dequeueOne, chosen, head]
    · simp only [Scheduler.dequeueOne, chosen, head]
      exact rep'

end

theorem Represents.simulates (fits : cfg.kBatchSizeMax < 2 ^ 8) :
    Simulates (Represents cfg) (Session.perform (ringAlone _) cfg) (Scheduler.perform cfg) := by
  intro s sch op rep
  cases op with
  | enqueue r =>
    obtain ⟨stage, done, rep'⟩ := rep.enqueue r
    refine ⟨⟨stage, s.calls + 1⟩, ?_, rep'⟩
    rw [Session.perform, done]
    rfl
  | beginBatch =>
    exact ⟨{ s with stage := s.stage.beginBatch }, rfl,
      ⟨rep.lists, rep.capacity, rep.claims, rfl, rep.calls⟩⟩
  | dequeueOne nowNs =>
    obtain ⟨stage, done, rep'⟩ := rep.dequeueOne fits nowNs
    refine ⟨⟨stage, s.calls⟩, ?_, rep'⟩
    rw [Session.perform, done]
    rfl

end

/-- What the scheduler guarantees of a session on the ring after `ops`. -/
structure Refined (cfg : Config) (ops : List Op) (outs : List Response) (s : RingSession) : Prop where
  lists : ∀ p, (s.stage.ring p).toList = (answers (Scheduler.perform cfg) .initial ops).1.list p
  conserved : (accepted cfg (ops.zip outs) : Multiset StagingSlot) = dequeued (ops.zip outs) +
    staged (ringLawful _) s.stage.queue
  pops : ∀ nowNs p, Stage.selected (ringAlone _) cfg { s.stage with nowNs := some nowNs } = some p →
    ((s.stage.ring p).tryPop.2).isSome

theorem staging_refines_scheduler (cfg : Config) (fits : cfg.kBatchSizeMax < 2 ^ 8) (ops : List Op) :
    ∃ s, responses (Session.perform (ringAlone _) cfg) (.initial _ cfg) ops =
        .ok (s, (answers (Scheduler.perform cfg) .initial ops).2) ∧
      Refined cfg ops (answers (Scheduler.perform cfg) .initial ops).2 s := by
  obtain ⟨s, ran, rep⟩ := (Represents.simulates fits).run (Represents.initial cfg) ops
  refine ⟨s, ran, rep.lists, ?_, ?_⟩
  · have contents : staged (ringLawful _) s.stage.queue =
        (answers (Scheduler.perform cfg) .initial ops).1.contents := by
      simp only [Scheduler.contents, ← rep.lists]
      rfl
    rw [contents]
    exact (Scheduler.balanced cfg ops).conserved
  · intro nowNs p selected
    obtain ⟨v, rest, head⟩ := Scheduler.choice_head ((rep.selected nowNs).symm.trans selected)
    rw [(tryPop_head ((rep.lists p).trans head)).1]
    rfl

def agedBehindHigh : List Op :=
  [.enqueue ⟨⟨1⟩, 7, .Low, 0, false, .Ordinary⟩, .enqueue ⟨⟨1⟩, 8, .High, 100000000, false, .Ordinary⟩,
    .dequeueOne 100000000]

theorem staging_refines_scheduler_aged :
    (answers (Scheduler.perform DefaultConfig) .initial agedBehindHigh).2 =
        [.queued true, .queued true, .dequeued (some ⟨⟨1⟩, .None, 7, 0, 0⟩)] ∧
      ∃ s, responses (Session.perform (ringAlone _) DefaultConfig) (.initial _ DefaultConfig)
          agedBehindHigh = .ok (s, (answers (Scheduler.perform DefaultConfig) .initial
            agedBehindHigh).2) ∧
        Refined DefaultConfig agedBehindHigh
          (answers (Scheduler.perform DefaultConfig) .initial agedBehindHigh).2 s :=
  ⟨by decide +kernel, staging_refines_scheduler DefaultConfig (by decide) agedBehindHigh⟩

end Coact.Staging
