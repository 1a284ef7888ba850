import Coact.Foundation.Refinement
import Coact.Pipeline.System
import Coact.Queue.Kinds

/-! `StaticAdmission` with no limit on any target against `NoAdmission`. The two
coordinators differ in how a submission raises the pending counter: a compare-exchange
loop against one unconditional add. A state of the first is read as a state of the second
by taking a submission anywhere in the loop to stand before the add. -/
namespace Coact
open Foundation Submit Sys Deployment PendingCounter

/-- The same board with an admission rule set. -/
@[simps] def Deployment.withRules (d : Deployment) (rows : List TargetAdmission) : Deployment :=
  { d with rules := some rows }

/-- `rows` gives every target zero interval and zero backlog cap, and `d` has `NoAdmission`. -/
structure Disabled (d : Deployment) (rows : List TargetAdmission) : Prop where
  rules : d.rules = none
  limits : ∀ target, StaticAdmission.limitsFor d.cfg rows target = ⟨0, 0⟩

variable {d : Deployment} {rows : List TargetAdmission} {B : Backend StagingSlot} {H : Type}

theorem withRules_lookup (target : TargetId) :
    (d.withRules rows).lookup target = d.lookup target := rfl

section
variable (off : Disabled d rows) (target : TargetId)
include off

theorem Disabled.minArrival_eq : d.minArrival target = 0 := by
  simp only [minArrival, off.rules]

theorem Disabled.backlogCap_eq : d.backlogCap target = 0 := by
  simp only [backlogCap, off.rules]

theorem Disabled.minArrival_withRules : (d.withRules rows).minArrival target = 0 :=
  congrArg TargetLimits.minArrival (off.limits target)

theorem Disabled.backlogCap_withRules : (d.withRules rows).backlogCap target = 0 :=
  congrArg TargetLimits.maxBacklog (off.limits target)

end

/-- About to raise the pending counter. -/
def Submit.Pc.raising : Pc B → Bool
  | .increment => true
  | .tryIncrementCas observed => observed ≠ 0xffff
  | _ => false

theorem backlogFull_rejected :
    (⟨.RejectedFull, kBacklogFull⟩ : SubmitResult).disposition ≠ .Queued := by decide

-- A submission that has read the ceiling is refused, whatever the counter says by then.
def Submit.Pc.historical : Pc B → Pc B
  | .tryIncrementCas observed =>
    if observed = 0xffff then .gc ⟨⟨.RejectedFull, kBacklogFull⟩, backlogFull_rejected⟩
    else .increment
  | pc => pc

def Submit.Frame.historical (f : Frame (d.withRules rows) B) : Frame d B where
  args := f.args
  ao := f.ao
  bound := f.bound
  now := f.now
  arrival := f.arrival
  t0 := f.t0
  pc := f.pc.historical

def Call.historical : Call (d.withRules rows) B → Call d B
  | .refused args => .refused args
  | .run f => .run f.historical
  | .done args r => .done args r

def BoundSlot.historical (b : BoundSlot (d.withRules rows)) : BoundSlot d :=
  ⟨b.slot, b.ao, b.bound⟩

def Dispatch.Pc.historical : Dispatch.Pc (d.withRules rows) B → Dispatch.Pc d B
  | .loopTop deferred => .loopTop deferred
  | .armTop v => .armTop v
  | .acquire k b => .acquire k b.historical
  | .hsm k b t0 => .hsm k b.historical t0
  | .releaseLease k b t0 => .releaseLease k b.historical t0
  | .rtc k b t0 => .rtc k b.historical t0
  | .decrementLoad k b => .decrementLoad k b.historical
  | .decrementSub k b => .decrementSub k b.historical
  | .cycle k b => .cycle k b.historical
  | .reclaim k v => .reclaim k v
  | .timedWait v => .timedWait v
  | .stopTest any => .stopTest any
  | .ready c p r => .ready c p r
  | .select c todo ops => .select c todo ops
  | .count c todo ops p r => .count c todo ops p r
  | .aging c todo ops r => .aging c todo ops r
  | .pop c p r => .pop c p r
  | .releaseClaim c v => .releaseClaim c v
  | .stopCheck deferred any => .stopCheck deferred any
  | .armRetry v => .armRetry v
  | .idleCycle k => .idleCycle k
  | .armIdle => .armIdle
  | .idleReady p r => .idleReady p r
  | .idleWait => .idleWait
  | .drainLoop again now => .drainLoop again now
  | .drainSize again now p r => .drainSize again now p r
  | .drainIdle again now => .drainIdle again now
  | .drainWait now => .drainWait now
  | .returned => .returned

/-- The state as the coordinator without admission rules would have it. -/
def Sys.historical (s : Sys (d.withRules rows) B H) : Sys d B H where
  shared := s.shared
  calls := s.calls.map Call.historical
  disp := s.disp.historical
  stoppers := s.stoppers

/-! A step of one coordinator is a step of the other with the place in the code translated. -/
section
variable {ε σ α β γ : Type}

theorem ok_along (same : f x = y) :
    (.ok (s, y) : Except ε (σ × β)) = (Except.ok (s, x)).map (Prod.map id f) := by
  cases same
  rfl

theorem ite_along {p q : Prop} [Decidable p] [Decidable q] {x y : Except ε (σ × α)}
    (same : p ↔ q) (yes : x' = x.map (Prod.map id f)) (no : y' = y.map (Prod.map id f)) :
    (if p then x' else y') = (if q then x else y).map (Prod.map id f) := by
  by_cases holds : q
  · rw [if_pos holds, if_pos (same.mpr holds), yes]
  · rw [if_neg holds, if_neg (mt same.mp holds), no]

theorem asserted_along {checked : Except Assertion γ} {next : γ → σ × α}
    (same : ∀ c, Prod.map id f (next c) = next' c) :
    asserted checked next' = (asserted checked next).map (Prod.map id f) := by
  cases checked with
  | ok c => exact congrArg Except.ok (same c).symm
  | error => rfl

end

section
open Dispatch
variable {ao : AoId}

theorem tryDispatchSlot_historical (k : Site) (v : StagingSlot) :
    (tryDispatchSlot k v : Dispatch.Pc (d.withRules rows) B).historical = tryDispatchSlot k v := by
  unfold tryDispatchSlot
  split <;> split <;> grind [Dispatch.Pc.historical, BoundSlot.historical, withRules_lookup]

theorem dropSlot_historical (k : StopSite) (v : StagingSlot) :
    (dropSlot k v : Dispatch.Pc (d.withRules rows) B).historical = dropSlot k v := by
  unfold dropSlot
  split <;> split <;> grind [Dispatch.Pc.historical, BoundSlot.historical, withRules_lookup]

theorem gotSlot_historical (v : StagingSlot) (c : Ctx) :
    (gotSlot v c : Dispatch.Pc (d.withRules rows) B).historical = gotSlot v c := by
  cases c with
  | batch => exact tryDispatchSlot_historical .batch v
  | drain now => exact dropSlot_historical (.drain now) v

theorem noSlot_historical (c : Ctx) :
    (noSlot c : Dispatch.Pc (d.withRules rows) B).historical = noSlot c := by
  cases c <;> rfl

theorem retained_historical (v : StagingSlot) (k : Site) :
    (retained v k : Dispatch.Pc (d.withRules rows) B).historical = retained v k := by
  cases k <;> rfl

theorem drainMore_historical (sh : Shared B H) (now : Nat) (released : Bool) :
    Prod.map id Dispatch.Pc.historical (drainLeft.drainMore sh now released :
      Shared B H × Dispatch.Pc (d.withRules rows) B) = drainLeft.drainMore sh now released := by
  simp only [drainLeft.drainMore, withRules_cfg]
  split <;> rfl

theorem drainLeft_historical (again : Bool) (now : Nat) (sh : Shared B H) :
    Prod.map id Dispatch.Pc.historical (drainLeft again now sh :
      Shared B H × Dispatch.Pc (d.withRules rows) B) = drainLeft again now sh := by
  cases again with
  | true => rfl
  | false => exact drainMore_historical _ now false

theorem finished_historical (sh : Shared B H) (clock : Nat) (k : Visit) :
    Prod.map id Dispatch.Pc.historical (finished sh clock k :
      Shared B H × Dispatch.Pc (d.withRules rows) B) = finished sh clock k := by
  cases k with
  | dispatch k => cases k <;> rfl
  | stop k =>
    cases k with
    | final => rfl
    | drain now => exact drainMore_historical sh now true

theorem Dispatch.step_historical (sh : Shared B H) (o : Oracle H)
    (pc : Dispatch.Pc (d.withRules rows) B) :
    pc.historical.step sh o = (pc.step sh o).map (Prod.map id Dispatch.Pc.historical) := by
  cases pc with simp only [Pc.historical, Pc.step, withRules_cfg]
  | loopTop deferred =>
    cases sh.stop <;> cases deferred
    · rfl
    · rfl
    · rfl
    · exact ok_along (dropSlot_historical .final _)
  | armTop v => exact ok_along (tryDispatchSlot_historical .top v)
  | acquire k b =>
    refine ite_along Iff.rfl rfl ?_
    exact ok_along (retained_historical b.slot k)
  | hsm => cases o.hsm <;> rfl
  | releaseLease | decrementLoad => exact asserted_along fun _ => rfl
  | rtc => rfl
  | decrementSub k => cases k <;> rfl
  | cycle => rfl
  | reclaim k => exact congrArg Except.ok (finished_historical _ _ k).symm
  | timedWait | drainWait => cases waitDispatcher d.cfg.kBatchTimeoutMs o.timeout sh <;> rfl
  | stopTest =>
    refine ite_along Iff.rfl rfl ?_
    exact ite_along Iff.rfl rfl rfl
  | ready c p r =>
    rcases B.readyStep (sh.queue p) r with r' | _ | _
    · rfl
    · cases next p with
      | some => rfl
      | none => exact ok_along (noSlot_historical c)
    · rfl
  | select c todo ops =>
    rcases todo with _ | ⟨_ | _, rest⟩
    · cases Staging.select ops.high ops.normal ops.low ops.aged sh.batchUsed
          d.cfg.kBatchSizeMax with
      | some => rfl
      | none => exact ok_along (noSlot_historical c)
    · rfl
    · rfl
  | count _ _ _ p r => cases B.readyStep (sh.queue p) r <;> rfl
  | aging _ _ _ r => cases B.frontStep (sh.queue .Low) r <;> rfl
  | pop c p r =>
    rcases B.popStep (sh.queue p) r with ⟨q, r' | _ | v⟩
    · rfl
    · exact ok_along (noSlot_historical c)
    · rfl
  | releaseClaim c v =>
    refine ite_along Iff.rfl ?_ ?_
    · exact ok_along (gotSlot_historical v c)
    · exact asserted_along fun _ => congrArg _ (gotSlot_historical v c)
  | stopCheck deferred any =>
    cases sh.stop <;> cases deferred
    · cases any <;> rfl
    · rfl
    · rfl
    · exact ok_along (dropSlot_historical .final _)
  | armRetry v => exact ok_along (tryDispatchSlot_historical .retry v)
  | idleCycle =>
    exact ite_along Iff.rfl rfl rfl
  | armIdle => rfl
  | idleReady p r =>
    rcases B.readyStep (sh.queue p) r with r' | _ | _
    · rfl
    · cases next p <;> rfl
    · rfl
  | idleWait => cases waitDispatcher 0 o.timeout sh <;> rfl
  | drainLoop => rfl
  | drainSize again now p r =>
    rcases B.sizeStep (sh.queue p) r with r' | _ | n
    · rfl
    · cases next p <;> rfl
    · exact congrArg Except.ok (drainLeft_historical again now sh).symm
  | drainIdle again now =>
    refine ite_along Iff.rfl ?_ ?_
    · cases again <;> rfl
    · exact congrArg Except.ok (drainLeft_historical again now sh).symm
  | returned => rfl

end

section

theorem enter_historical (args : Args) :
    (Call.enter (d.withRules rows) B args).historical = Call.enter d B args := by
  unfold Call.enter
  split <;> grind [Call.historical, Frame.historical, Submit.Pc.historical, withRules_lookup,
    withRules_cfg, withRules_ao]

variable (off : Disabled d rows) (f : Frame (d.withRules rows) B) (clock : Nat)
include off

theorem toStaging_historical : (f.toStaging clock).historical = f.historical.toStaging clock := by
  simp only [Frame.toStaging, off.backlogCap_eq, off.backlogCap_withRules, ne_eq,
    not_true_eq_false, or_false]
  show (Frame.goto (if f.now = none ∧ f.cls = .Low then _ else _) _).historical =
    Frame.goto (if f.now = none ∧ f.cls = .Low then _ else _) _
  split <;> rfl

theorem toDirect_historical : (f.toDirect clock).historical = f.historical.toDirect clock := by
  have later := toStaging_historical off f clock
  show Call.historical (if f.args.fromIsr = false ∧ (d.ao f.ao).directEligible = true then _ else _) =
    if f.args.fromIsr = false ∧ (d.ao f.ao).directEligible = true then _ else _
  split
  · rfl
  · exact later

theorem toGate_historical : (f.toGate clock).historical = f.historical.toGate clock := by
  simp only [Frame.toGate, off.minArrival_eq, off.minArrival_withRules, ne_eq, not_true_eq_false,
    if_false]
  exact toDirect_historical off f clock

theorem toPolicy_historical : (f.toPolicy clock).historical = f.historical.toPolicy clock := by
  simp only [Frame.toPolicy, withRules_policyOps]
  split
  · rfl
  · exact toGate_historical off f clock

theorem toOverload_historical :
    (f.toOverload clock).historical = f.historical.toOverload clock := by
  show (if f.args.critical then _ else _ : Call _ B).historical = if f.args.critical then _ else _
  split
  · exact toPolicy_historical off f clock
  · rfl

end

section
variable {sh : Shared B H}

theorem leave_historical (f : Frame (d.withRules rows) B) (r : SubmitResult) :
    (f.leave r).historical = f.historical.leave r := by
  obtain ⟨args, ao, bound, now, arrival, t0, pc⟩ := f
  cases arrival <;> rfl

theorem goto_historical (f : Frame (d.withRules rows) B) {pc : Submit.Pc B}
    (same : pc.historical = pc) : (f.goto pc).historical = f.historical.goto pc := by
  simp only [Frame.goto, Call.historical, Frame.historical, same]

theorem Submit.step_historical (off : Disabled d rows) (i : Nat) (o : Oracle H)
    (f : Frame (d.withRules rows) B) (quiet : f.pc ≠ .increment)
    (loops : ∀ observed, f.pc ≠ .tryIncrementCas observed) :
    f.historical.step i sh o = (f.step i sh o).map (Prod.map id Call.historical) := by
  obtain ⟨args, ao, bound, now, arrival, t0, pc⟩ := f
  cases pc with simp only [Frame.historical, Pc.historical, Frame.step]
  | acquireLoad | rtc | directSignal | gcDirect | claimLoad | decrementSub | gcFull | overflow
  | gc | signal | rollback => rfl
  | acquireCas =>
    refine ite_along Iff.rfl rfl ?_
    refine ite_along Iff.rfl ?_ ?_
    · exact ok_along (toOverload_historical off _ _)
    · rfl
  | overload =>
    refine ite_along Iff.rfl rfl ?_
    exact ok_along (toPolicy_historical off _ _)
  | policy =>
    refine ite_along Iff.rfl ?_ ?_
    · exact ok_along (toGate_historical off _ _)
    · rfl
  | reserve =>
    simp only [off.minArrival_eq, off.minArrival_withRules]
    refine ite_along Iff.rfl ?_ ?_
    · exact ok_along (toDirect_historical off _ _)
    · rfl
  | directAllowed | leaseState | dispatchDirect =>
    refine ite_along Iff.rfl rfl ?_
    exact ok_along (toStaging_historical off _ _)
  | hsm => cases o.hsm <;> rfl
  | releaseLease | releaseClaim | decrementLoad => exact asserted_along fun _ => rfl
  | pendingLoad => exact ite_along Iff.rfl rfl rfl
  | directWake | wake => cases sh.wakePending <;> rfl
  | commitDirect => cases arrival <;> rfl
  | increment => cases quiet rfl
  | tryIncrementCas observed => cases loops observed rfl
  | enqueue =>
    refine ok_along (goto_historical _ ?_)
    split
    · split <;> rfl
    · rfl
  | claimCas =>
    refine ite_along Iff.rfl rfl ?_
    exact ite_along Iff.rfl rfl rfl
  | push p =>
    simp only [Frame.slot, Frame.part, Frame.claim, Frame.cls, partition,
      withRules_cfg, withRules_ao]
    generalize B.pushStep _ _ p = result
    rcases result with ⟨q, p' | _ | _⟩
    · rfl
    · refine ok_along (goto_historical _ ?_)
      split <;> rfl
    · rfl
  | commitQueued => cases arrival <;> rfl
  | releaseSubmission r =>
    refine ok_along ?_
    split
    · rfl
    · exact leave_historical _ r
  | lastSignal r => exact ok_along (leave_historical _ r)

/-- The same choices, except that no compare-exchange fails spuriously. -/
def Oracle.calm (o : Oracle H) : Oracle H := { o with spurious := false }

theorem increment_step (off : Disabled d rows) {f : Frame d B}
    (here : f.pc = .increment) (below : sh.pending f.ao < 0xffff) :
    f.step i sh o = .ok (sh.setPending f.ao (next (sh.pending f.ao)),
      f.goto .enqueue) := by
  have checked : increment (sh.pending f.ao) =
      .ok (next (sh.pending f.ao)) := if_neg below.ne
  simp only [Frame.step, here, off.rules, checked]
  rfl

variable {f : Frame (d.withRules rows) B}

theorem load_step (here : f.pc = .increment) :
    f.step i sh o = .ok (sh, f.goto (.tryIncrementCas (sh.pending f.ao))) := by
  simp only [Frame.step, here, withRules_rules]

theorem cas_step (off : Disabled d rows) {i observed : Nat}
    (here : f.pc = .tryIncrementCas observed) (below : observed ≠ 0xffff) : f.step i sh o =
      if sh.pending f.ao = observed ∧ o.spurious = false then
        .ok (sh.setPending f.ao (next observed), f.goto .enqueue)
      else .ok (sh, f.goto (.tryIncrementCas (sh.pending f.ao))) := by
  have room : refuses 0 observed = false := by
    simp [refuses, below]
  simp [Frame.step, here, off.backlogCap_withRules, room]

theorem refused_step (here : f.pc = .tryIncrementCas 0xffff) :
    f.step i sh o =
      .ok (sh, f.goto (.gc ⟨⟨.RejectedFull, kBacklogFull⟩, backlogFull_rejected⟩)) := by
  simp [Frame.step, here, refuses]

variable {i : Nat} {o : Oracle H}

theorem historical_eq_increment {observed : Nat} (here : f.pc = .tryIncrementCas observed)
    (below : observed ≠ 0xffff) : f.historical.pc = .increment := by
  simp only [Frame.historical, here, Submit.Pc.historical, if_neg below]

theorem raised_historical (off : Disabled d rows)
    (here : f.pc = .tryIncrementCas (sh.pending f.ao)) (below : sh.pending f.ao < 0xffff)
    (calm : o'.spurious = false) :
    f.historical.step i sh o = (f.step i sh o').map (Prod.map id Call.historical) := by
  have ceiling := below.ne
  rw [cas_step off here ceiling, if_pos ⟨rfl, calm⟩,
    increment_step off (historical_eq_increment here ceiling) below]
  rfl

/-- The step leaves the submission where it is as far as the coordinator without rules can
tell, and its next one is the step of that coordinator. -/
def Submit.Frame.Stays (f : Frame (d.withRules rows) B) (i : Nat) (sh : Shared B H)
    (o : Oracle H) : Prop :=
  ∃ g : Frame (d.withRules rows) B, f.step i sh o = .ok (sh, .run g) ∧
    g.historical = f.historical ∧
    f.historical.step i sh o = (g.step i sh o.calm).map (Prod.map id Call.historical)

theorem reload_stays (off : Disabled d rows) (raising : f.historical.pc = .increment)
    (below : sh.pending f.ao < 0xffff)
    (stepped : f.step i sh o = .ok (sh, f.goto (.tryIncrementCas (sh.pending f.ao)))) :
    f.Stays i sh o := by
  have same : Frame.historical { f with pc := .tryIncrementCas (sh.pending f.ao) } =
      f.historical := by
    have before : f.pc.historical = .increment := raising
    have after : Pc.historical (.tryIncrementCas (sh.pending f.ao) : Pc B) = .increment :=
      if_neg below.ne
    simp only [Frame.historical, before, after]
  refine ⟨_, stepped, same, ?_⟩
  rw [← same]
  exact raised_historical off rfl below rfl

theorem refused_stays (here : f.pc = .tryIncrementCas 0xffff) : f.Stays i sh o := by
  refine ⟨_, refused_step here, ?_, ?_⟩
  · simp [Frame.historical, here, Pc.historical]
  · simp only [Frame.historical, here, Pc.historical, if_true, Frame.step]
    rfl

theorem Submit.step_matched (off : Disabled d rows) (f : Frame (d.withRules rows) B)
    (below : f.pc.raising = true → sh.pending f.ao < 0xffff) :
    f.historical.step i sh o = (f.step i sh o).map (Prod.map id Call.historical) ∨
      f.Stays i sh o := by
  by_cases loading : f.pc = .increment
  · have raising : f.historical.pc = .increment := by rw [Frame.historical, loading]; rfl
    exact .inr (reload_stays off raising (below (by rw [loading]; rfl)) (load_step loading))
  · by_cases looping : ∃ observed, f.pc = .tryIncrementCas observed
    · obtain ⟨observed, looping⟩ := looping
      by_cases ceiling : observed = 0xffff
      · cases ceiling
        exact .inr (refused_stays looping)
      · have below := below (by simp [looping, Pc.raising, ceiling])
        by_cases fresh : sh.pending f.ao = observed ∧ o.spurious = false
        · obtain ⟨rfl, calm⟩ := fresh
          exact .inl (raised_historical off looping below calm)
        · apply Or.inr
          apply reload_stays off (historical_eq_increment looping ceiling) below
          rw [cas_step off looping ceiling, if_neg fresh]
    · apply Or.inl
      exact Submit.step_historical off i o f loading fun observed here => looping ⟨observed, here⟩

end

/-! Whole runs. -/

/-- A submission that is about to raise its object's pending counter finds it below 65535. -/
def BelowCeiling : Label H → Sys d B H → Prop
  | .call i _, s =>
    ∀ f, s.calls[i]? = some (.run f) → f.pc.raising = true → s.shared.pending f.ao < 0xffff
  | _, _ => True

def BelowCeiling.test : Label H → Sys d B H → Bool
  | .call i _, s =>
    match s.calls[i]? with
    | some (.run f) => !f.pc.raising || decide (s.shared.pending f.ao < 0xffff)
    | _ => true
  | _, _ => true

theorem BelowCeiling.of_test (passed : test label s = true) : BelowCeiling label s := by
  cases label with
  | call =>
    intro f found raising
    simpa [test, found, raising] using passed
  | _ => exact trivial

/-- What a submission was called with, and its result once it has returned. -/
def Call.outcome (call : Call d B) : Args × Option SubmitResult :=
  (call.args, match call with
    | .done _ r => some r
    | _ => none)

/-- Queues, claim and pending counters, reference history, breakers, wake latch and token
are the same, and so are the submissions and their results. -/
structure Sys.Agrees {e : Deployment} (s : Sys d B H) (t : Sys e B H) : Prop where
  shared : s.shared = t.shared
  calls : s.calls.map Call.outcome = t.calls.map Call.outcome

section
variable {s : Sys (d.withRules rows) B H}

theorem agrees_historical (s : Sys (d.withRules rows) B H) : s.Agrees s.historical := by
  refine ⟨rfl, ?_⟩
  simp only [historical, List.map_map]
  refine List.map_congr_left fun call _ => ?_
  cases call <;> rfl

theorem suspended_historical (c : Caller) : s.historical.suspended c = s.suspended c := by
  simp only [suspended, historical, List.any_map]
  congr 1
  funext call
  cases call <;> rfl

theorem inHsm_historical (c : Caller) : s.historical.inHsm c = s.inHsm c := by
  cases c with
  | call i =>
    simp only [inHsm, historical, List.getElem?_map]
    rcases s.calls[i]? with _ | _ | f | _
    · rfl
    · rfl
    · obtain ⟨args, ao, bound, now, arrival, t0, pc⟩ := f
      cases pc <;> try rfl
      simp only [Option.map_some, Call.historical, Frame.historical, Submit.Pc.historical]
      split_ifs <;> rfl
    · rfl
  | dispatcher =>
    simp only [inHsm, historical]
    cases s.disp <;> rfl

theorem maySubmit_historical (c : Option Caller) : s.historical.maySubmit c = s.maySubmit c := by
  cases c with
  | none => rfl
  | some => simp only [maySubmit, inHsm_historical, suspended_historical]

variable {c : Call (d.withRules rows) B} {i : Nat}

theorem Call.step_matched (off : Disabled d rows) {o : Oracle H}
    (below : ∀ f, c = .run f → f.pc.raising = true → sh.pending f.ao < 0xffff) :
    c.historical.step i sh o = (c.step i sh o).map (Prod.map id Call.historical) ∨
      ∃ f, c = .run f ∧ f.Stays i sh o := by
  cases c with
  | refused => exact .inl rfl
  | done => exact .inl rfl
  | run f =>
    rcases Submit.step_matched off f (below f rfl) with same | stays
    · exact .inl same
    · exact .inr ⟨f, rfl, stays⟩

theorem getElem?_historical (found : s.calls[i]? = some c) :
    s.historical.calls[i]? = some c.historical := by
  simp [historical, found]

theorem call_historical (found : s.calls[i]? = some c)
    (same : c.historical.step i s.shared o = (c.step i s.shared o').map (Prod.map id Call.historical)) :
    step (.call i o) s.historical = (step (.call i o') s).map historical := by
  simp only [step, found, getElem?_historical found, suspended_historical]
  split
  · rfl
  · change Except.map _ (c.historical.step i s.shared o) = _
    rw [same]
    cases c.step i s.shared o' with
    | error => rfl
    | ok => simp [Except.map, historical, Prod.map, id]

theorem raising_historical (pc : Submit.Pc B) : pc.historical.raising = pc.raising := by
  cases pc with
  | tryIncrementCas observed =>
    simp only [Submit.Pc.historical, Submit.Pc.raising]
    by_cases ceiling : observed = 0xffff <;> simp [ceiling]
  | _ => rfl

variable {label : Label H}

theorem belowCeiling_historical : BelowCeiling label s.historical ↔ BelowCeiling label s := by
  cases label with
  | call =>
    constructor
    · intro below f found raising
      exact below f.historical (getElem?_historical found)
        ((raising_historical f.pc).trans raising)
    · intro below g found raising
      simp only [historical, List.getElem?_map, Option.map_eq_some_iff] at found
      obtain ⟨c, found, same⟩ := found
      cases c with
      | run f =>
        cases same
        exact below f found ((raising_historical f.pc).symm.trans raising)
      | refused => cases same
      | done => cases same
  | _ => exact Iff.rfl

theorem set_historical (found : s.calls[i]? = some (.run f)) (same : g.historical = f.historical) :
    historical { s with calls := s.calls.set i (.run g) } = s.historical := by
  obtain ⟨bound, here⟩ := List.getElem?_eq_some_iff.mp (getElem?_historical found)
  have kept : (s.calls.map Call.historical).set i (.run f.historical) =
      s.calls.map Call.historical := by
    rw [show Call.run f.historical = _ from here.symm]
    exact List.set_getElem_self bound
  simp [historical, Call.historical, same, kept]

/-- The step is the one of the coordinator without rules, or is not visible there and
another step of the same submission follows it that is. -/
theorem Sys.step_matched (off : Disabled d rows) (below : BelowCeiling label s) :
    step label s.historical = (step label s).map historical ∨
    ∃ label' s', step label s = .ok s' ∧ s'.historical = s.historical ∧
      BelowCeiling label' s' ∧
      step label s.historical = (step label' s').map historical := by
  cases label with
  | submit =>
    apply Or.inl
    simp only [step, maySubmit_historical]
    split
    · simp [Except.map, historical, enter_historical]
    · rfl
  | call i o =>
    cases found : s.calls[i]? with
    | none =>
      apply Or.inl
      simp only [step, historical, List.getElem?_map, found]
      rfl
    | some c =>
      rcases Call.step_matched off fun f run => below f (run ▸ found) with same | ⟨f, rfl, stays⟩
      · exact .inl (call_historical found same)
      · obtain ⟨g, stepped, same, next⟩ := stays
        cases suspended : s.suspended (.call i) with
        | true =>
          apply Or.inl
          simp only [step, found, getElem?_historical found, suspended_historical, suspended]
          rfl
        | false =>
          have placed : (s.calls.set i (.run g))[i]? = some (.run g) :=
            List.getElem?_set_self (List.getElem?_eq_some_iff.mp found).1
          have unseen := set_historical found same
          refine .inr ⟨.call i o.calm, { s with calls := s.calls.set i (.run g) }, ?_, unseen,
            ?_, ?_⟩
          · simp only [step, found, suspended, Call.step, stepped]
            rfl
          · apply belowCeiling_historical.mp
            rw [unseen]
            exact belowCeiling_historical.mpr below
          · rw [← unseen]
            apply call_historical placed
            rw [Call.historical, same]
            exact next
  | dispatcher o =>
    apply Or.inl
    simp only [step, suspended_historical]
    split
    · rfl
    · have same := Dispatch.step_historical s.shared o s.disp
      simp only [historical, same]
      cases s.disp.step s.shared o <;> rfl
  | requestStop => exact .inl rfl
  | stopper i =>
    apply Or.inl
    simp only [step, historical]
    cases s.stoppers[i]? with
    | none => rfl
    | some t =>
      dsimp only
      cases t.step s.shared <;> rfl
  | breaker => exact .inl rfl

theorem step_forth (off : Disabled d rows) {s s' : Sys (d.withRules rows) B H}
    (related : s.historical = t) (below : BelowCeiling label s) (stepped : step label s = .ok s') :
    ∃ labels t', labels.Sublist [label] ∧ Run step BelowCeiling labels t t' ∧
      s'.historical = t' := by
  cases related
  rcases step_matched off below with same | ⟨_, s'', stayed, unseen, _⟩
  · rw [stepped] at same
    exact ⟨[label], _, .refl _, .one (belowCeiling_historical.mpr below) same, rfl⟩
  · cases Except.ok.inj (stepped.symm.trans stayed)
    exact ⟨[], _, List.nil_sublist _, .nil _, unseen⟩

theorem step_back (off : Disabled d rows) {s : Sys (d.withRules rows) B H}
    (related : s.historical = t) (below : BelowCeiling label t) (stepped : step label t = .ok t') :
    ∃ labels s', [label].Sublist labels ∧ Run step BelowCeiling labels s s' ∧
      s'.historical = t' := by
  cases related
  have below := belowCeiling_historical.mp below
  rcases step_matched off below with same | ⟨label', s', stayed, _, below', same⟩
  · obtain ⟨u, moved, related⟩ := map_ok (same.symm.trans stepped)
    exact ⟨[label], u, .refl _, .one below moved, related⟩
  · obtain ⟨u, moved, related⟩ := map_ok (same.symm.trans stepped)
    refine ⟨[label, label'], u, ?_, .cons below stayed (.one below' moved), related⟩
    exact List.Sublist.cons_cons label (List.nil_sublist _)

end

/-- Disabled admission is the historical path. Take a coordinator whose rules limit no
target and one without admission, in the same state. Every run of either, in which no
submission meets a pending counter at its ceiling, is a run of the other with the same
submissions and the same choices, up to the retries of the pending reservation, and it
leaves the same shared state and the same results. -/
theorem disabled_admission_is_historical (off : Disabled d rows) (s : Sys (d.withRules rows) B H) :
    (∀ labels s', Run step BelowCeiling labels s s' →
      ∃ fewer t, fewer.Sublist labels ∧ Run step BelowCeiling fewer s.historical t ∧
        s'.Agrees t) ∧
    (∀ labels t, Run step BelowCeiling labels s.historical t →
      ∃ more s', labels.Sublist more ∧ Run step BelowCeiling more s s' ∧ s'.Agrees t) := by
  constructor
  · intro labels s' ran
    obtain ⟨fewer, _, part, ran', rfl⟩ := ran.matched
      (R := fun s (t : Sys d B H) => s.historical = t)
      (Q := fun a b => b.Sublist a) .slnil .append (step_forth off) rfl
    exact ⟨fewer, _, part, ran', agrees_historical s'⟩
  · intro labels t ran
    obtain ⟨more, s', part, ran', rfl⟩ := ran.matched
      (R := fun t (s : Sys (d.withRules rows) B H) => s.historical = t)
      (Q := List.Sublist) .slnil .append (step_back off) rfl
    exact ⟨more, s', part, ran', agrees_historical s'⟩

/-- A row that leaves both limits unset. -/
def unlimitedRow : TargetAdmission := ⟨⟨1⟩, 0, 0⟩

theorem unlimitedRow_disabled : Disabled singleAo [unlimitedRow] where
  rules := rfl
  limits target := by simp [StaticAdmission.limitsFor, unlimitedRow]

/-- An ISR submission whose first attempt on the pending counter fails spuriously. -/
def retriedSchedule : List (Label Nat) :=
  Label.submit { target := ⟨1⟩, event := 7, fromIsr := true } ::
    List.replicate 4 (.call 0 {}) ++ .call 0 { spurious := true } :: List.replicate 11 (.call 0 {})

def retriedState : Sys (singleAo.withRules [unlimitedRow])
    (QueueBackend.BoundedMpscQueue.impl StagingSlot) Nat :=
  runOf (singleAo.withRules [unlimitedRow]) _ (fun _ => 0) retriedSchedule

theorem disabled_admission_is_historical_retried :
    retriedState.calls.map Call.outcome =
      [({ target := ⟨1⟩, event := 7, fromIsr := true }, some ⟨.Queued, 0⟩)] ∧
    ∃ fewer t, fewer.Sublist retriedSchedule ∧
      Run step BelowCeiling fewer (initial singleAo _ fun _ => 0) t ∧
      retriedState.Agrees t := by
  refine ⟨by decide +kernel, ?_⟩
  apply (disabled_admission_is_historical unlimitedRow_disabled (initial _ _ fun _ => 0)).1
  exact run_passes (fun _ _ => BelowCeiling.of_test)
    (by decide +kernel : passes BelowCeiling.test step retriedSchedule _ = true)

end Coact
