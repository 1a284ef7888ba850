import Coact.Pipeline.State

/-! `submit_internal` and `Staging::enqueue` (`coordinator.hpp`, `staging.hpp`),
one shared access per step. Monitor bookkeeping is left out: nothing in the
pipeline reads it. A call is numbered by its submission. -/
namespace Coact

/-- Who issued a submission: `none` at top level, otherwise the HSM dispatch
that re-entered the coordinator. -/
inductive Caller where
  | call (i : Nat)
  | dispatcher
  deriving DecidableEq, Repr

structure Args where
  target : TargetId
  event : Nat
  critical : Bool := false
  admission : StagingAdmission := .Ordinary
  fromIsr : Bool := false
  caller : Option Caller := none
  deriving DecidableEq, Repr

/-- The results under which the call itself has released the reference. -/
abbrev Rejected := { r : SubmitResult // r.disposition ≠ .Queued }

namespace Submit

inductive Pc (B : Backend StagingSlot) where
  | acquireLoad
  | acquireCas (observed : Nat)
  | overload
  | policy
  | reserve
  | directAllowed
  | leaseState
  | dispatchDirect
  | hsm
  | releaseLease
  | rtc
  | pendingLoad
  | directWake
  | directSignal
  | gcDirect
  | commitDirect
  | increment
  | tryIncrementCas (observed : Nat)
  | enqueue
  | claimLoad
  | claimCas (observed : Nat)
  | push (p : B.Push)
  | releaseClaim
  | decrementLoad
  | decrementSub
  | gcFull
  | overflow
  | gc (r : Rejected)
  | commitQueued
  | wake
  | signal
  | releaseSubmission (r : SubmitResult)
  | lastSignal (r : SubmitResult)
  | rollback (r : SubmitResult)

/-- A call past C1: the target is bound to `ao`. `now` is the cached clock
sample and `arrival` the timestamp of a live arrival reservation. -/
structure Frame (d : Deployment) (B : Backend StagingSlot) where
  args : Args
  ao : AoId
  bound : d.lookup args.target = some ao
  now : Option Nat
  arrival : Option Nat
  t0 : Nat
  pc : Pc B

end Submit
open Submit

inductive Call (d : Deployment) (B : Backend StagingSlot) where
  | refused (args : Args)
  | run (f : Frame d B)
  | done (args : Args) (r : SubmitResult)

variable {d : Deployment} {B : Backend StagingSlot} {H : Type}

def Call.args : Call d B → Args
  | .refused args => args
  | .run f => f.args
  | .done args _ => args

def Call.active : Call d B → Bool
  | .done _ _ => false
  | _ => true

/-- C1 and the admission lane, which read no mutable state. -/
def Call.enter (d : Deployment) (B : Backend StagingSlot) (args : Args) : Call d B :=
  match bound : d.lookup args.target with
  | none => .refused args
  | some ao =>
    if Staging.admissionValid d.cfg (d.ao ao).priorityClass args.admission then
      .run ⟨args, ao, bound, none, none, 0, .acquireLoad⟩
    else .refused args

namespace Submit.Frame
variable (f : Frame d B)

def goto (pc : Pc B) : Call d B := .run { f with pc := pc }

/-- The sample `now_ns` is taken once, where it is first needed. -/
def sample (clock : Nat) : Frame d B := { f with now := some (f.now.getD clock) }

def breaker : Nat := d.targetBreaker f.args.target
def cls : PriorityClass := (d.ao f.ao).priorityClass
def part : Partition := d.partition f.ao
def valid : Bool := Staging.admissionValid d.cfg f.cls f.args.admission
def claim : ReservationClaim := Staging.classifyClaim d.cfg f.cls f.args.critical f.args.admission
def limit : Nat := Staging.claimLimit d.cfg f.claim

def slot (i : Nat) : StagingSlot :=
  ⟨f.args.target, f.claim, f.args.event, f.now.getD 0 % 2 ^ 32, i⟩

def toStaging (clock : Nat) : Call d B :=
  let sampled := f.now = none ∧ (f.cls = .Low ∨ d.backlogCap f.args.target ≠ 0)
  (if sampled then f.sample clock else f).goto .increment

def toDirect (clock : Nat) : Call d B :=
  if f.args.fromIsr = false ∧ (d.ao f.ao).directEligible = true then f.goto .directAllowed
  else f.toStaging clock

def toGate (clock : Nat) : Call d B :=
  if d.minArrival f.args.target ≠ 0 then f.goto .reserve else f.toDirect clock

def toPolicy (clock : Nat) : Call d B :=
  if d.policyOps then f.goto .policy else f.toGate clock

def toOverload (clock : Nat) : Call d B :=
  if f.args.critical then f.toPolicy clock else f.goto .overload

/-- `arrival.commit()`. -/
def commit (sh : Shared B H) : Shared B H :=
  match f.arrival with
  | none => sh
  | some now =>
    sh.onGate (d.gateFor f.args.target) ((sh.gate (d.gateFor f.args.target)).commit now)

def rollback (sh : Shared B H) : Shared B H :=
  sh.onGate (d.gateFor f.args.target) (sh.gate (d.gateFor f.args.target)).rollback

/-- The destructor of `arrival` after the one of the submission lease. -/
def leave (r : SubmitResult) : Call d B :=
  match f.arrival with
  | none => .done f.args r
  | some _ => f.goto (.rollback r)

end Submit.Frame

/-- One access of `submit_internal`, from the submission lease on. -/
def Submit.Frame.step (f : Frame d B) (i : Nat) (sh : Shared B H) (o : Oracle H) :
    Except Halt (Shared B H × Call d B) :=
  let now := f.now.getD o.clock
  match f.pc with
  | .acquireLoad => .ok (sh, f.goto (.acquireCas sh.admission))
  | .acquireCas observed =>
    if Staging.acquireRefused observed then .ok (sh, .refused f.args)
    else if sh.admission = observed ∧ o.spurious = false then
      .ok (sh.setAdmission (Staging.acquired observed), f.toOverload o.clock)
    else .ok (sh, f.goto (.acquireCas sh.admission))
  | .overload =>
    if Breaker.dropNonCritical (sh.breaker f.breaker) then
      .ok (sh, f.goto (.gc ⟨⟨.DroppedOverload, 0⟩, by decide⟩))
    else .ok (sh, f.toPolicy o.clock)
  | .policy =>
    if o.accept then .ok (sh.record (.read i), (f.sample o.clock).toGate o.clock)
    else
      .ok (sh.record (.read i), (f.sample o.clock).goto
        (.gc ⟨⟨if o.reason ≠ 0 then .DroppedRateLimit else .DroppedPolicy, o.reason⟩,
          by split <;> simp⟩))
  | .reserve =>
    let (gate, admitted) :=
      (sh.gate (d.gateFor f.args.target)).tryReserve now (d.minArrival f.args.target)
    if admitted then
      .ok (sh.onGate (d.gateFor f.args.target) gate,
        { f.sample o.clock with arrival := some now }.toDirect o.clock)
    else .ok (sh, (f.sample o.clock).goto (.gc ⟨⟨.DroppedRateLimit, kArrivalTooSoon⟩, by decide⟩))
  | .directAllowed =>
    if Breaker.directAllowed f.args.target (sh.breaker f.breaker) then .ok (sh, f.goto .leaseState)
    else .ok (sh, f.toStaging o.clock)
  | .leaseState =>
    if sh.lease f.ao = .Idle then .ok (sh, { f with t0 := o.clock }.goto .dispatchDirect)
    else .ok (sh, f.toStaging o.clock)
  | .dispatchDirect =>
    let (state, taken) := ExecutionLease.tryAcquire .RunningDirect (sh.lease f.ao)
    if taken then .ok ((sh.setLease f.ao state).record (.handed .call f.ao i), f.goto .hsm)
    else .ok (sh, f.toStaging o.clock)
  | .hsm =>
    match o.hsm with
    | some state => .ok ((sh.setHsm f.ao state).record (.read i), f.goto .hsm)
    | none => .ok (sh, f.goto .releaseLease)
  | .releaseLease =>
    asserted (ExecutionLease.release .RunningDirect (sh.lease f.ao)) fun state =>
      (sh.setLease f.ao state, f.goto .rtc)
  | .rtc =>
    .ok (sh.onBreaker f.breaker
      (if (d.ao f.ao).rtcBudgetNs < o.clock - f.t0 then Breaker.onDirectTimeout d.cfg
        else Breaker.onRtcOk), f.goto .pendingLoad)
  | .pendingLoad =>
    if 0 < sh.pending f.ao then .ok (sh, f.goto .directWake) else .ok (sh, f.goto .gcDirect)
  | .directWake => .ok (sh.latch, f.goto (if sh.wakePending then .gcDirect else .directSignal))
  | .directSignal => .ok (sh.signal, f.goto .gcDirect)
  | .gcDirect => .ok (sh.record (.released .call i), f.goto .commitDirect)
  | .commitDirect => .ok (f.commit sh, { f with arrival := none }.goto (.releaseSubmission ⟨.Direct, 0⟩))
  -- The unconditional add is compiled in only without admission rules.
  | .increment =>
    match d.rules with
    | none => asserted (PendingCounter.increment (sh.pending f.ao)) fun count =>
        (sh.setPending f.ao count, f.goto .enqueue)
    | some _ => .ok (sh, f.goto (.tryIncrementCas (sh.pending f.ao)))
  | .tryIncrementCas observed =>
    if PendingCounter.refuses (d.backlogCap f.args.target) observed then
      .ok (sh, f.goto (.gc ⟨⟨.RejectedFull, kBacklogFull⟩, by decide⟩))
    else if sh.pending f.ao = observed ∧ o.spurious = false then
      .ok (sh.setPending f.ao (PendingCounter.next observed), f.goto .enqueue)
    else .ok (sh, f.goto (.tryIncrementCas (sh.pending f.ao)))
  | .enqueue =>
    .ok (sh, f.goto (if f.valid then (if f.claim = .None then .push B.tryPush else .claimLoad)
      else .decrementLoad))
  | .claimLoad => .ok (sh, f.goto (.claimCas (sh.claims f.claim)))
  | .claimCas observed =>
    if f.limit ≤ observed then .ok (sh, f.goto .decrementLoad)
    else if sh.claims f.claim = observed ∧ o.spurious = false then
      .ok (sh.setClaims f.claim (observed + 1), f.goto (.push B.tryPush))
    else .ok (sh, f.goto (.claimCas (sh.claims f.claim)))
  | .push p =>
    match B.pushStep (f.slot i) (sh.queue f.part) p with
    | (q, .inl p') => .ok (sh.setQueue f.part q, f.goto (.push p'))
    | (q, .inr true) =>
      .ok ((sh.setQueue f.part q).record (.published f.ao i), f.goto .commitQueued)
    | (q, .inr false) =>
      .ok (sh.setQueue f.part q, f.goto (if f.claim = .None then .decrementLoad else .releaseClaim))
  | .releaseClaim =>
    asserted (Staging.releaseClaimCounter (sh.claims f.claim)) fun count =>
      (sh.setClaims f.claim count, f.goto .decrementLoad)
  | .decrementLoad =>
    asserted (PendingCounter.decrementCheck (sh.pending f.ao)) fun _ => (sh, f.goto .decrementSub)
  | .decrementSub =>
    .ok (sh.setPending f.ao (PendingCounter.decrementSub (sh.pending f.ao)), f.goto .gcFull)
  | .gcFull => .ok (sh.record (.released .call i), f.goto .overflow)
  | .overflow =>
    .ok (sh.onBreaker f.breaker (Breaker.onOverflow d.cfg),
      f.goto (.releaseSubmission ⟨.RejectedFull, 0⟩))
  | .gc r => .ok (sh.record (.released .call i), f.goto (.releaseSubmission r.1))
  | .commitQueued => .ok (f.commit sh, { f with arrival := none }.goto .wake)
  | .wake =>
    .ok (sh.latch, f.goto (if sh.wakePending then .releaseSubmission ⟨.Queued, 0⟩ else .signal))
  | .signal => .ok (sh.signal, f.goto (.releaseSubmission ⟨.Queued, 0⟩))
  | .releaseSubmission r =>
    .ok (sh.setAdmission (Staging.releaseSubmission sh.admission),
      if Staging.lastAfterClose sh.admission then f.goto (.lastSignal r) else f.leave r)
  | .lastSignal r => .ok (sh.signal, f.leave r)
  | .rollback r => .ok (f.rollback sh, .done f.args r)

/-- One step of call `i`. A refused submission releases its reference and
returns without having taken a lease. -/
def Call.step (i : Nat) (sh : Shared B H) (o : Oracle H) :
    Call d B → Except Halt (Shared B H × Call d B)
  | .refused args => .ok (sh.record (.released .call i), .done args ⟨.RejectedState, 0⟩)
  | .run f => f.step i sh o
  | .done _ _ => .error .disabled

end Coact
