import Coact.Pipeline.Submit

/-! `Dispatcher::run`, `try_dispatch_slot`, `drain_queued_on_stop` and
`Staging::dequeue_one`, one shared access per step. A program counter carries
the locals that are live there: a slot in hand or deferred is part of it, so a
program point that processes a slot always has one. Reclaim batching is left to
the pool model; here a reference is released where `reclaim.release` is called. -/
namespace Coact.Dispatch

/-- The two callers of `dequeue_one`, with their locals. -/
inductive Ctx where
  | batch (any : Bool)
  | drain (now : Nat) (released : Bool)

/-- The callers of `try_dispatch_slot`: the retry at the loop head, the batch,
and the retry before the bounded wait. -/
inductive Site where
  | top | batch | retry

/-- The two places that release a slot without dispatch on stop. -/
inductive StopSite where
  | final
  | drain (now : Nat)

inductive Visit where
  | dispatch (k : Site)
  | stop (k : StopSite)

inductive Pc (d : Deployment) (B : Backend StagingSlot) where
  | loopTop (deferred : Option StagingSlot)
  | armTop (v : StagingSlot)
  | acquire (k : Site) (b : BoundSlot d)
  | hsm (k : Site) (b : BoundSlot d) (t0 : Nat)
  | releaseLease (k : Site) (b : BoundSlot d) (t0 : Nat)
  | rtc (k : Site) (b : BoundSlot d) (t0 : Nat)
  | decrementLoad (k : Visit) (b : BoundSlot d)
  | decrementSub (k : Visit) (b : BoundSlot d)
  | cycle (k : Site) (b : BoundSlot d)
  | reclaim (k : Visit) (v : StagingSlot)
  | timedWait (v : StagingSlot)
  | stopTest (any : Bool)
  | ready (c : Ctx) (p : Partition) (r : B.Ready)
  | select (c : Ctx) (todo : List Operand) (ops : Operands)
  | count (c : Ctx) (todo : List Operand) (ops : Operands) (p : Partition) (r : B.Ready)
  | aging (c : Ctx) (todo : List Operand) (ops : Operands) (r : B.Front)
  | pop (c : Ctx) (p : Partition) (r : B.Pop)
  | releaseClaim (c : Ctx) (v : StagingSlot)
  | stopCheck (deferred : Option StagingSlot) (any : Bool)
  | armRetry (v : StagingSlot)
  | idleCycle (k : Nat)
  | armIdle
  | idleReady (p : Partition) (r : B.Ready)
  | idleWait
  | drainLoop (again : Bool) (now : Nat)
  | drainSize (again : Bool) (now : Nat) (p : Partition) (r : B.Size)
  | drainIdle (again : Bool) (now : Nat)
  | drainWait (now : Nat)
  | returned

variable {d : Deployment} {B : Backend StagingSlot} {H : Type}

/-- The entry of `try_dispatch_slot`: an unbound target is only released. -/
def tryDispatchSlot (k : Site) (v : StagingSlot) : Pc d B :=
  match bound : d.lookup v.target with
  | none => .reclaim (.dispatch k) v
  | some ao => .acquire k ⟨v, ao, bound⟩

/-- The stop paths release without dispatch. -/
def dropSlot (k : StopSite) (v : StagingSlot) : Pc d B :=
  match bound : d.lookup v.target with
  | none => .reclaim (.stop k) v
  | some ao => .decrementLoad (.stop k) ⟨v, ao, bound⟩

/-- `try_dispatch_slot` returns false. -/
def retained (v : StagingSlot) : Site → Pc d B
  | .top => .timedWait v
  | .batch => .stopCheck (some v) true
  | .retry => .timedWait v

/-- The outcome of `any_buffered() || !submissions_idle()` when something is
left; `again` marks the check before the bounded wait of the drain. -/
def drainLeft (again : Bool) (now : Nat) (sh : Shared B H) : Shared B H × Pc d B :=
  if again then (sh, .drainWait now) else drainMore { sh with batchUsed := 0 } now false
where
  /-- The head of the inner loop. -/
  drainMore (sh : Shared B H) (now : Nat) (released : Bool) : Shared B H × Pc d B :=
    if sh.batchUsed < d.cfg.kBatchSizeMax then
      ({ sh with nowNs := some now }, .ready (.drain now released) .High B.hasReady)
    else (sh, .drainLoop (!released) now)

/-- After the release of the slot. -/
def finished (sh : Shared B H) (clock : Nat) : Visit → Shared B H × Pc d B
  | .dispatch .top => (sh, .stopTest true)
  | .dispatch .batch => (sh, .stopTest true)
  | .dispatch .retry => (sh, .loopTop none)
  | .stop .final => (sh, .drainLoop false clock)
  | .stop (.drain now) => drainLeft.drainMore sh now true

/-- `dequeue_one` returns false. -/
def noSlot : Ctx → Pc d B
  | .batch any => .stopCheck none any
  | .drain now released => .drainLoop (!released) now

/-- `dequeue_one` returns a slot. -/
def gotSlot (v : StagingSlot) : Ctx → Pc d B
  | .batch _ => tryDispatchSlot .batch v
  | .drain now _ => dropSlot (.drain now) v

/-- `wait_dispatcher`: consumes the token; a bounded wait may also time out. -/
def waitDispatcher (timeoutMs : Nat) (timeout : Bool) (sh : Shared B H) :
    Except Halt (Shared B H) :=
  if sh.token ∨ timeoutMs ≠ 0 ∧ timeout then .ok { sh with token := false }
  else .error .disabled

/-- One access of the Dispatcher thread. -/
def Pc.step (sh : Shared B H) (o : Oracle H) : Pc d B → Except Halt (Shared B H × Pc d B)
  | .loopTop deferred =>
    match sh.stop, deferred with
    | true, some v => .ok (sh, dropSlot .final v)
    | true, none => .ok (sh, .drainLoop false o.clock)
    | false, some v => .ok ({ sh with batchUsed := 0 }, .armTop v)
    | false, none => .ok ({ sh with batchUsed := 0 }, .stopTest false)
  | .armTop v => .ok (sh.arm, tryDispatchSlot .top v)
  | .acquire k b =>
    let (state, taken) := ExecutionLease.tryAcquire .RunningDispatcher (sh.lease b.ao)
    if taken then
      .ok ((sh.setLease b.ao state).record (.handed .dispatcher b.ao b.slot.sub), .hsm k b o.clock)
    else .ok (sh, retained b.slot k)
  | .hsm k b t0 =>
    match o.hsm with
    | some state => .ok ((sh.setHsm b.ao state).record (.read b.slot.sub), .hsm k b t0)
    | none => .ok (sh, .releaseLease k b t0)
  | .releaseLease k b t0 =>
    asserted (ExecutionLease.release .RunningDispatcher (sh.lease b.ao)) fun state =>
      (sh.setLease b.ao state, .rtc k b t0)
  | .rtc k b t0 =>
    .ok (sh.onBreaker (d.targetBreaker b.slot.target)
      (if (d.ao b.ao).rtcBudgetNs < o.clock - t0 then Breaker.onDispatcherRtcTimeout d.cfg
        else Breaker.onRtcOk), .decrementLoad (.dispatch k) b)
  | .decrementLoad k b =>
    asserted (PendingCounter.decrementCheck (sh.pending b.ao)) fun _ => (sh, .decrementSub k b)
  | .decrementSub k b =>
    let sh := sh.setPending b.ao (PendingCounter.decrementSub (sh.pending b.ao))
    match k with
    | .dispatch k => .ok (sh, .cycle k b)
    | .stop k => .ok (sh.record (.dropped b.ao b.slot.sub), .reclaim (.stop k) b.slot)
  | .cycle k b =>
    .ok (sh.onBreaker (d.targetBreaker b.slot.target) Breaker.onDispatchCycle,
      .reclaim (.dispatch k) b.slot)
  | .reclaim k v => .ok (finished (sh.record (.released .dispatcher v.sub)) o.clock k)
  | .timedWait v =>
    (waitDispatcher d.cfg.kBatchTimeoutMs o.timeout sh).map (·, .loopTop (some v))
  | .stopTest any =>
    if sh.stop then .ok (sh, .stopCheck none any)
    else if sh.batchUsed < d.cfg.kBatchSizeMax then
      .ok ({ sh with nowNs := some o.clock }, .ready (.batch any) .High B.hasReady)
    else .ok (sh, .stopCheck none any)
  | .ready c p r =>
    match B.readyStep (sh.queue p) r with
    | .inl r' => .ok (sh, .ready c p r')
    | .inr true => .ok (sh, .select c d.operands {})
    | .inr false =>
      match next p with
      | some p' => .ok (sh, .ready c p' B.hasReady)
      | none => .ok (sh, noSlot c)
  | .select c todo ops =>
    match todo with
    | .count p :: rest => .ok (sh, .count c rest ops p B.hasReady)
    | .aging :: rest => .ok (sh, .aging c rest ops B.front)
    | [] =>
      match Staging.select ops.high ops.normal ops.low ops.aged sh.batchUsed
          d.cfg.kBatchSizeMax with
      | some p => .ok (sh, .pop c p B.tryPop)
      | none => .ok (sh, noSlot c)
  | .count c todo ops p r =>
    match B.readyStep (sh.queue p) r with
    | .inl r' => .ok (sh, .count c todo ops p r')
    | .inr b => .ok (sh, .select c todo (ops.setCount p b))
  | .aging c todo ops r =>
    match B.frontStep (sh.queue .Low) r with
    | .inl r' => .ok (sh, .aging c todo ops r')
    | .inr head =>
      .ok (sh, .select c todo { ops with
        aged := match sh.nowNs, head with
          | some now, some v => Staging.aged d.cfg now v.enqueueNs
          | _, _ => false })
  | .pop c p r =>
    match B.popStep (sh.queue p) r with
    | (q, .inl r') => .ok (sh.setQueue p q, .pop c p r')
    | (q, .inr none) => .ok (sh.setQueue p q, noSlot c)
    | (q, .inr (some v)) => .ok ((sh.setQueue p q).record (.dequeued v.sub), .releaseClaim c v)
  | .releaseClaim c v =>
    if v.claim = .None then .ok ({ sh with batchUsed := (sh.batchUsed + 1) % 2 ^ 8 }, gotSlot v c)
    else asserted (Staging.releaseClaimCounter (sh.claims v.claim)) fun count =>
      ({ sh.setClaims v.claim count with batchUsed := (sh.batchUsed + 1) % 2 ^ 8 }, gotSlot v c)
  | .stopCheck deferred any =>
    match sh.stop, deferred with
    | true, some v => .ok (sh, dropSlot .final v)
    | true, none => .ok (sh, .drainLoop false o.clock)
    | false, some v => .ok (sh, .armRetry v)
    | false, none => .ok (sh, if any then .loopTop none else .idleCycle 0)
  | .armRetry v => .ok (sh.arm, tryDispatchSlot .retry v)
  | .idleCycle k =>
    if k < d.breakerCount then .ok (sh.onBreaker k Breaker.onDispatchCycle, .idleCycle (k + 1))
    else .ok (sh, .armIdle)
  | .armIdle => .ok (sh.arm, .idleReady .High B.hasReady)
  | .idleReady p r =>
    match B.readyStep (sh.queue p) r with
    | .inl r' => .ok (sh, .idleReady p r')
    | .inr true => .ok (sh, .loopTop none)
    | .inr false =>
      match next p with
      | some p' => .ok (sh, .idleReady p' B.hasReady)
      | none => .ok (sh, .idleWait)
  | .idleWait => (waitDispatcher 0 o.timeout sh).map (·, .loopTop none)
  | .drainLoop again now => .ok (sh, .drainSize again now .High B.size)
  | .drainSize again now p r =>
    match B.sizeStep (sh.queue p) r with
    | .inl r' => .ok (sh, .drainSize again now p r')
    | .inr 0 =>
      match next p with
      | some p' => .ok (sh, .drainSize again now p' B.size)
      | none => .ok (sh, .drainIdle again now)
    | .inr (_ + 1) => .ok (drainLeft again now sh)
  | .drainIdle again now =>
    if Staging.submissionsIdle sh.admission then
      .ok (sh, if again then .drainLoop false now else .returned)
    else .ok (drainLeft again now sh)
  | .drainWait now =>
    (waitDispatcher d.cfg.kBatchTimeoutMs o.timeout sh).map (·, .drainLoop false now)
  | .returned => .error .disabled

end Coact.Dispatch
