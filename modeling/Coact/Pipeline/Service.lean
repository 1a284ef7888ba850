import Coact.Pipeline.Submission

/-! What the Dispatcher holds and which part of its loop it is in, abstracted
from its program counter, and the moves between these. `Pc.step_serves` says
once what a step of the Dispatcher thread can do. -/
namespace Coact
open Foundation Dispatch

variable {d : Deployment} {B : Backend StagingSlot} {H : Type}

/-- The slot in the Dispatcher's hands. `handled` is dispatched with its pending
decrement outstanding, `paid` is past the decrement with its reference still to
be released. -/
inductive Custody (d : Deployment) (B : Backend StagingSlot) where
  | free
  | popping (p : Partition) (r : B.Pop)
  | holding (v : StagingSlot)
  | running (b : BoundSlot d)
  | handled (b : BoundSlot d)
  | paid (v : StagingSlot)

/-- `armed` and `asleep` are the idle branch after `arm_dispatcher_wait`;
`checking` is the exit test of the drain. -/
inductive Mode (B : Backend StagingSlot) where
  | serving
  | resting
  | armed (p : Partition) (r : B.Ready)
  | asleep
  | draining
  | checking (p : Partition) (r : B.Size)
  | checkingIdle
  | returned

def Custody.deferred : Option StagingSlot → Custody d B
  | none => .free
  | some v => .holding v

def Dispatch.Pc.custody : Pc d B → Custody d B
  | .loopTop deferred | .stopCheck deferred _ => .deferred deferred
  | .armTop v | .timedWait v | .releaseClaim _ v | .armRetry v => .holding v
  | .acquire _ b => .holding b.slot
  | .hsm _ b _ | .releaseLease _ b _ => .running b
  | .rtc _ b _ => .handled b
  | .decrementLoad (.dispatch _) b | .decrementSub (.dispatch _) b => .handled b
  | .decrementLoad (.stop _) b | .decrementSub (.stop _) b => .holding b.slot
  | .cycle _ b => .paid b.slot
  | .reclaim _ v => if d.lookup v.target = none then .holding v else .paid v
  | .pop _ p r => .popping p r
  | _ => .free

def Dispatch.Ctx.mode : Ctx → Mode B
  | .batch _ => .serving
  | .drain _ _ => .draining

def Dispatch.Visit.mode : Visit → Mode B
  | .dispatch _ => .serving
  | .stop _ => .draining

def Dispatch.Pc.mode : Pc d B → Mode B
  | .decrementLoad k _ | .decrementSub k _ | .reclaim k _ => k.mode
  | .ready c _ _ | .select c _ _ | .count c _ _ _ _ | .aging c _ _ _ | .pop c _ _
  | .releaseClaim c _ => c.mode
  | .idleCycle _ | .armIdle => .resting
  | .idleReady p r => .armed p r
  | .idleWait => .asleep
  | .drainSize false _ p r => .checking p r
  | .drainIdle false _ => .checkingIdle
  | .drainLoop _ _ | .drainSize true _ _ _ | .drainIdle true _ | .drainWait _ => .draining
  | .returned => .returned
  | _ => .serving

/-- The fields only the Dispatcher uses, and those no property depends on. -/
def Shared.own (sh : Shared B H) (claims : ReservationClaim → Nat)
    (breaker : Nat → Breaker.State) (batchUsed : Nat) (nowNs : Option Nat) : Shared B H :=
  { sh with claims := claims, breaker := breaker, batchUsed := batchUsed, nowNs := nowNs }

/-- The loop parts in which slots are dequeued. -/
def Mode.dequeues (m : Mode B) : Prop := m = .serving ∨ m = .draining

/-- The moves of the Dispatcher thread. -/
inductive Serves (d : Deployment) :
    Shared B H → Custody d B → Mode B → Shared B H → Custody d B → Mode B → Prop where
  | quiet (sh cu m c b n t) : Serves d sh cu m (sh.own c b n t) cu m
  | arm (sh cu) : Serves d sh cu .serving sh.arm cu .serving
  | popStart (sh m p) : m.dequeues → Serves d sh .free m sh (.popping p B.tryPop) m
  | popNext (sh m p r q r') : B.popStep (sh.queue p) r = (q, .inl r') →
      Serves d sh (.popping p r) m (sh.setQueue p q) (.popping p r') m
  | popNone (sh m p r q) : B.popStep (sh.queue p) r = (q, .inr none) →
      Serves d sh (.popping p r) m (sh.setQueue p q) .free m
  | popSome (sh m p r q v) : B.popStep (sh.queue p) r = (q, .inr (some v)) →
      Serves d sh (.popping p r) m ((sh.setQueue p q).record (.dequeued v.sub)) (.holding v) m
  | take (sh) (b : BoundSlot d) : sh.lease b.ao = .Idle → Serves d sh (.holding b.slot) .serving
      ((sh.setLease b.ao .RunningDispatcher).record (.handed .dispatcher b.ao b.slot.sub))
      (.running b) .serving
  | work (sh) (b : BoundSlot d) (state) : Serves d sh (.running b) .serving
      ((sh.setHsm b.ao state).record (.read b.slot.sub)) (.running b) .serving
  | drop (sh) (b : BoundSlot d) : sh.lease b.ao = .RunningDispatcher →
      Serves d sh (.running b) .serving (sh.setLease b.ao .Idle) (.handled b) .serving
  | pay (sh) (b : BoundSlot d) : Serves d sh (.handled b) .serving
      (sh.setPending b.ao (PendingCounter.decrementSub (sh.pending b.ao))) (.paid b.slot) .serving
  | discard (sh) (b : BoundSlot d) : Serves d sh (.holding b.slot) .draining
      ((sh.setPending b.ao (PendingCounter.decrementSub (sh.pending b.ao))).record
        (.dropped b.ao b.slot.sub)) (.paid b.slot) .draining
  | release (sh v m n t) : m.dequeues → Serves d sh (.paid v) m
      ((sh.record (.released .dispatcher v.sub)).own sh.claims sh.breaker n t) .free m
  | releaseUnbound (sh v m n t) : m.dequeues → d.lookup v.target = none → Serves d sh (.holding v) m
      ((sh.record (.released .dispatcher v.sub)).own sh.claims sh.breaker n t) .free m
  | wait (sh cu m) : m.dequeues → Serves d sh cu m { sh with token := false } cu m
  | rest (sh) : sh.stop = false → Serves d sh .free .serving sh .free .resting
  | armIdle (sh) : Serves d sh .free .resting sh.arm .free (.armed .High B.hasReady)
  | scanNext (sh p r r') : B.readyStep (sh.queue p) r = .inl r' →
      Serves d sh .free (.armed p r) sh .free (.armed p r')
  | scanFound (sh p r) : B.readyStep (sh.queue p) r = .inr true →
      Serves d sh .free (.armed p r) sh .free .serving
  | scanNone (sh p r p') : B.readyStep (sh.queue p) r = .inr false → next p = some p' →
      Serves d sh .free (.armed p r) sh .free (.armed p' B.hasReady)
  | sleep (sh p r) : B.readyStep (sh.queue p) r = .inr false → next p = none →
      Serves d sh .free (.armed p r) sh .free .asleep
  | awake (sh) : sh.token = true →
      Serves d sh .free .asleep { sh with token := false } .free .serving
  | stopping (sh cu) : sh.stop = true → Serves d sh cu .serving sh cu .draining
  | check (sh) : Serves d sh .free .draining sh .free (.checking .High B.size)
  | checkNext (sh p r r') : B.sizeStep (sh.queue p) r = .inl r' →
      Serves d sh .free (.checking p r) sh .free (.checking p r')
  | checkSome (sh p r k n t) : B.sizeStep (sh.queue p) r = .inr (k + 1) →
      Serves d sh .free (.checking p r) (sh.own sh.claims sh.breaker n t) .free .draining
  | checkZero (sh p r p') : B.sizeStep (sh.queue p) r = .inr 0 → next p = some p' →
      Serves d sh .free (.checking p r) sh .free (.checking p' B.size)
  | checkLast (sh p r) : B.sizeStep (sh.queue p) r = .inr 0 → next p = none →
      Serves d sh .free (.checking p r) sh .free .checkingIdle
  | idle (sh) : Staging.submissionsIdle sh.admission = true →
      Serves d sh .free .checkingIdle sh .free .returned
  | busy (sh n t) : Staging.submissionsIdle sh.admission = false →
      Serves d sh .free .checkingIdle (sh.own sh.claims sh.breaker n t) .free .draining

/-- The assertions Dispatcher code can fail. -/
inductive ServiceFails : Shared B H → Custody d B → Assertion → Prop where
  | lease (sh) (b : BoundSlot d) : sh.lease b.ao ≠ .RunningDispatcher →
      ServiceFails sh (.running b) .leaseRelease
  | underflow (sh) (b : BoundSlot d) : sh.pending b.ao = 0 →
      ServiceFails sh (.handled b) .pendingUnderflow
  | underflowStop (sh) (b : BoundSlot d) : sh.pending b.ao = 0 →
      ServiceFails sh (.holding b.slot) .pendingUnderflow
  | claim (sh) (v : StagingSlot) : sh.claims v.claim = 0 →
      ServiceFails sh (.holding v) .claimUnderflow

section
variable (v : StagingSlot)

theorem custody_tryDispatchSlot (k : Site) :
    (tryDispatchSlot k v : Pc d B).custody = .holding v := by
  unfold tryDispatchSlot
  split
  · rename_i unbound
    simp [Pc.custody, unbound]
  · rfl

theorem mode_tryDispatchSlot (k : Site) : (tryDispatchSlot k v : Pc d B).mode = .serving := by
  unfold tryDispatchSlot
  split <;> rfl

theorem custody_dropSlot (k : StopSite) : (dropSlot k v : Pc d B).custody = .holding v := by
  unfold dropSlot
  split
  · rename_i unbound
    simp [Pc.custody, unbound]
  · rfl

theorem mode_dropSlot (k : StopSite) : (dropSlot k v : Pc d B).mode = .draining := by
  unfold dropSlot
  split <;> rfl

theorem custody_gotSlot (c : Ctx) : (gotSlot v c : Pc d B).custody = .holding v := by
  cases c with
  | batch => exact custody_tryDispatchSlot v .batch
  | drain now => exact custody_dropSlot v (.drain now)

theorem mode_gotSlot (c : Ctx) : (gotSlot v c : Pc d B).mode = c.mode := by
  cases c with
  | batch => exact mode_tryDispatchSlot v .batch
  | drain now => exact mode_dropSlot v (.drain now)

theorem custody_noSlot (c : Ctx) : (noSlot c : Pc d B).custody = .free := by
  cases c <;> rfl

theorem mode_noSlot (c : Ctx) : (noSlot c : Pc d B).mode = c.mode := by
  cases c <;> rfl

theorem custody_retained (k : Site) : (retained v k : Pc d B).custody = .holding v := by
  cases k <;> rfl

theorem mode_retained (k : Site) : (retained v k : Pc d B).mode = .serving := by
  cases k <;> rfl

theorem Dispatch.Ctx.dequeues (c : Ctx) : (c.mode : Mode B).dequeues := by
  cases c
  · exact .inl rfl
  · exact .inr rfl

theorem Dispatch.Visit.dequeues (k : Visit) : (k.mode : Mode B).dequeues := by
  cases k
  · exact .inl rfl
  · exact .inr rfl

section
variable {pc : Pc d B}

theorem drainMore_spec {now : Nat} {released : Bool}
    (done : drainLeft.drainMore sh now released = (sh', pc)) :
    ∃ t, sh' = { sh with nowNs := t } ∧ pc.custody = .free ∧ pc.mode = .draining := by
  unfold drainLeft.drainMore at done
  split at done <;> cases done
  · exact ⟨_, rfl, rfl, rfl⟩
  · exact ⟨sh.nowNs, rfl, rfl, rfl⟩

theorem drainLeft_spec {again : Bool} {now : Nat} (done : drainLeft again now sh = (sh', pc)) :
    ∃ n t, sh' = sh.own sh.claims sh.breaker n t ∧ pc.custody = .free ∧ pc.mode = .draining := by
  unfold drainLeft at done
  split at done
  · cases done
    exact ⟨sh.batchUsed, sh.nowNs, rfl, rfl, rfl⟩
  · obtain ⟨t, rfl, free, draining⟩ := drainMore_spec done
    exact ⟨0, t, rfl, free, draining⟩

theorem finished_spec {clock : Nat} (done : finished sh clock k = (sh', pc)) :
    ∃ t, sh' = { sh with nowNs := t } ∧ pc.custody = .free ∧ pc.mode = k.mode := by
  cases k with
  | dispatch k => cases k <;> cases done <;> exact ⟨sh.nowNs, rfl, rfl, rfl⟩
  | stop k =>
    cases k with
    | final => cases done; exact ⟨sh.nowNs, rfl, rfl, rfl⟩
    | drain => exact drainMore_spec done

end

end

theorem Serves.still : Serves d sh cu m sh cu m :=
  .quiet sh cu m sh.claims sh.breaker sh.batchUsed sh.nowNs

theorem Serves.onBreaker (k : Nat) (update : Breaker.State → Breaker.State) :
    Serves d sh cu m (sh.onBreaker k update) cu m :=
  .quiet sh cu m sh.claims (Function.update sh.breaker k (update (sh.breaker k))) sh.batchUsed
    sh.nowNs

theorem waitDispatcher_ok {timeout : Bool} (waited : waitDispatcher ms timeout sh = .ok sh') :
    sh' = { sh with token := false } ∧ (ms = 0 → sh.token = true) := by
  unfold waitDispatcher at waited
  split at waited <;> cases waited
  rename_i woken
  refine ⟨rfl, fun forever => ?_⟩
  rcases woken with token | ⟨bounded, _⟩
  · exact token
  · exact absurd forever bounded

theorem Dispatch.Pc.step_serves {pc pc' : Pc d B} (ran : pc.step sh o = .ok (sh', pc')) :
    Serves d sh pc.custody pc.mode sh' pc'.custody pc'.mode := by
  cases pc with
  | loopTop deferred =>
    simp only [Pc.step] at ran
    split at ran <;> cases ran
    · rename_i v stop
      rw [custody_dropSlot, mode_dropSlot]
      exact .stopping sh (.holding v) stop
    · exact .stopping sh .free ‹_›
    · exact .quiet sh _ _ sh.claims sh.breaker 0 sh.nowNs
    · exact .quiet sh _ _ sh.claims sh.breaker 0 sh.nowNs
  | armTop v | armRetry v =>
    cases ran
    rw [custody_tryDispatchSlot, mode_tryDispatchSlot]
    exact .arm sh (.holding v)
  | acquire _ b =>
    by_cases idle : sh.lease b.ao = .Idle
    · simp only [Pc.step, ExecutionLease.tryAcquire, idle, if_true, reduceCtorEq, if_false] at ran
      cases ran
      exact .take sh b idle
    · simp only [Pc.step, ExecutionLease.tryAcquire, idle, if_false] at ran
      cases ran
      rw [custody_retained, mode_retained]
      exact .still
  | hsm _ b =>
    simp only [Pc.step] at ran
    split at ran <;> cases ran
    · exact .work sh b _
    · exact .still
  | releaseLease k b t0 =>
    obtain ⟨state, released, done⟩ := asserted_ok ran
    cases done
    simp only [ExecutionLease.release] at released
    split at released <;> cases released
    rename_i held
    exact .drop sh b held
  | rtc => cases ran; exact .onBreaker _ _
  | decrementLoad k =>
    obtain ⟨_, _, done⟩ := asserted_ok ran
    cases done
    cases k <;> exact .still
  | decrementSub k b =>
    have bound : d.lookup b.slot.target ≠ none := by rw [b.bound]; simp
    cases k with
    | dispatch =>
      cases ran
      exact .pay sh b
    | stop =>
      cases ran
      have discarded := Serves.discard sh b
      simpa only [Pc.custody, Pc.mode, Visit.mode, if_neg bound] using discarded
  | cycle _ b =>
    have bound : d.lookup b.slot.target ≠ none := by rw [b.bound]; simp
    cases ran
    simp only [Pc.custody, if_neg bound]
    exact .onBreaker _ _
  | reclaim k v =>
    simp only [Pc.step, Except.ok.injEq] at ran
    obtain ⟨t, rfl, free, mode⟩ := finished_spec ran
    rw [free, mode]
    simp only [Pc.custody, Pc.mode]
    split
    · rename_i unbound
      exact .releaseUnbound sh v k.mode sh.batchUsed t k.dequeues unbound
    · exact .release sh v k.mode sh.batchUsed t k.dequeues
  | timedWait =>
    obtain ⟨waited, ok, done⟩ := map_ok ran
    cases done
    rw [(waitDispatcher_ok ok).1]
    exact .wait sh _ _ (.inl rfl)
  | stopTest =>
    simp only [Pc.step] at ran
    (repeat' split at ran) <;> cases ran
    · exact .still
    · exact .quiet sh _ _ sh.claims sh.breaker sh.batchUsed (some o.clock)
    · exact .still
  | ready =>
    simp only [Pc.step] at ran
    (repeat' split at ran) <;> cases ran
    · exact .still
    · exact .still
    · exact .still
    · rw [custody_noSlot, mode_noSlot]; exact .still
  | select c =>
    simp only [Pc.step] at ran
    (repeat' split at ran) <;> cases ran
    · exact .still
    · exact .still
    · exact .popStart sh _ _ c.dequeues
    · rw [custody_noSlot, mode_noSlot]; exact .still
  | count | aging =>
    simp only [Pc.step] at ran
    split at ran <;> cases ran <;> exact .still
  | pop c p r =>
    simp only [Pc.step] at ran
    split at ran <;> cases ran
    · exact .popNext sh _ p r _ _ ‹_›
    · rw [custody_noSlot, mode_noSlot]
      exact .popNone sh _ p r _ ‹_›
    · exact .popSome sh _ p r _ _ ‹_›
  | releaseClaim =>
    simp only [Pc.step] at ran
    split at ran
    · cases ran
      rw [custody_gotSlot, mode_gotSlot]
      exact .quiet sh _ _ sh.claims sh.breaker _ sh.nowNs
    · obtain ⟨count, _, done⟩ := asserted_ok ran
      cases done
      rw [custody_gotSlot, mode_gotSlot]
      exact .quiet sh _ _ _ sh.breaker _ sh.nowNs
  | stopCheck deferred any =>
    simp only [Pc.step] at ran
    split at ran <;> cases ran
    · rename_i v stop
      rw [custody_dropSlot, mode_dropSlot]
      exact .stopping sh (.holding v) stop
    · exact .stopping sh .free ‹_›
    · exact .still
    · split
      · exact .still
      · exact .rest sh ‹_›
  | idleCycle =>
    simp only [Pc.step] at ran
    split at ran <;> cases ran
    · exact .onBreaker _ _
    · exact .still
  | armIdle => cases ran; exact .armIdle sh
  | idleReady p r =>
    simp only [Pc.step] at ran
    (repeat' split at ran) <;> cases ran
    · exact .scanNext sh p r _ ‹_›
    · exact .scanFound sh p r ‹_›
    · exact .scanNone sh p r _ ‹_› ‹_›
    · exact .sleep sh p r ‹_› ‹_›
  | idleWait =>
    obtain ⟨waited, ok, done⟩ := map_ok ran
    cases done
    obtain ⟨rfl, woken⟩ := waitDispatcher_ok ok
    exact .awake sh (woken rfl)
  | drainLoop again =>
    cases ran
    cases again
    · exact .check sh
    · exact .still
  | drainSize again now p r =>
    simp only [Pc.step] at ran
    split at ran
    · cases ran
      cases again
      · exact .checkNext sh p r _ ‹_›
      · exact .still
    · split at ran <;> cases ran <;> cases again
      · exact .checkZero sh p r _ ‹_› ‹_›
      · exact .still
      · exact .checkLast sh p r ‹_› ‹_›
      · exact .still
    · rename_i k sized
      simp only [Except.ok.injEq] at ran
      obtain ⟨n, t, rfl, free, mode⟩ := drainLeft_spec ran
      rw [free, mode]
      cases again
      · exact .checkSome sh p r _ n t sized
      · exact .quiet sh _ _ _ _ n t
  | drainIdle again now =>
    simp only [Pc.step] at ran
    split at ran
    · rename_i idle
      cases ran
      cases again
      · exact .idle sh idle
      · exact .still
    · rename_i busy
      simp only [Except.ok.injEq] at ran
      obtain ⟨n, t, rfl, free, mode⟩ := drainLeft_spec ran
      rw [free, mode]
      cases again
      · exact .busy sh n t (by simpa using busy)
      · exact .quiet sh _ _ _ _ n t
  | drainWait =>
    obtain ⟨waited, ok, done⟩ := map_ok ran
    cases done
    rw [(waitDispatcher_ok ok).1]
    exact .wait sh _ _ (.inr rfl)
  | returned => cases ran

theorem waitDispatcher_error {timeout : Bool} :
    waitDispatcher ms timeout sh ≠ .error (.assertion a) := by
  unfold waitDispatcher
  split <;> simp

theorem Dispatch.Pc.step_fails {pc : Pc d B}
    (failed : pc.step sh o = .error (.assertion a)) : ServiceFails sh pc.custody a := by
  cases pc with
  | releaseLease k b t0 =>
    have released := asserted_error failed
    simp only [ExecutionLease.release] at released
    split at released <;> cases released
    exact .lease sh b ‹_›
  | decrementLoad k b =>
    have checked := asserted_error failed
    simp only [PendingCounter.decrementCheck] at checked
    split at checked <;> cases checked
    have empty := Nat.eq_zero_of_not_pos ‹_›
    cases k
    · exact .underflow sh b empty
    · exact .underflowStop sh b empty
  | releaseClaim c v =>
    simp only [Pc.step] at failed
    split at failed
    · cases failed
    · have released := asserted_error failed
      simp only [Staging.releaseClaimCounter] at released
      split at released <;> cases released
      exact .claim sh v (Nat.eq_zero_of_not_pos ‹_›)
  | timedWait | idleWait | drainWait => exact absurd (map_error failed) waitDispatcher_error
  | decrementSub k => cases k <;> cases failed
  | _ =>
    simp only [Pc.step] at failed
    first
      | cases failed
      | (split at failed <;> first | cases failed | (split at failed <;> cases failed))

end Coact
