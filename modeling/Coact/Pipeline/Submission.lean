import Coact.Pipeline.System

/-! What a submission holds, abstracted from its program counter, and the moves
by which it changes hands. `Call.step_moves` says once what a step of
`submit_internal` can do; every property of the pipeline is derived from it. -/
namespace Coact
open Submit

/-- The phases of a submission. Up to `pushing` the call owns the reference it
was given; `duty` marks a call that has taken on a wake-up signal and not given
it yet. -/
inductive Phase (d : Deployment) (B : Backend StagingSlot) where
  | entering
  | admitted
  | running (ao : AoId)
  | completed (duty : Bool)
  | counted (ao : AoId)
  | pushing (b : BoundSlot d) (p : B.Push)
  | published (woken duty : Bool)
  | spent
  | left (queued duty : Bool)

variable {d : Deployment} {B : Backend StagingSlot} {H : Type}

def SubmitResult.queued (r : SubmitResult) : Bool := r.disposition = .Queued

def Submit.Frame.phase (i : Nat) (f : Frame d B) : Phase d B :=
  match f.pc with
  | .acquireLoad | .acquireCas _ => .entering
  | .overload | .policy | .reserve | .directAllowed | .leaseState | .dispatchDirect
  | .increment | .tryIncrementCas _ | .gcFull | .gc _ => .admitted
  | .hsm | .releaseLease => .running f.ao
  | .rtc | .pendingLoad | .directWake | .gcDirect => .completed false
  | .directSignal => .completed true
  | .enqueue | .claimLoad | .claimCas _ | .releaseClaim | .decrementLoad | .decrementSub =>
    .counted f.ao
  | .push p => .pushing ⟨f.slot i, f.ao, f.bound⟩ p
  | .commitQueued | .wake => .published false false
  | .signal => .published true true
  | .commitDirect | .overflow => .spent
  | .releaseSubmission r => if r.queued then .published true false else .spent
  | .lastSignal r => .left r.queued true
  | .rollback r => .left r.queued false

def Call.phase (i : Nat) : Call d B → Phase d B
  | .refused _ => .entering
  | .run f => f.phase i
  | .done _ r => .left r.queued false

/-- The fields no property of the pipeline depends on. -/
def Shared.aside (sh : Shared B H) (claims : ReservationClaim → Nat)
    (breaker : Nat → Breaker.State) (gate : Nat → ArrivalGate) : Shared B H :=
  { sh with claims := claims, breaker := breaker, gate := gate }

/-- The moves of submission `i`. -/
inductive Moves (d : Deployment) (i : Nat) :
    Shared B H → Phase d B → Shared B H → Phase d B → Prop where
  | quiet (sh ph c b g) : Moves d i sh ph (sh.aside c b g) ph
  | refuse (sh) : Moves d i sh .entering (sh.record (.released .call i)) (.left false false)
  | acquire (sh) : Staging.acquireRefused sh.admission = false →
      Moves d i sh .entering (sh.setAdmission (Staging.acquired sh.admission)) .admitted
  | read (sh) : Moves d i sh .admitted (sh.record (.read i)) .admitted
  | take (sh ao) : sh.lease ao = .Idle → Moves d i sh .admitted
      ((sh.setLease ao .RunningDirect).record (.handed .call ao i)) (.running ao)
  | work (sh ao state) :
      Moves d i sh (.running ao) ((sh.setHsm ao state).record (.read i)) (.running ao)
  | drop (sh ao) : sh.lease ao = .RunningDirect →
      Moves d i sh (.running ao) (sh.setLease ao .Idle) (.completed false)
  | rouse (sh) : Moves d i sh (.completed false) sh.latch (.completed (!sh.wakePending))
  | signalDirect (sh) : Moves d i sh (.completed true) sh.signal (.completed false)
  | gc (sh) : Moves d i sh .admitted (sh.record (.released .call i)) .spent
  | gcDirect (sh) : Moves d i sh (.completed false) (sh.record (.released .call i)) .spent
  | count (sh ao target) : d.lookup target = some ao → sh.pending ao ≠ 0xffff →
      (d.backlogCap target = 0 ∨ sh.pending ao < d.backlogCap target) →
      Moves d i sh .admitted (sh.setPending ao (PendingCounter.next (sh.pending ao))) (.counted ao)
  | pushStart (sh) (b : BoundSlot d) (c) :
      Moves d i sh (.counted b.ao) { sh with claims := c } (.pushing b B.tryPush)
  | pushNext (sh) (b : BoundSlot d) (p q p') :
      B.pushStep b.slot (sh.queue (d.partition b.ao)) p = (q, .inl p') →
      Moves d i sh (.pushing b p) (sh.setQueue (d.partition b.ao) q) (.pushing b p')
  | pushFail (sh) (b : BoundSlot d) (p q) :
      B.pushStep b.slot (sh.queue (d.partition b.ao)) p = (q, .inr false) →
      Moves d i sh (.pushing b p) (sh.setQueue (d.partition b.ao) q) (.counted b.ao)
  | publish (sh) (b : BoundSlot d) (p q) : b.slot.sub = i →
      B.pushStep b.slot (sh.queue (d.partition b.ao)) p = (q, .inr true) →
      Moves d i sh (.pushing b p)
        ((sh.setQueue (d.partition b.ao) q).record (.published b.ao i)) (.published false false)
  | uncount (sh ao) : Moves d i sh (.counted ao)
      (sh.setPending ao (PendingCounter.decrementSub (sh.pending ao))) .admitted
  | wake (sh) :
      Moves d i sh (.published false false) sh.latch (.published true (!sh.wakePending))
  | signalQueued (sh) : Moves d i sh (.published true true) sh.signal (.published true false)
  | depart (sh) (queued : Bool) :
      Moves d i sh (if queued then .published true false else .spent)
        (sh.setAdmission (Staging.releaseSubmission sh.admission))
        (.left queued (Staging.lastAfterClose sh.admission))
  | signalLast (sh queued) : Moves d i sh (.left queued true) sh.signal (.left queued false)

/-- The assertions submission code can fail. -/
inductive Fails : Shared B H → Phase d B → Assertion → Prop where
  | lease (sh ao) : sh.lease ao ≠ .RunningDirect → Fails sh (.running ao) .leaseRelease
  | ceiling (sh ao) : sh.pending ao = 0xffff → Fails sh .admitted .pendingCeiling
  | underflow (sh ao) : sh.pending ao = 0 → Fails sh (.counted ao) .pendingUnderflow
  | claim (sh ao claim) : sh.claims claim = 0 → Fails sh (.counted ao) .claimUnderflow

section
variable (f : Frame d B) (i clock : Nat)

theorem phase_toDirect : (f.toDirect clock).phase i = .admitted := by
  unfold Frame.toDirect
  split <;> rfl

theorem phase_toGate : (f.toGate clock).phase i = .admitted := by
  unfold Frame.toGate
  split
  · rfl
  · exact phase_toDirect f i clock

theorem phase_toPolicy : (f.toPolicy clock).phase i = .admitted := by
  unfold Frame.toPolicy
  split
  · rfl
  · exact phase_toGate f i clock

theorem phase_toOverload : (f.toOverload clock).phase i = .admitted := by
  unfold Frame.toOverload
  split
  · exact phase_toPolicy f i clock
  · rfl

theorem phase_leave (r : SubmitResult) : (f.leave r).phase i = .left r.queued false := by
  unfold Frame.leave
  split <;> rfl

end

theorem Moves.still : Moves d i sh ph sh ph := .quiet sh ph sh.claims sh.breaker sh.gate

theorem Moves.onGate (k : Nat) (gate : ArrivalGate) : Moves d i sh ph (sh.onGate k gate) ph :=
  .quiet sh ph sh.claims sh.breaker (Function.update sh.gate k gate)

theorem Moves.onBreaker (k : Nat) (update : Breaker.State → Breaker.State) :
    Moves d i sh ph (sh.onBreaker k update) ph :=
  .quiet sh ph sh.claims (Function.update sh.breaker k (update (sh.breaker k))) sh.gate

theorem Moves.commit (f : Frame d B) : Moves d i sh ph (f.commit sh) ph := by
  unfold Frame.commit
  split
  · exact .still
  · exact .onGate _ _

theorem Submit.Frame.step_moves {f : Frame d B}
    (ran : f.step i sh o = .ok (sh', c)) : Moves d i sh (f.phase i) sh' (c.phase i) := by
  obtain ⟨args, ao, bound, now, arrival, t0, pc⟩ := f
  cases pc with
  | acquireLoad | claimLoad => cases ran; exact .still
  | acquireCas observed =>
    simp only [Frame.step] at ran
    (repeat' split at ran) <;> cases ran
    · exact .still
    · rename_i opened swapped
      rw [← swapped.1] at opened ⊢
      rw [phase_toOverload]
      exact .acquire sh (by simpa using opened)
    · exact .still
  | overload =>
    simp only [Frame.step] at ran
    split at ran <;> cases ran
    · exact .still
    · rw [phase_toPolicy]; exact .still
  | policy =>
    simp only [Frame.step] at ran
    split at ran <;> cases ran
    · rw [phase_toGate]; exact .read sh
    · exact .read sh
  | reserve =>
    simp only [Frame.step] at ran
    split at ran <;> cases ran
    · rw [phase_toDirect]; exact .onGate _ _
    · exact .still
  | directAllowed | leaseState | pendingLoad =>
    simp only [Frame.step] at ran
    split at ran <;> cases ran <;> exact .still
  | dispatchDirect =>
    simp only [Frame.step, ExecutionLease.tryAcquire, reduceCtorEq, if_false] at ran
    by_cases idle : sh.lease ao = .Idle
    · simp only [idle, if_true] at ran
      cases ran
      exact .take sh ao idle
    · simp only [idle, if_false, Bool.false_eq_true] at ran
      cases ran
      exact .still
  | hsm =>
    simp only [Frame.step] at ran
    split at ran <;> cases ran
    · exact .work sh ao _
    · exact .still
  | releaseLease =>
    obtain ⟨state, released, done⟩ := asserted_ok ran
    cases done
    simp only [ExecutionLease.release] at released
    split at released <;> cases released
    rename_i held
    exact .drop sh ao held
  | rtc | overflow => cases ran; exact .onBreaker _ _
  | directWake =>
    cases ran
    have roused := Moves.rouse (d := d) (i := i) sh
    cases pending : sh.wakePending <;> simp only [pending] at roused <;> exact roused
  | directSignal => cases ran; exact .signalDirect sh
  | gcDirect => cases ran; exact .gcDirect sh
  | commitDirect | commitQueued => cases ran; exact .commit _
  | increment =>
    simp only [Frame.step] at ran
    split at ran
    · rename_i unlimited
      obtain ⟨count, added, done⟩ := asserted_ok ran
      cases done
      simp only [PendingCounter.increment] at added
      split at added <;> cases added
      rename_i room
      exact .count sh ao args.target bound room (.inl (by simp [Deployment.backlogCap, unlimited]))
    · cases ran; exact .still
  | tryIncrementCas observed =>
    simp only [Frame.step] at ran
    (repeat' split at ran) <;> cases ran
    · exact .still
    · rename_i accepted swapped
      rw [← swapped.1] at accepted ⊢
      simp only [PendingCounter.refuses, Bool.decide_or, Bool.or_eq_true, decide_eq_true_eq,
        not_or, Bool.decide_and, Bool.and_eq_true, not_and, not_le] at accepted
      exact .count sh ao args.target bound accepted.1 (or_iff_not_imp_left.mpr accepted.2)
    · exact .still
  | enqueue =>
    cases ran
    repeat' split
    · exact .pushStart sh ⟨_, ao, bound⟩ sh.claims
    · exact .still
    · exact .still
  | claimCas =>
    simp only [Frame.step] at ran
    (repeat' split at ran) <;> cases ran
    · exact .still
    · exact .pushStart sh ⟨_, ao, bound⟩ _
    · exact .still
  | push p =>
    simp only [Frame.step] at ran
    split at ran <;> cases ran
    · exact .pushNext sh ⟨_, ao, bound⟩ p _ _ ‹_›
    · exact .publish sh ⟨_, ao, bound⟩ p _ rfl ‹_›
    · have failed := Moves.pushFail (i := i) sh ⟨_, ao, bound⟩ p _ ‹_›
      split <;> exact failed
  | releaseClaim =>
    obtain ⟨count, _, done⟩ := asserted_ok ran
    cases done
    exact .quiet sh _ _ sh.breaker sh.gate
  | decrementLoad =>
    obtain ⟨_, _, done⟩ := asserted_ok ran
    cases done
    exact .still
  | decrementSub => cases ran; exact .uncount sh ao
  | gcFull => cases ran; exact .gc sh
  | gc r =>
    cases ran
    have dropped : r.1.queued = false := by simpa [SubmitResult.queued] using r.2
    have collected := Moves.gc (d := d) (i := i) sh
    simpa [Call.phase, Frame.phase, Frame.goto, dropped] using
      collected
  | wake =>
    cases ran
    have woken := Moves.wake (d := d) (i := i) sh
    cases pending : sh.wakePending <;> simp only [pending] at woken <;> exact woken
  | signal => cases ran; exact .signalQueued sh
  | releaseSubmission r =>
    cases ran
    have departed := Moves.depart (d := d) (i := i) sh r.queued
    cases last : Staging.lastAfterClose sh.admission <;> simp only [last] at departed
    · rw [if_neg (by simp), phase_leave]
      exact departed
    · exact departed
  | lastSignal r =>
    cases ran
    rw [phase_leave]
    exact .signalLast sh r.queued
  | rollback => cases ran; exact .onGate _ _

theorem Call.step_moves {c c' : Call d B} (ran : c.step i sh o = .ok (sh', c')) :
    Moves d i sh (c.phase i) sh' (c'.phase i) := by
  cases c with
  | refused => cases ran; exact .refuse sh
  | run f => exact f.step_moves ran
  | done => cases ran

theorem Submit.Frame.step_fails {f : Frame d B}
    (failed : f.step i sh o = .error (.assertion a)) : Fails sh (f.phase i) a := by
  obtain ⟨args, ao, bound, now, arrival, t0, pc⟩ := f
  cases pc with
  | releaseLease =>
    have released := asserted_error failed
    simp only [ExecutionLease.release] at released
    split at released <;> cases released
    exact .lease sh ao ‹_›
  | increment =>
    simp only [Frame.step] at failed
    split at failed
    · have added := asserted_error failed
      simp only [PendingCounter.increment] at added
      split at added <;> cases added
      exact .ceiling sh ao ‹_›
    · cases failed
  | decrementLoad =>
    have checked := asserted_error failed
    simp only [PendingCounter.decrementCheck] at checked
    split at checked <;> cases checked
    exact .underflow sh ao (Nat.eq_zero_of_not_pos ‹_›)
  | releaseClaim =>
    have released := asserted_error failed
    simp only [Staging.releaseClaimCounter] at released
    split at released <;> cases released
    exact .claim sh ao _ (Nat.eq_zero_of_not_pos ‹_›)
  | _ =>
    simp only [Frame.step] at failed
    first
      | cases failed
      | (split at failed <;> first | cases failed | (split at failed <;> cases failed))

theorem Call.step_fails {c : Call d B} (failed : c.step i sh o = .error (.assertion a)) :
    Fails sh (c.phase i) a := by
  cases c with
  | run f => exact f.step_fails failed
  | _ => cases failed

end Coact
