import Coact.Admission.Handles
import Coact.Pipeline.Protocol
import Coact.Queue.Kinds

/-! What a submission takes on its way through `submit_internal` (the submission
lease, the arrival reservation, the pending count, the reservation claim) and how
each step changes it. A rejected submission has to give all of it back. -/
namespace Coact
open Submit Foundation

/-- The results of a submission that was dispatched or staged. -/
def SubmitResult.kept (r : SubmitResult) : Bool :=
  r.disposition = .Direct ∨ r.disposition = .Queued

/-- What a submission holds; `arrival` is a gate with the reserved timestamp.
`accepted` marks a submission that can only return Direct or Queued. -/
structure Stake where
  leased : Bool
  counted : Option AoId
  claim : ReservationClaim
  arrival : Option (Nat × Nat)
  accepted : Bool

/-- Outside the coordinator. -/
def Stake.outside : Stake := ⟨false, none, .None, none, false⟩

/-- Inside it, with at most an arrival reservation. -/
def Stake.inside (arrival : Option (Nat × Nat)) : Stake := ⟨true, none, .None, arrival, false⟩

variable {d : Deployment} {B : Backend StagingSlot} {H : Type}

def Submit.Frame.reservation (f : Frame d B) : Option (Nat × Nat) :=
  f.arrival.map fun now => (d.gateFor f.args.target, now)

def Submit.Frame.stake (S : B.Store) (f : Frame d B) : Stake :=
  let inside := Stake.inside f.reservation
  match f.pc with
  | .acquireLoad | .acquireCas _ => { inside with leased := false }
  | .enqueue | .claimLoad | .claimCas _ | .decrementLoad | .decrementSub =>
    { inside with counted := some f.ao }
  | .push p =>
    { inside with counted := some f.ao, claim := f.claim, accepted := !S.unclaimed p }
  | .releaseClaim => { inside with counted := some f.ao, claim := f.claim }
  | .hsm | .releaseLease | .rtc | .pendingLoad | .directWake | .directSignal | .gcDirect
  | .commitDirect | .commitQueued | .wake | .signal => { inside with accepted := true }
  | .releaseSubmission r => { inside with accepted := r.kept }
  | .lastSignal r | .rollback r => { inside with leased := false, accepted := r.kept }
  | .overload | .policy | .reserve | .directAllowed | .leaseState | .dispatchDirect | .increment
  | .tryIncrementCas _ | .gcFull | .overflow | .gc _ => inside

def Call.stake (S : B.Store) : Call d B → Stake
  | .refused _ => .outside
  | .run f => f.stake S
  | .done _ r => { Stake.outside with accepted := r.kept }

/-- What the program points of a frame say about its locals. -/
def Submit.Frame.Coherent (f : Frame d B) : Prop :=
  match f.pc with
  | .acquireLoad | .acquireCas _ | .overload | .policy | .reserve => f.arrival = none
  | .claimLoad | .claimCas _ | .releaseClaim => f.claim ≠ .None
  | .gc r => r.1.kept = false
  | .rollback _ => f.arrival.isSome
  | _ => True

def Call.Coherent : Call d B → Prop
  | .run f => f.Coherent
  | _ => True

/-- Nothing a rejected submission answers for has changed. -/
structure Even (S : B.Store) (sh sh' : Shared B H) : Prop where
  admission : sh'.admission = sh.admission
  pending : sh'.pending = sh.pending
  claims : sh'.claims = sh.claims
  gate : sh'.gate = sh.gate
  cells : ∀ p, S.cells (sh'.queue p) = S.cells (sh.queue p)

/-- The steps of a submission on its stake. Once it is accepted, what it took goes to
the queue or is committed. -/
inductive Stakes (S : B.Store) : Shared B H → Stake → Shared B H → Stake → Prop
  | quiet {sh sh' k} (even : Even S sh sh') : Stakes S sh k sh' k
  | lease (sh) : Staging.acquireRefused sh.admission = false →
      Stakes S sh .outside (sh.setAdmission (Staging.acquired sh.admission)) (.inside none)
  | reserve (sh g now minNs) : ((sh.gate g).tryReserve now minNs).2 = true →
      Stakes S sh (.inside none) (sh.onGate g ((sh.gate g).tryReserve now minNs).1)
        (.inside (some (g, now)))
  | count (sh ao r) : sh.pending ao ≠ 0xffff →
      Stakes S sh (.inside r) (sh.setPending ao (PendingCounter.next (sh.pending ao)))
        { Stake.inside r with counted := some ao }
  | claim (sh ao c r) : c ≠ .None →
      Stakes S sh { Stake.inside r with counted := some ao } (sh.setClaims c (sh.claims c + 1))
        { Stake.inside r with counted := some ao, claim := c }
  | unclaim (sh ao c r) : c ≠ .None →
      Stakes S sh { Stake.inside r with counted := some ao, claim := c }
        (sh.setClaims c (sh.claims c - 1)) { Stake.inside r with counted := some ao }
  | uncount (sh ao r) :
      Stakes S sh { Stake.inside r with counted := some ao }
        (sh.setPending ao (PendingCounter.decrementSub (sh.pending ao))) (.inside r)
  | release (sh r) :
      Stakes S sh (.inside r) (sh.setAdmission (Staging.releaseSubmission sh.admission))
        { Stake.inside r with leased := false }
  | rollback (sh g now) :
      Stakes S sh { Stake.inside (some (g, now)) with leased := false }
        (sh.onGate g (sh.gate g).rollback) .outside
  | accepted {sh k sh' k'} (moved : Reserves sh.gate k.arrival sh'.gate k'.arrival)
      (kept : k'.accepted = true) : Stakes S sh k sh' k'

section
variable (f : Frame d B) (clock : Nat)

theorem stake_toStaging : (f.toStaging clock).stake S = .inside f.reservation ∧
    (f.toStaging clock).Coherent := by
  unfold Frame.toStaging
  refine ⟨?_, trivial⟩
  dsimp only [Frame.goto, Call.stake, Frame.stake]
  split <;> rfl

theorem stake_toDirect : (f.toDirect clock).stake S = .inside f.reservation ∧
    (f.toDirect clock).Coherent := by
  unfold Frame.toDirect
  split
  · exact ⟨rfl, trivial⟩
  · exact stake_toStaging f clock

theorem stake_toGate (fresh : f.arrival = none) :
    (f.toGate clock).stake S = .inside none ∧ (f.toGate clock).Coherent := by
  have none : f.reservation = none := by rw [Frame.reservation, fresh]; rfl
  unfold Frame.toGate
  rw [← none]
  split
  · exact ⟨rfl, fresh⟩
  · exact stake_toDirect f clock

theorem stake_toPolicy (fresh : f.arrival = none) :
    (f.toPolicy clock).stake S = .inside none ∧ (f.toPolicy clock).Coherent := by
  have none : f.reservation = none := by rw [Frame.reservation, fresh]; rfl
  unfold Frame.toPolicy
  split
  · rw [← none]
    exact ⟨rfl, fresh⟩
  · exact stake_toGate f clock fresh

theorem stake_toOverload (fresh : f.arrival = none) :
    (f.toOverload clock).stake S = .inside none ∧ (f.toOverload clock).Coherent := by
  have none : f.reservation = none := by rw [Frame.reservation, fresh]; rfl
  unfold Frame.toOverload
  split
  · exact stake_toPolicy f clock fresh
  · rw [← none]
    exact ⟨rfl, fresh⟩

theorem stake_leave (r : SubmitResult) :
    (f.leave r).stake S = { Stake.inside f.reservation with leased := false, accepted := r.kept } ∧
      (f.leave r).Coherent := by
  unfold Frame.leave
  split
  · rename_i none
    refine ⟨?_, trivial⟩
    rw [Frame.reservation, none]
    rfl
  · rename_i now held
    exact ⟨rfl, Option.isSome_iff_exists.mpr ⟨now, held⟩⟩

theorem stake_tryPush : (f.goto (.push B.tryPush)).stake S =
    { Stake.inside f.reservation with counted := some f.ao, claim := f.claim } := by
  simp only [Frame.goto, Call.stake, Frame.stake, S.start]
  rfl

end

section
variable {S : B.Store} {i : Nat} {sh sh' : Shared B H} {o : Oracle H}

theorem Even.record (S : B.Store) (sh : Shared B H) (act : Act) : Even S sh (sh.record act) :=
  ⟨rfl, rfl, rfl, rfl, fun _ => rfl⟩

theorem Even.setQueue (S : B.Store)
    (cells : S.cells q = S.cells (sh.queue p)) : Even S sh (sh.setQueue p q) := by
  refine ⟨rfl, rfl, rfl, rfl, fun p' => ?_⟩
  rw [Shared.setQueue_queue, Function.update_apply]
  split
  · rename_i same
    rw [same, cells]
  · rfl

theorem Reserves.committed (f : Frame d B) (sh : Shared B H) :
    Reserves sh.gate f.reservation (f.commit sh).gate none := by
  unfold Frame.commit Frame.reservation
  cases f.arrival with
  | none => exact .same
  | some => exact .commit _ _ _

variable {c : Call d B}

theorem Stakes.still : Stakes S sh k sh k := .quiet ⟨rfl, rfl, rfl, rfl, fun _ => rfl⟩

theorem Stakes.arrive (step : Stakes S sh k sh' k')
    (known : c.stake S = k' ∧ c.Coherent) : Stakes S sh k sh' (c.stake S) ∧ c.Coherent :=
  ⟨known.1.symm ▸ step, known.2⟩

theorem Stakes.releaseSubmission (S : B.Store) (sh : Shared B H) (arrival : Option (Nat × Nat))
    (kept : Bool) : Stakes S sh { Stake.inside arrival with accepted := kept }
      (sh.setAdmission (Staging.releaseSubmission sh.admission))
      { Stake.inside arrival with leased := false, accepted := kept } := by
  cases kept with
  | true => exact .accepted .same rfl
  | false => exact .release sh _

theorem Submit.Frame.step_stakes (S : B.Store) {f : Frame d B} (coherent : f.Coherent)
    (ran : f.step i sh o = .ok (sh', c)) :
    Stakes S sh (f.stake S) sh' (c.stake S) ∧ c.Coherent := by
  obtain ⟨args, ao, bound, now, arrival, t0, pc⟩ := f
  cases pc with
  | acquireLoad | claimLoad => cases ran; exact ⟨.still, coherent⟩
  | acquireCas observed =>
    obtain rfl : arrival = none := coherent
    simp only [Frame.step] at ran
    (repeat' split at ran) <;> cases ran
    · exact ⟨.still, trivial⟩
    · rename_i opened swapped
      rw [← swapped.1] at opened ⊢
      exact Stakes.arrive (.lease sh (by simpa using opened)) (stake_toOverload _ _ rfl)
    · exact ⟨.still, rfl⟩
  | overload =>
    obtain rfl : arrival = none := coherent
    simp only [Frame.step] at ran
    split at ran <;> cases ran
    · exact ⟨.still, rfl⟩
    · exact Stakes.arrive .still (stake_toPolicy _ _ rfl)
  | policy =>
    obtain rfl : arrival = none := coherent
    simp only [Frame.step] at ran
    split at ran <;> cases ran
    · exact Stakes.arrive (.quiet (.record S sh _)) (stake_toGate _ _ rfl)
    · refine ⟨.quiet (.record S sh _), ?_⟩
      split <;> rfl
  | reserve =>
    obtain rfl : arrival = none := coherent
    simp only [Frame.step] at ran
    split at ran <;> cases ran
    · rename_i admitted
      exact Stakes.arrive (.reserve sh _ _ _ admitted) (stake_toDirect _ _)
    · exact ⟨.still, rfl⟩
  | directAllowed | leaseState =>
    simp only [Frame.step] at ran
    split at ran <;> cases ran
    · exact ⟨.still, trivial⟩
    · exact Stakes.arrive .still (stake_toStaging _ _)
  | dispatchDirect =>
    simp only [Frame.step] at ran
    split at ran <;> cases ran
    · exact ⟨.accepted .same rfl, trivial⟩
    · exact Stakes.arrive .still (stake_toStaging _ _)
  | hsm | pendingLoad | rtc | directSignal | gcDirect | signal | directWake | wake =>
    simp only [Frame.step] at ran
    (repeat' split at ran) <;> cases ran <;> exact ⟨.accepted .same rfl, trivial⟩
  | releaseLease =>
    obtain ⟨state, -, done⟩ := asserted_ok ran
    cases done
    exact ⟨.accepted .same rfl, trivial⟩
  | commitDirect | commitQueued =>
    cases ran
    exact ⟨.accepted (.committed _ _) rfl, trivial⟩
  | increment =>
    simp only [Frame.step] at ran
    split at ran
    · obtain ⟨count, added, done⟩ := asserted_ok ran
      cases done
      simp only [PendingCounter.increment] at added
      split at added <;> cases added
      exact ⟨.count sh ao _ ‹_›, trivial⟩
    · cases ran; exact ⟨.still, trivial⟩
  | tryIncrementCas observed =>
    simp only [Frame.step] at ran
    (repeat' split at ran) <;> cases ran
    · exact ⟨.still, rfl⟩
    · rename_i room swapped
      rw [← swapped.1] at room ⊢
      refine ⟨.count sh ao _ fun full => room ?_, trivial⟩
      simp [PendingCounter.refuses, full]
    · exact ⟨.still, trivial⟩
  | enqueue =>
    cases ran
    repeat' split
    · rename_i unclaimed
      refine ⟨?_, trivial⟩
      rw [stake_tryPush, unclaimed]
      exact .still
    · exact ⟨.still, ‹_›⟩
    · exact ⟨.still, trivial⟩
  | claimCas observed =>
    simp only [Frame.step] at ran
    (repeat' split at ran) <;> cases ran
    · exact ⟨.still, trivial⟩
    · rename_i swapped
      rw [← swapped.1]
      refine ⟨?_, trivial⟩
      rw [stake_tryPush]
      exact .claim sh ao _ _ coherent
    · exact ⟨.still, coherent⟩
  | push p =>
    simp only [Frame.step] at ran
    split at ran <;> cases ran
    · rename_i q p' pushed
      refine ⟨?_, trivial⟩
      cases claimed : S.unclaimed p' with
      | true =>
        obtain ⟨unclaimed, cells⟩ := S.push_next pushed claimed
        have same : Frame.stake S (⟨args, ao, bound, now, arrival, t0, .push p'⟩ : Frame d B) =
            Frame.stake S ⟨args, ao, bound, now, arrival, t0, .push p⟩ := by
          simp only [Frame.stake, claimed, unclaimed]
          rfl
        exact same ▸ .quiet (.setQueue S cells)
      | false =>
        refine .accepted .same ?_
        simp only [Frame.goto, Call.stake, Frame.stake, claimed]
        rfl
    · exact ⟨.accepted .same rfl, trivial⟩
    · rename_i q pushed
      obtain ⟨unclaimed, cells⟩ := S.push_fail pushed
      have same : Frame.stake S (⟨args, ao, bound, now, arrival, t0, .push p⟩ : Frame d B) =
          Frame.stake S ⟨args, ao, bound, now, arrival, t0, .releaseClaim⟩ := by
        simp only [Frame.stake, unclaimed]
        rfl
      rw [same]
      split
      · rename_i none
        refine ⟨?_, trivial⟩
        have free : Frame.stake S (⟨args, ao, bound, now, arrival, t0, .releaseClaim⟩ : Frame d B) =
            Frame.stake S ⟨args, ao, bound, now, arrival, t0, .decrementLoad⟩ :=
          congrArg (fun c => ({ Stake.inside _ with counted := some ao, claim := c } : Stake)) none
        rw [free]
        exact .quiet (.setQueue S cells)
      · rename_i claimed
        exact ⟨.quiet (.setQueue S cells), claimed⟩
  | releaseClaim =>
    obtain ⟨count, released, done⟩ := asserted_ok ran
    cases done
    simp only [Staging.releaseClaimCounter] at released
    split at released <;> cases released
    exact ⟨.unclaim sh ao _ _ coherent, trivial⟩
  | decrementLoad =>
    obtain ⟨_, _, done⟩ := asserted_ok ran
    cases done
    exact ⟨.still, trivial⟩
  | decrementSub => cases ran; exact ⟨.uncount sh ao _, trivial⟩
  | gcFull => cases ran; exact ⟨.quiet (.record S sh _), trivial⟩
  | overflow => cases ran; exact ⟨.quiet ⟨rfl, rfl, rfl, rfl, fun _ => rfl⟩, trivial⟩
  | gc r =>
    cases ran
    refine ⟨?_, trivial⟩
    have dropped : r.1.kept = false := coherent
    simp only [Frame.goto, Call.stake, Frame.stake, dropped]
    exact .quiet (.record S sh _)
  | releaseSubmission r =>
    cases ran
    split
    · exact ⟨.releaseSubmission S sh _ _, trivial⟩
    · exact Stakes.arrive (.releaseSubmission S sh _ _) (stake_leave _ r)
  | lastSignal r =>
    cases ran
    exact Stakes.arrive (.quiet ⟨rfl, rfl, rfl, rfl, fun _ => rfl⟩) (stake_leave _ r)
  | rollback r =>
    cases ran
    obtain ⟨reserved, rfl⟩ : ∃ now, arrival = some now := Option.isSome_iff_exists.mp coherent
    refine ⟨?_, trivial⟩
    simp only [Frame.stake, Call.stake]
    cases kept : r.kept with
    | true => exact .accepted (.rollback _ _ _) rfl
    | false => exact .rollback sh _ _

theorem Call.step_stakes (S : B.Store) (coherent : c.Coherent)
    (ran : c.step i sh o = .ok (sh', c')) :
    Stakes S sh (c.stake S) sh' (c'.stake S) ∧ c'.Coherent := by
  cases c with
  | refused args => cases ran; exact ⟨.quiet (.record S sh _), trivial⟩
  | run f => exact f.step_stakes S coherent ran
  | done => cases ran

theorem Call.enter_stake (S : B.Store) (args : Args) :
    (Call.enter d B args).stake S = .outside ∧ (Call.enter d B args).Coherent := by
  unfold Call.enter
  split
  · exact ⟨rfl, trivial⟩
  · split
    · exact ⟨rfl, rfl⟩
    · exact ⟨rfl, trivial⟩

theorem Stakes.reserves (step : Stakes S sh k sh' k') :
    Reserves sh.gate k.arrival sh'.gate k'.arrival := by
  cases step with
  | quiet even => rw [even.gate]; exact .same
  | reserve _ _ _ admitted => exact .reserve _ _ _ _ admitted
  | rollback => exact .rollback _ _ _
  | accepted moved => exact moved
  | _ => exact .same

end

def Call.reservation : Call d B → Option (Nat × Nat)
  | .run f => f.reservation
  | _ => none

theorem Call.stake_arrival (S : B.Store) (c : Call d B) : (c.stake S).arrival = c.reservation := by
  cases c with
  | run f =>
    obtain ⟨args, ao, bound, now, arrival, t0, pc⟩ := f
    cases pc <;> rfl
  | _ => rfl

/-- The gates account for the reservations of the calls in progress. -/
structure Sys.Reserved (s : Sys d B H) : Prop where
  coherent : ∀ (i : Nat) c, s.calls[i]? = some c → c.Coherent
  accounted : ∀ g, Accounted (s.shared.gate g) (tally (fun c => holding g c.reservation) s.calls)

theorem Serves.gate_kept (move : Serves d sh cu m sh' cu' m') : sh'.gate = sh.gate := by
  cases move <;> rfl

theorem Sys.Reserved.step (S : B.Store) {s t : Sys d B H} {label : Label H} (inv : s.Reserved)
    (ran : Sys.step label s = .ok t) : t.Reserved := by
  cases label with
  | submit args =>
    obtain ⟨-, rfl⟩ := step_submit ran
    obtain ⟨stake, ordered⟩ := Call.enter_stake (d := d) S args
    have free : (Call.enter d B args).reservation = none := by
      rw [← Call.stake_arrival S, stake]
      rfl
    refine ⟨fun i c there => ?_, fun g => ?_⟩
    · rcases getElem?_of_append there with ⟨rfl, -⟩ | before
      · exact ordered
      · exact inv.coherent i c before
    · have accounted := inv.accounted g
      simpa [free, holding] using accounted
  | call i =>
    obtain ⟨c, sh', c', found, -, moved, rfl⟩ := step_call ran
    obtain ⟨stakes, ordered⟩ := Call.step_stakes S (inv.coherent i c found) moved
    have moved := stakes.reserves
    rw [Call.stake_arrival, Call.stake_arrival] at moved
    refine ⟨fun j c there => ?_, fun g => ?_⟩
    · rcases getElem?_of_set there with rfl | before
      · exact ordered
      · exact inv.coherent j c before
    · exact moved.exchange (r := Call.reservation) found (inv.accounted g)
  | dispatcher =>
    obtain ⟨sh', pc, -, moved, rfl⟩ := step_dispatcher ran
    refine ⟨inv.coherent, fun g => ?_⟩
    rw [(Dispatch.Pc.step_serves moved).gate_kept]
    exact inv.accounted g
  | requestStop | breaker => cases ran; exact ⟨inv.coherent, inv.accounted⟩
  | stopper =>
    obtain ⟨stopper, sh', stopper', -, moved, rfl⟩ := step_stopper ran
    refine ⟨inv.coherent, fun g => ?_⟩
    cases stopper <;> cases moved <;> exact inv.accounted g

theorem Reachable.reserved (S : B.Store) {hsm : AoId → H} {s : Sys d B H}
    (reached : Reachable hsm s) : s.Reserved :=
  reached.invariant ⟨by simp [Sys.initial], fun _ => ⟨rfl, fun _ => rfl⟩⟩
    fun _ _ _ inv _ ran => inv.step S ran

end Coact
