import Coact.Pipeline.Shutdown
import Coact.Pipeline.Stakes

/-! A rejected submission leaves no trace. While one call runs alone, the shared
state differs from the one it found by its stake, so a call that returns without
being accepted has put everything back. -/
namespace Coact
open Submit Foundation Function Staging

variable {d : Deployment} {B : Backend StagingSlot} {H : Type}

/-- The gate an abandoned reservation leaves. Under another live reservation the
barrier stays where it was raised; otherwise nothing is left. -/
def Settled (before after : ArrivalGate) : Prop :=
  after = { before with holdNs := after.holdNs } ∧ (before.holds = 0 → after = before)

/-- What the shared state owes to `sh₀` while a call holds stake `k`. -/
structure Owes (S : B.Store) (sh₀ sh : Shared B H) (k : Stake) : Prop where
  leasable : k.leased = true → acquireRefused sh₀.admission = false
  admission : sh.admission = if k.leased then acquired sh₀.admission else sh₀.admission
  room : ∀ ao, k.counted = some ao → sh₀.pending ao ≠ 0xffff
  pending : sh.pending = match k.counted with
    | some ao => update sh₀.pending ao (PendingCounter.next (sh₀.pending ao))
    | none => sh₀.pending
  claims : sh.claims = if k.claim = .None then sh₀.claims
    else update sh₀.claims k.claim (sh₀.claims k.claim + 1)
  cells : ∀ p, S.cells (sh.queue p) = S.cells (sh₀.queue p)
  held : ∀ g now, k.arrival = some (g, now) →
    sh.gate g = { sh₀.gate g with holdNs := now, holds := (sh₀.gate g).holds + 1 }
  settled : ∀ g, k.arrival.map Prod.fst ≠ some g → Settled (sh₀.gate g) (sh.gate g)

/-- What the reachable states provide. -/
structure Shared.Sound (sh₀ : Shared B H) : Prop where
  word : acquireRefused sh₀.admission = false →
    releaseSubmission (acquired sh₀.admission) = sh₀.admission
  small : ∀ ao, sh₀.pending ao < 2 ^ 16
  clear : ∀ g, (sh₀.gate g).holds = 0 → (sh₀.gate g).holdNs = 0

theorem Settled.refl (gate : ArrivalGate) : Settled gate gate := ⟨rfl, fun _ => rfl⟩

theorem Settled.released {gate : ArrivalGate} (clear : gate.holds = 0 → gate.holdNs = 0) (now : Nat) :
    Settled gate ({ gate with holdNs := now, holds := gate.holds + 1 } : ArrivalGate).rollback := by
  simp only [ArrivalGate.rollback, ArrivalGate.releaseHold, Nat.add_sub_cancel]
  rw [if_pos (Nat.succ_ne_zero _)]
  refine ⟨rfl, fun none => ?_⟩
  rw [if_pos none, ← clear none]

theorem PendingCounter.sub_next {count : Nat} (small : count < 2 ^ 16) (room : count ≠ 0xffff) :
    PendingCounter.decrementSub (PendingCounter.next count) = count := by
  have bound : count + 1 < 0x10000 := by omega
  rw [PendingCounter.next, Nat.mod_eq_of_lt bound, PendingCounter.decrementSub,
    if_neg (Nat.succ_ne_zero count), Nat.add_sub_cancel]

theorem Staging.release_acquired {shut : Bool} {count : Nat} (small : count < 2 ^ 31)
    (opened : acquireRefused (packed shut count) = false) :
    releaseSubmission (acquired (packed shut count)) =
      packed shut count := by
  rw [acquireRefused_packed small, Bool.or_eq_false_iff] at opened
  have below : count ≠ kAdmissionCountMask := of_decide_eq_false opened.2
  simp only [kAdmissionCountMask] at below
  have room : count + 1 < 2 ^ 31 := by omega
  rw [acquired_packed room, releaseSubmission_packed room (Nat.succ_pos count),
    Nat.add_sub_cancel]

theorem Owes.outside (S : B.Store) (sh : Shared B H) : Owes S sh sh .outside where
  leasable never := by cases never
  admission := rfl
  room _ never := by cases never
  pending := rfl
  claims := rfl
  cells _ := rfl
  held _ _ never := by cases never
  settled g _ := .refl _

theorem Owes.even (owes : Owes S sh₀ sh k) (even : Even S sh sh') : Owes S sh₀ sh' k where
  leasable := owes.leasable
  admission := even.admission.trans owes.admission
  room := owes.room
  pending := even.pending.trans owes.pending
  claims := even.claims.trans owes.claims
  cells p := (even.cells p).trans (owes.cells p)
  held g now arrival := by rw [even.gate]; exact owes.held g now arrival
  settled g elsewhere := by rw [even.gate]; exact owes.settled g elsewhere

theorem Stakes.accepted_stays (step : Stakes S sh k sh' k') (accepted : k.accepted = true) :
    k'.accepted = true := by
  cases step with
  | quiet => exact accepted
  | accepted _ kept => exact kept
  | _ => cases accepted

theorem Owes.step (sound : sh₀.Sound) (owes : Owes S sh₀ sh k) (step : Stakes S sh k sh' k') :
    k'.accepted = true ∨ Owes S sh₀ sh' k' := by
  cases step with
  | quiet even => exact .inr (owes.even even)
  | accepted _ kept => exact .inl kept
  | lease opened =>
    have word : sh.admission = sh₀.admission := owes.admission
    rw [word] at opened
    refine .inr { owes with leasable := fun _ => opened, admission := ?_ }
    rw [Shared.setAdmission_admission, word]
    rfl
  | reserve g now _ admitted =>
    obtain ⟨same, -⟩ := owes.settled g (by simp [Stake.inside])
    refine .inr { owes with held := ?_, settled := ?_ }
    · rintro g now ⟨⟩
      rw [Shared.onGate_gate, update_self, ArrivalGate.tryReserve_taken admitted, same]
    · intro g' elsewhere
      have other : g' ≠ g := fun here => elsewhere (by rw [here]; rfl)
      rw [Shared.onGate_gate, update_of_ne other]
      exact owes.settled g' (by simp [Stake.inside])
  | count ao _ room =>
    have pending : sh.pending = sh₀.pending := owes.pending
    rw [pending] at room
    refine .inr { owes with room := ?_, pending := ?_ }
    · rintro ao ⟨⟩
      exact room
    · change update sh.pending ao _ = update sh₀.pending ao _
      rw [pending]
  | claim _ c _ claimed =>
    have claims : sh.claims = sh₀.claims := owes.claims
    refine .inr { owes with claims := ?_ }
    change update sh.claims c _ = _
    rw [claims]
    exact (if_neg claimed).symm
  | unclaim _ c _ claimed =>
    have claims : sh.claims = update sh₀.claims c _ := owes.claims.trans (if_neg claimed)
    refine .inr { owes with claims := ?_ }
    change update sh.claims c _ = sh₀.claims
    rw [claims, update_self, update_idem, Nat.add_sub_cancel,
      update_eq_self]
  | uncount ao =>
    have pending : sh.pending = update sh₀.pending ao _ := owes.pending
    refine .inr { owes with room := fun _ => (nomatch ·), pending := ?_ }
    change update sh.pending ao _ = sh₀.pending
    rw [pending, update_self, update_idem,
      PendingCounter.sub_next (sound.small ao) (owes.room ao rfl), update_eq_self]
  | release =>
    have word : sh.admission = acquired sh₀.admission := owes.admission
    refine .inr { owes with leasable := (nomatch ·), admission := ?_ }
    rw [Shared.setAdmission_admission, word, sound.word (owes.leasable rfl)]
    rfl
  | rollback g now =>
    refine .inr { owes with held := fun _ _ => (nomatch ·), settled := ?_ }
    intro g' _
    by_cases here : g' = g
    · subst here
      rw [Shared.onGate_gate, update_self, owes.held g' now rfl]
      exact .released (sound.clear g') now
    · rw [Shared.onGate_gate, update_of_ne here]
      exact owes.settled g' fun same => here (Option.some.inj same).symm

variable {s : Sys d B H}

theorem Reachable.sound (L : B.Lawful) (S : B.Store) {hsm : AoId → H} (run : Reachable hsm s) :
    s.shared.Sound where
  word opened := by
    obtain ⟨⟨shut, gate⟩, -⟩ := run.gate
    have word : s.shared.admission = _ := gate.word
    rw [word] at opened ⊢
    exact release_acquired gate.small opened
  small ao := (run.pendingOk L).small ao
  clear g := ((run.reserved S).accounted g).clear

/-- One submission runs alone: its steps and no others. -/
def Sys.solo (s : Sys d B H) (args : Args) (oracles : List (Oracle H)) : Option (Sys d B H) :=
  replay Sys.step (.submit args :: oracles.map (.call s.calls.length)) s

/-- The call at the end of the list is on its way to acceptance or owes its stake. -/
structure Solo (S : B.Store) (s t : Sys d B H) (c : Call d B) : Prop where
  calls : t.calls = s.calls ++ [c]
  coherent : c.Coherent
  owes : (c.stake S).accepted = true ∨ Owes S s.shared t.shared (c.stake S)

variable {t : Sys d B H}

theorem Solo.step (sound : s.shared.Sound) (solo : Solo S s t c)
    (stepped : Sys.step (.call s.calls.length o) t = .ok u) : ∃ c', Solo S s u c' := by
  have found : t.calls[s.calls.length]? = some c := by
    rw [solo.calls, List.getElem?_append_right le_rfl, Nat.sub_self]
    rfl
  simp only [Sys.step, found] at stepped
  split at stepped
  · cases stepped
  · obtain ⟨⟨sh', c'⟩, moved, done⟩ := map_ok stepped
    cases done
    obtain ⟨stakes, coherent⟩ := Call.step_stakes S solo.coherent moved
    refine ⟨c', ?_, coherent, ?_⟩
    · rw [solo.calls, List.set_append_right _ _ le_rfl, Nat.sub_self]
      rfl
    · rcases solo.owes with accepted | owes
      · exact .inl (stakes.accepted_stays accepted)
      · exact owes.step sound stakes

variable {oracles : List (Oracle H)}

theorem Solo.run (sound : s.shared.Sound)
    (solo : Solo S s t c) (ran : replay Sys.step (oracles.map (.call s.calls.length)) t = some u) :
    ∃ c', Solo S s u c' := by
  induction oracles generalizing t c with
  | nil =>
    cases ran
    exact ⟨c, solo⟩
  | cons o rest ih =>
    simp only [List.map_cons, replay] at ran
    split at ran
    · rename_i v stepped
      obtain ⟨c', next⟩ := solo.step sound stepped
      exact ih next ran
    · cases ran

theorem solo_of_run {args : Args} (sound : s.shared.Sound)
    (ran : s.solo args oracles = some t) : ∃ c, Solo S s t c := by
  simp only [Sys.solo, replay, Sys.step] at ran
  split at ran
  · rename_i u entered
    split at entered <;> cases entered
    obtain ⟨stake, coherent⟩ := Call.enter_stake (d := d) S args
    refine Solo.run sound ⟨rfl, coherent, .inr ?_⟩ ran
    rw [stake]
    exact .outside S s.shared
  · cases ran

/-- Everything a rejected submission answers for is as it was. A gate on which no
other call holds a reservation is the same gate; on any other the committed window
and the number of reservations are the same. -/
structure Restored (S : B.Store) (s t : Sys d B H) : Prop where
  pending : t.shared.pending = s.shared.pending
  claims : t.shared.claims = s.shared.claims
  cells : ∀ p, S.cells (t.shared.queue p) = S.cells (s.shared.queue p)
  admission : t.shared.admission = s.shared.admission
  gate : ∀ g, (∀ c ∈ s.calls, c.reservation.map Prod.fst ≠ some g) →
    t.shared.gate g = s.shared.gate g
  window : ∀ g, t.shared.gate g =
    { s.shared.gate g with holdNs := (t.shared.gate g).holdNs }

theorem Reachable.restored (L : B.Lawful) (S : B.Store) {hsm : AoId → H} {args : Args}
    (run : Reachable hsm s) (ran : s.solo args oracles = some t)
    (returned : t.calls[s.calls.length]? = some (.done args r)) (rejected : r.kept = false) :
    Restored S s t := by
  obtain ⟨c, solo⟩ := solo_of_run (S := S) (run.sound L S) ran
  have last : t.calls[s.calls.length]? = some c := by
    rw [solo.calls, List.getElem?_append_right le_rfl, Nat.sub_self]
    rfl
  obtain rfl : Call.done args r = c := Option.some.inj (returned.symm.trans last)
  obtain accepted | owes := solo.owes
  · cases rejected.symm.trans accepted
  · have settled (g : Nat) := owes.settled g (by simp [Call.stake, Stake.outside])
    refine ⟨owes.pending, owes.claims, owes.cells, owes.admission, fun g free => ?_, fun g => ?_⟩
    · refine (settled g).2 ?_
      rw [((run.reserved S).accounted g).holds]
      exact tally_zero fun c mem => if_neg (free c mem)
    · exact (settled g).1

/-- A submission that runs alone and returns neither Direct nor Queued restores what
it found, with either backend; and every gate counts the reservation handles that are
live on it. -/
theorem rejection_leaves_no_trace (d : Deployment) (k : QueueBackend) (H : Type) :
    (∀ (hsm : AoId → H) (s t : Sys d (k.impl StagingSlot) H) (args : Args)
      (oracles : List (Oracle H)) (r : SubmitResult), Reachable hsm s →
      s.solo args oracles = some t → t.calls[s.calls.length]? = some (.done args r) →
      r.disposition ≠ .Direct → r.disposition ≠ .Queued → Restored (k.store StagingSlot) s t) ∧
    (∀ (rows : List TargetAdmission) (w : Holders),
      Reaches (Holders.step d.cfg rows) Always .initial w → ∀ g, (w.gates g).holds = w.live g) := by
  constructor
  · intro hsm s t args oracles r run ran returned undirected unqueued
    refine run.restored (k.laws StagingSlot) _ ran returned ?_
    simp [SubmitResult.kept, undirected, unqueued]
  · exact fun rows w run g => (Holders.balanced_of_reaches run g).holds

/-- `singleAo` with an interval of 50 ns and a backlog cap of one on its target. -/
def spacedAo : Deployment := { singleAo with rules := some [⟨⟨1⟩, 50, 1⟩] }

/-- One ISR submission has been staged at 100 ns. -/
def stagedOnce : Sys spacedAo (QueueBackend.BoundedMpscQueue.impl StagingSlot) Nat :=
  runOf spacedAo _ (fun _ => 0)
    (.submit { target := ⟨1⟩, event := 7, fromIsr := true } ::
      List.replicate 16 (.call 0 { clock := 100 }))

/-- A second one at 200 ns reserves its window and finds the backlog full. -/
def secondArrival : Args := { target := ⟨1⟩, event := 8, fromIsr := true }

def refusedOnce : Sys spacedAo (QueueBackend.BoundedMpscQueue.impl StagingSlot) Nat :=
  outcome Sys.step (.submit secondArrival :: (List.replicate 9 { clock := 200 }).map (.call 1))
    stagedOnce

theorem rejection_leaves_no_trace_full :
    refusedOnce.calls[1]? = some (.done secondArrival ⟨.RejectedFull, kBacklogFull⟩) ∧
    refusedOnce.shared.gate 1 = ⟨100, 0, 0, true⟩ ∧
    Restored (QueueBackend.BoundedMpscQueue.store StagingSlot) stagedOnce refusedOnce := by
  have run : Reachable (fun _ => 0) stagedOnce := reachable_runOf (by decide +kernel)
  have returned : refusedOnce.calls[1]? = some (.done secondArrival ⟨.RejectedFull, kBacklogFull⟩) :=
    rfl
  have one : stagedOnce.calls.length = 1 := by decide +kernel
  refine ⟨returned, by decide +kernel, ?_⟩
  refine (rejection_leaves_no_trace spacedAo .BoundedMpscQueue Nat).1 (fun _ => 0) stagedOnce _
    secondArrival (List.replicate 9 { clock := 200 }) _ run ?_ (one ▸ returned) (by decide)
    (by decide)
  exact replay_outcome (by decide +kernel)

end Coact
