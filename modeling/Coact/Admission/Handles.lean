import Coact.Admission
import Coact.Foundation.Tally
import Coact.Foundation.Transition

/-! `ArrivalReservation` handles. However they are built, moved, committed, rolled
back and destroyed, each gate counts the handles that are live on it. -/
namespace Coact
open Foundation
open Function (update update_self update_of_ne)

/-- What can happen to the gates and to a reservation, a gate with its timestamp. -/
inductive Reserves : (Nat → ArrivalGate) → Option (Nat × Nat) → (Nat → ArrivalGate) →
    Option (Nat × Nat) → Prop
  | same {gate r} : Reserves gate r gate r
  | reserve (gate g now minNs) : ((gate g).tryReserve now minNs).2 = true →
      Reserves gate none (update gate g ((gate g).tryReserve now minNs).1) (some (g, now))
  | commit (gate g now) :
      Reserves gate (some (g, now)) (update gate g ((gate g).commit now)) none
  | rollback (gate g now) :
      Reserves gate (some (g, now)) (update gate g (gate g).rollback) none

/-- One if the reservation is on gate `g`. -/
def holding (g : Nat) (r : Option (Nat × Nat)) : Nat := if r.map Prod.fst = some g then 1 else 0

/-- Gate `g` counts its live reservations and forgets the timestamp of the last one. -/
structure Accounted (gate : ArrivalGate) (live : Nat) : Prop where
  holds : gate.holds = live
  clear : gate.holds = 0 → gate.holdNs = 0

theorem Accounted.release {gate : ArrivalGate} {live : Nat} (inv : Accounted gate (live + 1)) :
    Accounted gate.releaseHold live where
  holds := by rw [ArrivalGate.releaseHold_holds, inv.holds, Nat.add_sub_cancel]
  clear none := by
    rw [ArrivalGate.releaseHold_holds] at none
    have held : gate.holds ≠ 0 := by rw [inv.holds]; exact Nat.succ_ne_zero live
    rw [ArrivalGate.releaseHold, if_pos held]
    exact if_pos none

theorem Reserves.accounted {gate : Nat → ArrivalGate}
    (moved : Reserves gate r gate' r') {g n : Nat} (inv : Accounted (gate g) (n + holding g r)) :
    Accounted (gate' g) (n + holding g r') := by
  cases moved with
  | same => exact inv
  | reserve g' _ _ admitted =>
    by_cases here : g = g'
    · subst here
      rw [update_self, ArrivalGate.tryReserve_taken admitted]
      refine ⟨?_, fun never => (Nat.succ_ne_zero _ never).elim⟩
      simp [inv.holds, holding]
    · rw [update_of_ne here]
      simpa [holding, Ne.symm here] using inv
  | commit g' =>
    by_cases here : g = g'
    · subst here
      rw [update_self]
      have held : Accounted (gate g) (n + 1) := by simpa [holding] using inv
      exact Accounted.release ⟨held.holds, held.clear⟩
    · rw [update_of_ne here]
      simpa [holding, Ne.symm here] using inv
  | rollback g' =>
    by_cases here : g = g'
    · subst here
      rw [update_self]
      have held : Accounted (gate g) (n + 1) := by simpa [holding] using inv
      exact held.release
    · rw [update_of_ne here]
      simpa [holding, Ne.symm here] using inv

theorem Reserves.exchange {α : Type} {r : α → Option (Nat × Nat)} {entries : List α}
    {before after : α} {gate : Nat → ArrivalGate} (found : entries[i]? = some before)
    (moved : Reserves gate (r before) gate' (r after))
    (inv : Accounted (gate g) (tally (fun e => holding g (r e)) entries)) :
    Accounted (gate' g) (tally (fun e => holding g (r e)) (entries.set i after)) := by
  obtain ⟨others, total⟩ := Nat.exists_eq_add_of_le
    (weight_le_tally (w := fun e => holding g (r e)) (List.mem_of_getElem? found))
  have exchanged := tally_set (w := fun e => holding g (r e)) found after
  rw [total, Nat.add_comm] at inv
  have next := moved.accounted inv
  rw [show others + holding g (r after) =
    tally (fun e => holding g (r e)) (entries.set i after) by omega] at next
  exact next

/-- A handle; `gate_` is an index, and null is `none`. -/
structure ArrivalReservation where
  gate : Option Nat
  now : Nat

namespace ArrivalReservation

def inert : ArrivalReservation := ⟨none, 0⟩

/-- What is left of a handle that was moved from. -/
def moved (h : ArrivalReservation) : ArrivalReservation := { h with gate := none }

/-- The window a handle holds. -/
def held (h : ArrivalReservation) : Option (Nat × Nat) := h.gate.map (·, h.now)

def commit (gates : Nat → ArrivalGate) (h : ArrivalReservation) :
    (Nat → ArrivalGate) × ArrivalReservation :=
  match h.gate with
  | some g => (update gates g ((gates g).commit h.now), h.moved)
  | none => (gates, h)

def rollback (gates : Nat → ArrivalGate) (h : ArrivalReservation) :
    (Nat → ArrivalGate) × ArrivalReservation :=
  match h.gate with
  | some g => (update gates g (gates g).rollback, h.moved)
  | none => (gates, h)

/-- The assignment from a temporary, which is inert when it is destroyed. -/
def assign (gates : Nat → ArrivalGate) (this other : ArrivalReservation) :
    (Nat → ArrivalGate) × ArrivalReservation := ((this.rollback gates).1, other)

theorem commit_reserves (gates : Nat → ArrivalGate) (h : ArrivalReservation) :
    Reserves gates h.held (h.commit gates).1 (h.commit gates).2.held := by
  obtain ⟨gate, now⟩ := h
  cases gate with
  | some g => exact .commit gates g now
  | none => exact .same

theorem rollback_reserves (gates : Nat → ArrivalGate) (h : ArrivalReservation) :
    Reserves gates h.held (h.rollback gates).1 none := by
  obtain ⟨gate, now⟩ := h
  cases gate with
  | some g => exact .rollback gates g now
  | none => exact .same

theorem rollback_held (gates : Nat → ArrivalGate) (h : ArrivalReservation) :
    (h.rollback gates).2.held = none := by
  obtain ⟨gate, now⟩ := h
  cases gate <;> rfl

end ArrivalReservation

/-- `StaticAdmission::reserve`. -/
def StaticAdmission.reserve (cfg : Config) (rows : List TargetAdmission)
    (gates : Nat → ArrivalGate) (target : TargetId) (now : Nat) (out : ArrivalReservation) :
    (Nat → ArrivalGate) × ArrivalReservation × Bool :=
  let minNs := (limitsFor cfg rows target).minArrival
  let g := gateFor cfg target
  if minNs = 0 then
    let (gates, out) := out.assign gates .inert
    (gates, out, true)
  else
    let (gate, admitted) := (gates g).tryReserve now minNs
    if admitted then
      let (gates, out) := out.assign (update gates g gate) ⟨some g, now⟩
      (gates, out, true)
    else
      let (gates, out) := out.assign gates .inert
      (gates, out, false)

/-- Gates and handle objects; a destroyed object is `none`. -/
structure Holders where
  gates : Nat → ArrivalGate
  objects : List (Option ArrivalReservation)

namespace Holders

inductive Label where
  | construct
  /-- `try_reserve` on a gate, and a handle for the window if it was granted. -/
  | adopt (g now minNs : Nat)
  | reserve (i : Nat) (target : TargetId) (now : Nat)
  | moveConstruct (j : Nat)
  | moveAssign (i j : Nat)
  | commit (i : Nat)
  | rollback (i : Nat)
  | destroy (i : Nat)

/-- A destroyed object is not used. -/
inductive Fault where
  | dead

def initial : Holders := ⟨fun _ => .initial, []⟩

/-- An operation on object `i`. -/
def on (s : Holders) (i : Nat) (run : ArrivalReservation → Holders) : Except Fault Holders :=
  match s.objects[i]? with
  | some (some h) => .ok (run h)
  | _ => .error .dead

def store (s : Holders) (i : Nat) (gates : Nat → ArrivalGate) (h : Option ArrivalReservation) :
    Holders := ⟨gates, s.objects.set i h⟩

def step (cfg : Config) (rows : List TargetAdmission) : Label → Holders → Except Fault Holders
  | .construct, s => .ok { s with objects := s.objects ++ [some .inert] }
  | .adopt g now minNs, s =>
    let (gate, admitted) := (s.gates g).tryReserve now minNs
    if admitted then .ok ⟨update s.gates g gate, s.objects ++ [some ⟨some g, now⟩]⟩
    else .ok s
  | .reserve i target now, s => s.on i fun out =>
    let (gates, out, _) := StaticAdmission.reserve cfg rows s.gates target now out
    s.store i gates (some out)
  | .moveConstruct j, s => s.on j fun other =>
    ⟨s.gates, s.objects.set j (some other.moved) ++ [some other]⟩
  | .moveAssign i j, s =>
    match s.objects[i]?, s.objects[j]? with
    | some (some this), some (some other) =>
      if i = j then .ok s
      else
        let (gates, this) := this.assign s.gates other
        .ok ⟨gates, (s.objects.set i (some this)).set j (some other.moved)⟩
    | _, _ => .error .dead
  | .commit i, s => s.on i fun h =>
    let (gates, h) := h.commit s.gates
    s.store i gates (some h)
  | .rollback i, s => s.on i fun h =>
    let (gates, h) := h.rollback s.gates
    s.store i gates (some h)
  | .destroy i, s => s.on i fun h =>
    let (gates, _) := h.rollback s.gates
    s.store i gates none

/-- The window of an object. -/
def window (x : Option ArrivalReservation) : Option (Nat × Nat) := x.bind ArrivalReservation.held

/-- The handles that are live on gate `g`. -/
def live (g : Nat) (s : Holders) : Nat := tally (fun x => holding g (window x)) s.objects

def Balanced (s : Holders) : Prop := ∀ g, Accounted (s.gates g) (s.live g)

variable {cfg : Config} {rows : List TargetAdmission} {s t : Holders} {i : Nat}

theorem on_ok {run : ArrivalReservation → Holders} (done : s.on i run = .ok t) :
    ∃ h, s.objects[i]? = some (some h) ∧ t = run h := by
  simp only [on] at done
  split at done
  · rename_i h found
    exact ⟨h, found, (Except.ok.inj done).symm⟩
  · cases done

variable {x : Option ArrivalReservation} {gates : Nat → ArrivalGate}

theorem Balanced.store (inv : Balanced s)
    (found : s.objects[i]? = some (some h)) (moved : Reserves s.gates h.held gates (window x)) :
    Balanced (s.store i gates x) :=
  fun g => moved.exchange (r := window) found (inv g)

theorem Balanced.append (inv : Balanced s) (moved : Reserves s.gates none gates (window x)) :
    Balanced ⟨gates, s.objects ++ [x]⟩ := by
  intro g
  have next := moved.accounted (n := s.live g) (inv g)
  simpa [live] using next

theorem Balanced.renew (inv : Balanced s) {out : ArrivalReservation} {g now minNs : Nat}
    (found : s.objects[i]? = some (some out))
    (admitted : ((s.gates g).tryReserve now minNs).2 = true) :
    Balanced (s.store i (out.rollback
      (update s.gates g ((s.gates g).tryReserve now minNs).1)).1 (some ⟨some g, now⟩)) := by
  intro g'
  have reserved := (Reserves.reserve s.gates g now minNs admitted).accounted
    (g := g') (n := s.live g') (inv g')
  have exchanged := tally_set (w := fun x => holding g' (window x)) found (some ⟨some g, now⟩)
  have total : s.live g' + holding g' (some (g, now)) =
      (s.store i s.gates (some ⟨some g, now⟩)).live g' + holding g' out.held := exchanged.symm
  rw [total] at reserved
  exact (out.rollback_reserves _).accounted reserved

theorem Balanced.step (inv : Balanced s) (ran : step cfg rows label s = .ok t) : Balanced t := by
  cases label with
  | construct =>
    cases ran
    exact inv.append .same
  | adopt g now minNs =>
    simp only [Holders.step] at ran
    split at ran <;> cases ran
    · rename_i admitted
      exact inv.append (.reserve _ _ _ _ admitted)
    · exact inv
  | reserve i target now =>
    obtain ⟨out, found, rfl⟩ := on_ok ran
    have dropped := inv.store found (x := some .inert) (out.rollback_reserves s.gates)
    simp only [StaticAdmission.reserve]
    split
    · exact dropped
    · split
      · rename_i admitted
        exact inv.renew found admitted
      · exact dropped
  | moveConstruct =>
    obtain ⟨other, found, rfl⟩ := on_ok ran
    intro g
    have exchanged := tally_set (w := fun x => holding g (window x)) found (some other.moved)
    rw [live, tally_append, tally_cons, tally_nil, Nat.add_zero]
    exact exchanged ▸ inv g
  | moveAssign i j =>
    simp only [Holders.step] at ran
    split at ran
    · rename_i this other here there
      split at ran <;> cases ran
      · exact inv
      · rename_i apart
        intro g
        have first := tally_set (w := fun x => holding g (window x)) here (some other)
        have kept : (s.objects.set i (some other))[j]? = some (some other) := by
          rw [List.getElem?_set_ne apart, there]
        have second := tally_set (w := fun x => holding g (window x)) kept (some other.moved)
        have total : s.live g = tally (fun x => holding g (window x))
            ((s.objects.set i (some other)).set j (some other.moved)) + holding g this.held := by
          have gone : holding g (window (some other.moved)) = 0 := rfl
          have own : window (some this) = this.held := rfl
          rw [own] at first
          rw [live]
          omega
        have before := inv g
        rw [total] at before
        exact (this.rollback_reserves s.gates).accounted before
    · cases ran
  | commit =>
    obtain ⟨h, found, rfl⟩ := on_ok ran
    exact inv.store found (h.commit_reserves s.gates)
  | rollback =>
    obtain ⟨h, found, rfl⟩ := on_ok ran
    have empty : window (some (h.rollback s.gates).2) = none := h.rollback_held s.gates
    exact inv.store found (empty ▸ h.rollback_reserves s.gates)
  | destroy =>
    obtain ⟨h, found, rfl⟩ := on_ok ran
    exact inv.store found (h.rollback_reserves s.gates)

theorem balanced_of_reaches (reached : Reaches (step cfg rows) Always initial s) : Balanced s :=
  reached.invariant (fun _ => ⟨rfl, fun _ => rfl⟩) fun _ _ _ inv _ ran => inv.step ran

end Holders

end Coact
