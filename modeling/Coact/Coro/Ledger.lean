import Coact.Coro.Effect
import Coact.Foundation.Transition

/-! The registry with the history of its operations, each atomic under the mutex.
Handles are told apart by the generation of their slot, which grows with every
release: a retired handle never resolves again. A handle has eight bits for the
generation, so a slot of generation 256 cannot be released any more and the
generation stays there. -/
namespace Coact.Coro
open Foundation Registry Function

variable {T : Type} {capacity : Nat}

structure Entry (T : Type) where
  op : Op T
  delivery : Delivery
  answer : Answer T

def Entry.kind (e : Entry T) : Kind T := e.op.kind e.answer.result

/-- The handle that is handed out. -/
def Kind.issue : Kind T → Option TaskId
  | .issued id => some id
  | _ => none

/-- The handle whose task ends, by a release or by a failed delivery. -/
def Kind.retire : Kind T → Option TaskId
  | .died id | .released id => some id
  | _ => none

structure Ledger (T : Type) (capacity : Nat) where
  registry : Registry T capacity
  history : List (Entry T)

namespace Ledger

def initial (T : Type) {capacity : Nat} (positive : 0 < capacity) (fits : capacity ≤ 256) :
    Ledger T capacity := ⟨.initial T positive fits, []⟩

def entry (s : Ledger T capacity) (op : Op T) (delivery : Delivery) : Entry T :=
  ⟨op, delivery, (s.registry.apply op delivery).2⟩

def after (s : Ledger T capacity) (op : Op T) (delivery : Delivery) : Ledger T capacity :=
  ⟨(s.registry.apply op delivery).1, s.history ++ [s.entry op delivery]⟩

/-- An operation always returns. -/
def step (call : Op T × Delivery) (s : Ledger T capacity) : Except Empty (Ledger T capacity) :=
  .ok (s.after call.1 call.2)

def Issued (s : Ledger T capacity) (id : TaskId) : Prop :=
  ∃ e ∈ s.history, e.kind.issue = some id

def Retired (s : Ledger T capacity) (id : TaskId) : Prop :=
  ∃ e ∈ s.history, e.kind.retire = some id

/-- From any registry in its initial state. -/
def Reached (s : Ledger T capacity) : Prop :=
  Reaches step Always (.initial T s.registry.positive s.registry.fits) s

end Ledger

/-- What an operation does to the slots, as far as handles are concerned. -/
inductive Census (r r' : Registry T capacity) (kind : Kind T) : Prop where
  | same : (∀ i, (r'.slots i).generation = (r.slots i).generation) →
      (∀ i, (r'.slots i).state = .kFree ↔ (r.slots i).state = .kFree) →
      kind.issue = none → kind.retire = none → Census r r' kind
  | issued (i : Fin capacity) : (r.slots i).state = .kFree → (r'.slots i).state ≠ .kFree →
      (r'.slots i).generation = (r.slots i).generation → (∀ j, j ≠ i → r'.slots j = r.slots j) →
      kind.issue = some (r.idOf i) → kind.retire = none → Census r r' kind
  | retired (i : Fin capacity) (id : TaskId) : r.findLocked id = some i →
      (r'.slots i).state = .kFree →
      (r'.slots i).generation = (r.slots i).release.generation →
      (∀ j, j ≠ i → r'.slots j = r.slots j) → kind.issue = none → kind.retire = some id →
      Census r r' kind

section
variable {r r' : Registry T capacity} {delivery : Delivery} {op : Op T} {kind : Kind T}
  {posted : Option Posting} {i : Fin capacity}

theorem Census.moved {slot : TaskSlot T} (occupied : (r.slots i).state ≠ .kFree)
    (still : slot.state ≠ .kFree) (generation : slot.generation = (r.slots i).generation)
    (unissued : kind.issue = none) (unretired : kind.retire = none) :
    Census r (r.set i slot) kind := by
  refine .same (fun j => ?_) (fun j => ?_) unissued unretired
  · by_cases here : j = i
    · rw [here, set_slots, update_self, generation]
    · rw [set_slots, update_of_ne here]
  · by_cases here : j = i
    · rw [here, set_slots, update_self]
      exact ⟨fun free => (still free).elim, fun free => (occupied free).elim⟩
    · rw [set_slots, update_of_ne here]

theorem Registry.free_of_firstFree (free : r.firstFree = some i) : (r.slots i).state = .kFree := by
  have test := List.find?_some free
  exact of_decide_eq_true test

theorem Effect.census (effect : Effect r delivery op r' kind posted) : Census r r' kind := by
  have away {slot : TaskSlot T} {i : Fin capacity} (j : Fin capacity) (apart : j ≠ i) :
      (r.set i slot).slots j = r.slots j := update_of_ne apart ..
  cases effect with
  | idle | rejected => exact .same (fun _ => rfl) (fun _ => .rfl) rfl rfl
  | @issued waiter signal qos i free =>
    have here : (r.set i ((r.slots i).created waiter signal qos)).slots i =
        (r.slots i).created waiter signal qos := update_self ..
    refine .issued i (free_of_firstFree free) ?_ ?_ away rfl rfl
    · rw [here]
      nofun
    · rw [here]
      rfl
  | registered found =>
    exact .moved (occupied_of_find found).2.2.1 nofun rfl rfl rfl
  | @silent _ c _ _ found | @posted _ c _ _ _ found =>
    refine .moved (occupied_of_find found).2.2.1 ?_ (c.generation _) rfl rfl
    rw [c.completes]
    nofun
  | @died _ c i _ found =>
    have here : ((r.set i (c.outcome (r.slots i))).undelivered i).slots i =
        (c.outcome (r.slots i)).release := by
      rw [undelivered_slots, update_self]
    refine .retired i c.id found ?_ ?_ (fun j apart => ?_) rfl rfl
    · rw [here]
      rfl
    · rw [here, TaskSlot.release, TaskSlot.release, c.generation]
    · rw [undelivered_slots, update_of_ne apart]
  | @taken _ _ _ found =>
    have occupied := (occupied_of_find found).2.2.1
    exact .moved occupied occupied rfl rfl rfl
  | @released id i found =>
    have here : (r.set i (r.slots i).release).slots i = (r.slots i).release := update_self ..
    refine .retired i id found ?_ ?_ away rfl rfl
    · rw [here]
      rfl
    · rw [here]

end

section
variable {r r' : Registry T capacity} {i : Fin capacity} {id : TaskId}

theorem Registry.slot_idOf (r : Registry T capacity) (i : Fin capacity) :
    (r.idOf i).slot.raw.toNat = i := by
  have fits := r.fits
  rw [idOf, TaskId.slot_make, UInt16.toNat_ofNat']
  omega

theorem Registry.generation_idOf (r : Registry T capacity) (i : Fin capacity) :
    (r.idOf i).generation.toNat = (r.slots i).generation.toNat % 256 := TaskId.generation_make ..

theorem Registry.find_iff : r.findLocked id = some i ↔
    id ≠ kInvalidTaskId ∧ id.slot.raw.toNat = i ∧ (r.slots i).state ≠ .kFree ∧
      (r.slots i).generation = id.generation := by
  constructor
  · exact occupied_of_find
  · rintro ⟨valid, slot, occupied, current⟩
    exact find_of_occupied valid slot occupied current

theorem Registry.find_congr (same : r'.slots i = r.slots i) :
    r'.findLocked id = some i ↔ r.findLocked id = some i := by
  rw [find_iff, find_iff, same]

theorem Registry.idOf_congr (same : (r'.slots i).generation = (r.slots i).generation) :
    r'.idOf i = r.idOf i := by
  rw [idOf, idOf, same]

theorem Registry.eq_idOf (found : r.findLocked id = some i) : id = r.idOf i := by
  obtain ⟨-, slot, -, current⟩ := occupied_of_find found
  refine TaskId.ext_parts (slot.trans (r.slot_idOf i).symm) ?_
  rw [generation_idOf, current, Nat.mod_eq_of_lt id.generation_lt]

/-- The slot's own handle resolves unless the generation is too large for it. -/
theorem Registry.find_idOf (positive : 0 < (r.slots i).generation.toNat)
    (occupied : (r.slots i).state ≠ .kFree) (small : (r.slots i).generation.toNat < 256) :
    r.findLocked (r.idOf i) = some i := by
  have current : (r.idOf i).generation.toNat = (r.slots i).generation.toNat := by
    rw [generation_idOf, Nat.mod_eq_of_lt small]
  refine find_of_occupied (fun invalid => ?_) (r.slot_idOf i) occupied
    (UInt16.toNat_inj.mp current.symm)
  have zero := ((TaskId.eq_invalid_iff _).mp invalid).2
  omega

theorem Registry.generation_release (found : r.findLocked id = some i) :
    (r.slots i).release.generation.toNat = (r.slots i).generation.toNat + 1 := by
  have current := (occupied_of_find found).2.2.2
  have small := id.generation_lt
  rw [← current] at small
  have next : ((r.slots i).generation + 1).toNat = (r.slots i).generation.toNat + 1 := by
    rw [UInt16.toNat_add]
    exact Nat.mod_eq_of_lt (by change _ + 1 < 2 ^ 16; omega)
  rw [TaskSlot.release]
  rw [if_neg, next]
  intro zero
  rw [zero] at next
  cases next

end

/-- Where the handles of a history stand. -/
structure Ledger.Sound (s : Ledger T capacity) : Prop where
  generation : ∀ i, 0 < (s.registry.slots i).generation.toNat ∧
    (s.registry.slots i).generation.toNat ≤ 256
  issued : ∀ id, s.Issued id → s.Retired id ∨
    ∃ i, id = s.registry.idOf i ∧ (s.registry.slots i).state ≠ .kFree
  held : ∀ i, (s.registry.slots i).state ≠ .kFree → s.Issued (s.registry.idOf i)
  retired : ∀ id, s.Retired id → ∃ i : Fin capacity, id.slot.raw.toNat = i ∧
    0 < id.generation.toNat ∧ id.generation.toNat < (s.registry.slots i).generation.toNat

section
variable {s : Ledger T capacity} {op : Op T} {delivery : Delivery}

theorem Ledger.effect (s : Ledger T capacity) (op : Op T) (delivery : Delivery) :
    Effect s.registry delivery op (s.after op delivery).registry (s.entry op delivery).kind
      (s.entry op delivery).answer.posted := effect_apply s.registry delivery op

theorem Ledger.issued_after (id : TaskId) : (s.after op delivery).Issued id ↔
    s.Issued id ∨ (s.entry op delivery).kind.issue = some id := by
  simp [Issued, after, or_and_right, exists_or]

theorem Ledger.retired_after (id : TaskId) : (s.after op delivery).Retired id ↔
    s.Retired id ∨ (s.entry op delivery).kind.retire = some id := by
  simp [Retired, after, or_and_right, exists_or]

theorem Ledger.Sound.initial (positive : 0 < capacity) (fits : capacity ≤ 256) :
    (Ledger.initial T positive fits).Sound where
  generation _ := ⟨Nat.one_pos, Nat.le_of_ble_eq_true rfl⟩
  issued id never := by simp [Ledger.initial, Issued] at never
  held i never := (never rfl).elim
  retired id never := by simp [Ledger.initial, Retired] at never

theorem Ledger.Sound.after (inv : s.Sound) (op : Op T) (delivery : Delivery) :
    (s.after op delivery).Sound := by
  have grows (id : TaskId) (before : s.Retired id) : (s.after op delivery).Retired id :=
    (retired_after id).mpr (.inl before)
  cases (s.effect op delivery).census with
  | same generation state unissued unretired =>
    have issued (id : TaskId) : (s.after op delivery).Issued id ↔ s.Issued id := by
      rw [issued_after, unissued]
      simp
    have retired (id : TaskId) : (s.after op delivery).Retired id ↔ s.Retired id := by
      rw [retired_after, unretired]
      simp
    refine ⟨fun i => ?_, fun id known => ?_, fun i occupied => ?_, fun id gone => ?_⟩
    · rw [generation]
      exact inv.generation i
    · rcases inv.issued id ((issued id).mp known) with gone | ⟨i, same, occupied⟩
      · exact .inl (grows id gone)
      · refine .inr ⟨i, same.trans (idOf_congr (generation i)).symm, fun free => ?_⟩
        exact occupied ((state i).mp free)
    · rw [idOf_congr (generation i), issued]
      exact inv.held i fun free => occupied ((state i).mpr free)
    · obtain ⟨i, slot, positive, below⟩ := inv.retired id ((retired id).mp gone)
      exact ⟨i, slot, positive, by rw [generation]; exact below⟩
  | issued i free occupied generation others issue unretired =>
    have retired (id : TaskId) : (s.after op delivery).Retired id ↔ s.Retired id := by
      rw [retired_after, unretired]
      simp
    have kept (j : Fin capacity) : ((s.after op delivery).registry.slots j).generation =
        (s.registry.slots j).generation := by
      by_cases here : j = i
      · rw [here, generation]
      · rw [others j here]
    refine ⟨fun j => ?_, fun id known => ?_, fun j taken => ?_, fun id gone => ?_⟩
    · rw [kept]
      exact inv.generation j
    · rcases (issued_after id).mp known with before | new
      · rcases inv.issued id before with gone | ⟨j, same, held⟩
        · exact .inl (grows id gone)
        · refine .inr ⟨j, same.trans (idOf_congr (kept j)).symm, ?_⟩
          have apart : j ≠ i := by
            rintro rfl
            exact held free
          rw [others j apart]
          exact held
      · rw [issue] at new
        cases new
        exact .inr ⟨i, (idOf_congr (kept i)).symm, occupied⟩
    · rw [idOf_congr (kept j), issued_after]
      by_cases here : j = i
      · rw [here]
        exact .inr issue
      · rw [others j here] at taken
        exact .inl (inv.held j taken)
    · obtain ⟨j, slot, positive, below⟩ := inv.retired id ((retired id).mp gone)
      exact ⟨j, slot, positive, by rw [kept]; exact below⟩
  | retired i id found free generation others unissued retire =>
    have issued (id : TaskId) : (s.after op delivery).Issued id ↔ s.Issued id := by
      rw [issued_after, unissued]
      simp
    have next := generation_release found
    rw [← generation] at next
    obtain ⟨-, slot, -, current⟩ := occupied_of_find found
    have small := id.generation_lt
    have bounds := inv.generation i
    rw [current] at next bounds
    refine ⟨fun j => ?_, fun id' known => ?_, fun j taken => ?_, fun id' gone => ?_⟩
    · by_cases here : j = i
      · rw [here]
        omega
      · rw [others j here]
        exact inv.generation j
    · rcases inv.issued id' ((issued id').mp known) with gone | ⟨j, same, held⟩
      · exact .inl (grows id' gone)
      · by_cases here : j = i
        · refine .inl ((retired_after id').mpr (.inr ?_))
          rw [retire, same, here, ← eq_idOf found]
        · refine .inr ⟨j, ?_, ?_⟩
          · rw [same]
            exact (idOf_congr (congrArg _ (others j here))).symm
          · rw [others j here]
            exact held
    · have apart : j ≠ i := by
        rintro rfl
        exact taken free
      rw [others j apart] at taken
      rw [idOf_congr (congrArg _ (others j apart)), issued]
      exact inv.held j taken
    · rcases (retired_after id').mp gone with before | new
      · obtain ⟨j, place, positive, below⟩ := inv.retired id' before
        refine ⟨j, place, positive, ?_⟩
        by_cases here : j = i
        · subst here
          rw [current] at below
          omega
        · rw [others j here]
          exact below
      · rw [retire] at new
        cases new
        exact ⟨i, slot, bounds.1, by omega⟩

theorem Ledger.Reached.sound (run : s.Reached) : s.Sound := by
  refine Reaches.invariant run (.initial _ _) fun call s t inv _ ran => ?_
  cases ran
  exact inv.after call.1 call.2

theorem Ledger.Sound.unresolved (inv : s.Sound) {id : TaskId} (gone : s.Retired id) :
    s.registry.findLocked id = none := by
  obtain ⟨i, slot, -, below⟩ := inv.retired id gone
  cases found : s.registry.findLocked id with
  | none => rfl
  | some j =>
    obtain ⟨-, place, -, current⟩ := occupied_of_find found
    obtain rfl : i = j := Fin.ext (slot.symm.trans place)
    rw [current] at below
    exact (Nat.lt_irrefl _ below).elim

end

end Coact.Coro
