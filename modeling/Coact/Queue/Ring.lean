import Coact.Queue.Backend

/-! `SingleCoreCriticalRing`: every operation is one critical section, hence
one access. `write_index_` is the position of the oldest payload and `count_`
the number of constructed cells behind it. -/
namespace Coact
open Function

structure Ring (α : Type) where
  capacity : Nat
  cells : Nat → Option α
  writeIndex : Nat
  count : Nat
  write_lt : writeIndex < capacity
  count_le : count ≤ capacity
  live : ∀ i < count, (cells ((writeIndex + i) % capacity)).isSome

namespace Ring
variable {α : Type}

def empty (capacity : Nat) (pos : 0 < capacity) : Ring α where
  capacity := capacity
  cells := fun _ => none
  writeIndex := 0
  count := 0
  write_lt := pos
  count_le := Nat.zero_le _
  live := by simp

theorem slot_ne {w c n i : Nat} (below : i < n) (room : n < c) : (w + i) % c ≠ (w + n) % c := by
  intro same
  have gap := Nat.sub_mod_eq_zero_of_mod_eq same.symm
  rw [Nat.add_sub_add_left, Nat.mod_eq_of_lt (by omega)] at gap
  omega

def pushed (q : Ring α) (v : α) (room : q.count < q.capacity) : Ring α where
  capacity := q.capacity
  cells := update q.cells ((q.writeIndex + q.count) % q.capacity) (some v)
  writeIndex := q.writeIndex
  count := q.count + 1
  write_lt := q.write_lt
  count_le := room
  live := by
    intro i below
    rcases Nat.lt_succ_iff_lt_or_eq.mp below with older | rfl
    · rw [update_of_ne (slot_ne older room)]
      exact q.live i older
    · simp

theorem next_position (q : Ring α) (i : Nat) :
    ((q.writeIndex + 1) % q.capacity + i) % q.capacity = (q.writeIndex + (i + 1)) % q.capacity := by
  rw [Nat.mod_add_mod, Nat.add_right_comm, Nat.add_assoc]

theorem later_ne_oldest (q : Ring α) (below : i + 1 < q.count) :
    (q.writeIndex + (i + 1)) % q.capacity ≠ q.writeIndex := by
  have bound := q.count_le
  have apart := slot_ne (w := q.writeIndex) (Nat.succ_pos i) (show i + 1 < q.capacity by omega)
  rw [Nat.add_zero, Nat.mod_eq_of_lt q.write_lt] at apart
  exact apart.symm

def popped (q : Ring α) : Ring α where
  capacity := q.capacity
  cells := update q.cells q.writeIndex none
  writeIndex := (q.writeIndex + 1) % q.capacity
  count := q.count - 1
  write_lt := Nat.mod_lt _ (Nat.zero_lt_of_lt q.write_lt)
  count_le := by have := q.count_le; omega
  live := by
    intro i below
    rw [next_position, update_of_ne (q.later_ne_oldest (by omega))]
    exact q.live (i + 1) (by omega)

/-- `push_observed_impl`, with `QueueResult::success`. -/
def pushObserved (q : Ring α) (v : α) : Ring α × Bool :=
  if room : q.count < q.capacity then (q.pushed v room, true) else (q, false)

def tryPop (q : Ring α) : Ring α × Option α :=
  if 0 < q.count then (q.popped, q.cells q.writeIndex) else (q, none)

/-- Payloads from the oldest to the newest. -/
def toList (q : Ring α) : List α :=
  (List.range q.count).filterMap fun i => q.cells ((q.writeIndex + i) % q.capacity)

theorem toList_length (q : Ring α) : q.toList.length = q.count := by
  have all : ∀ i ∈ List.range q.count, ((q.cells ((q.writeIndex + i) % q.capacity))).isSome := by
    intro i mem
    exact q.live i (List.mem_range.mp mem)
  rw [toList, List.length_filterMap_eq_countP, List.countP_eq_length.mpr all, List.length_range]

theorem toList_eq_nil {q : Ring α} : q.toList = [] ↔ q.count = 0 := by
  rw [← List.length_eq_zero_iff, toList_length]

theorem toList_pushed (q : Ring α) (v : α) (room : q.count < q.capacity) :
    (q.pushed v room).toList = q.toList ++ [v] := by
  simp only [pushed, toList, List.range_succ, List.filterMap_append, List.filterMap_cons,
    List.filterMap_nil, update_self]
  congr 1
  apply List.filterMap_congr
  intro i mem
  rw [update_of_ne (slot_ne (List.mem_range.mp mem) room)]

theorem toList_popped (q : Ring α) (filled : 0 < q.count) :
    ∃ v, q.cells q.writeIndex = some v ∧ q.toList = v :: q.popped.toList := by
  obtain ⟨v, stored⟩ := Option.isSome_iff_exists.mp (q.live 0 filled)
  rw [Nat.add_zero, Nat.mod_eq_of_lt q.write_lt] at stored
  refine ⟨v, stored, ?_⟩
  obtain ⟨n, count⟩ : ∃ n, q.count = n + 1 := ⟨q.count - 1, by omega⟩
  simp only [popped, toList, count, Nat.add_sub_cancel]
  rw [List.range_succ_eq_map, List.filterMap_cons, List.filterMap_map]
  simp only [Nat.add_zero, Nat.mod_eq_of_lt q.write_lt, stored, List.cons.injEq, true_and]
  apply List.filterMap_congr
  intro i mem
  have below := List.mem_range.mp mem
  rw [next_position, update_of_ne (q.later_ne_oldest (by omega))]
  rfl

theorem pushObserved_cases (q : Ring α) (v : α) :
    (∃ q', q.pushObserved v = (q', true) ∧ q'.toList = q.toList ++ [v]) ∨
    (q.count = q.capacity ∧ q.pushObserved v = (q, false)) := by
  by_cases room : q.count < q.capacity
  · exact .inl ⟨_, by rw [pushObserved, dif_pos room], toList_pushed q v room⟩
  · exact .inr ⟨by have := q.count_le; omega, by rw [pushObserved, dif_neg room]⟩

theorem tryPop_cases (q : Ring α) :
    (∃ q' v, q.tryPop = (q', some v) ∧ q.toList = v :: q'.toList) ∨
    (q.toList = [] ∧ q.tryPop = (q, none)) := by
  by_cases filled : 0 < q.count
  · obtain ⟨v, stored, split⟩ := toList_popped q filled
    exact .inl ⟨_, v, by rw [tryPop, if_pos filled, stored], split⟩
  · exact .inr ⟨toList_eq_nil.mpr (by omega), by rw [tryPop, if_neg filled]⟩

def front (q : Ring α) : Option α := if 0 < q.count then q.cells q.writeIndex else none

def hasReady (q : Ring α) : Bool := q.count != 0

theorem tryPop_front (q : Ring α) : q.tryPop.2 = q.front := by
  rw [tryPop, front]
  split <;> rfl

theorem front_eq_head (q : Ring α) : q.front = q.toList.head? := by
  rw [← tryPop_front]
  rcases tryPop_cases q with ⟨q', v, popped, split⟩ | ⟨nil, popped⟩
  · rw [popped, split]
    rfl
  · rw [popped, nil]
    rfl

theorem hasReady_front (q : Ring α) : q.hasReady = q.front.isSome := by
  rw [front_eq_head, hasReady, ← toList_length]
  cases q.toList <;> rfl

end Ring

def ringBackend (α : Type) : Backend α where
  Q := Ring α
  Push := Unit
  Ready := Unit
  Size := Unit
  Front := Unit
  Pop := Unit
  empty := Ring.empty
  tryPush := ()
  pushStep v q _ := ((q.pushObserved v).1, .inr (q.pushObserved v).2)
  hasReady := ()
  readyStep q _ := .inr q.hasReady
  size := ()
  sizeStep q _ := .inr q.count
  front := ()
  frontStep q _ := .inr q.front
  tryPop := ()
  popStep q _ := ((q.tryPop).1, .inr (q.tryPop).2)

def ringStore (α : Type) : (ringBackend α).Store where
  Cells := Ring α
  cells q := q
  unclaimed _ := true
  start := rfl
  push_next ran := by cases ran
  push_fail := by
    intro v q p q' ran
    simp only [ringBackend] at ran
    rcases Ring.pushObserved_cases q v with ⟨_, done, _⟩ | ⟨_, full⟩
    · rw [done] at ran
      cases ran
    · rw [full] at ran
      cases ran
      exact ⟨rfl, rfl⟩

/-- The ring is first in, first out. -/
def ringFifo (α : Type) : (ringBackend α).Fifo where
  contents := Ring.toList
  empty _ _ := rfl
  push_next ran := by cases ran
  push_fail := by
    intro v q p q' ran
    simp only [ringBackend] at ran
    rcases Ring.pushObserved_cases q v with ⟨_, done, _⟩ | ⟨_, full⟩
    · rw [done] at ran
      cases ran
    · rw [full] at ran
      cases ran
      rfl
  push_done := by
    intro v q p q' ran
    simp only [ringBackend] at ran
    rcases Ring.pushObserved_cases q v with ⟨_, done, appended⟩ | ⟨_, full⟩
    · rw [done] at ran
      cases ran
      exact appended
    · rw [full] at ran
      cases ran
  pop_next ran := by cases ran
  pop_none := by
    intro q c q' ran
    simp only [ringBackend] at ran
    rcases Ring.tryPop_cases q with ⟨_, _, done, _⟩ | ⟨_, none⟩
    · rw [done] at ran
      cases ran
    · rw [none] at ran
      cases ran
      rfl
  pop_some := by
    intro q c q' v ran
    simp only [ringBackend] at ran
    rcases Ring.tryPop_cases q with ⟨_, _, done, split⟩ | ⟨_, none⟩
    · rw [done] at ran
      cases ran
      exact split
    · rw [none] at ran
      cases ran

/-- The ring keeps its invariant in its type; the published payloads are its
list and every operation is a single access. -/
def ringLawful (α : Type) : (ringBackend α).Lawful where
  Inv _ _ _ := True
  resident q := (Ring.toList q : Multiset α)
  sees q _ := Ring.toList q ≠ []
  counts q _ := Ring.count q
  inv_empty _ _ := trivial
  resident_empty _ _ := rfl
  push_start _ _ := trivial
  push_next _ _ ran := by cases ran
  push_fail _ _ ran := ⟨trivial, congrArg _ ((ringFifo α).push_fail ran)⟩
  push_done := by
    intro q ps c i v p q' _ _ ran
    have appended : Ring.toList q' = Ring.toList q ++ [v] := (ringFifo α).push_done ran
    refine ⟨trivial, ?_⟩
    rw [appended, Multiset.cons_coe, Multiset.coe_eq_coe]
    exact List.perm_append_singleton _ _
  pop_start _ := trivial
  pop_next _ ran := by cases ran
  pop_none _ ran := ⟨trivial, congrArg _ ((ringFifo α).pop_none ran)⟩
  pop_some := by
    intro q ps c q' v _ ran
    have split : Ring.toList q = v :: Ring.toList q' := (ringFifo α).pop_some ran
    exact ⟨trivial, by rw [split, Multiset.cons_coe]⟩
  sees_start _ filled := fun none => filled (by rw [none]; rfl)
  sees_next _ ran := by cases ran
  sees_done := by
    intro q r b filled ran
    cases ran
    exact bne_iff_ne.mpr (fun zero => filled (Ring.toList_eq_nil.mpr zero))
  sees_push := by
    intro q ps c i v p r _ _ filled
    simp only [ringBackend]
    rcases Ring.pushObserved_cases q v with ⟨_, done, appended⟩ | ⟨_, full⟩
    · rw [done, appended]
      simp
    · rw [full]
      exact filled
  counts_start _ zero := by rw [Ring.toList_eq_nil.mpr zero]; rfl
  counts_next ran := by cases ran
  counts_done ran := by
    simp only [ringBackend, Sum.inr.injEq] at ran
    exact ran.symm

theorem Ring.capacity_pushObserved {α : Type} (q : Ring α) (v : α) :
    (q.pushObserved v).1.capacity = q.capacity := by
  rw [pushObserved]
  split <;> rfl

theorem Ring.capacity_tryPop {α : Type} (q : Ring α) : q.tryPop.1.capacity = q.capacity := by
  rw [tryPop]
  split <;> rfl

theorem Ring.card_le {α : Type} (q : Ring α) :
    Multiset.card (q.toList : Multiset α) ≤ q.capacity := by
  rw [Multiset.coe_card, toList_length]
  exact q.count_le

def ringBounded (α : Type) : Backend.Bounded (ringLawful α) where
  capacity q := Ring.capacity q
  empty _ _ := rfl
  push v q _ := Ring.capacity_pushObserved q v
  pop q _ := Ring.capacity_tryPop q
  card_le q := Ring.card_le q

end Coact
