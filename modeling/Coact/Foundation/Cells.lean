import Mathlib.Data.List.Basic

/-! Text in a memory of cells, and streams of blocks that all have one length. -/
namespace Coact.Foundation
open Function

abbrev Cells (α : Type) := Nat → α

namespace Cells
variable {α : Type}

/-- Store a text from `offset` on. -/
def store (cells : Cells α) (offset : Nat) : List α → Cells α
  | [] => cells
  | c :: text => store (update cells offset c) (offset + 1) text

/-- The first `n` cells. -/
def read (cells : Cells α) (n : Nat) : List α := (List.range n).map cells

section
variable (cells : Cells α)
include cells

theorem store_outside (offset : Nat) (text : List α)
    (outside : i < offset ∨ offset + text.length ≤ i) : cells.store offset text i = cells i := by
  induction text generalizing cells offset with
  | nil => rfl
  | cons c text ih =>
    rw [List.length_cons] at outside
    rw [store, ih _ _ (by omega), update_of_ne (by omega)]

theorem store_inside (offset : Nat) (text : List α)
    (inside : i < text.length) : cells.store offset text (offset + i) = text[i] := by
  induction text generalizing cells offset i with
  | nil => exact absurd inside (Nat.not_lt_zero i)
  | cons c text ih =>
    cases i with
    | zero =>
      rw [Nat.add_zero, store, store_outside _ _ _ (.inl (Nat.lt_succ_self _)), update_self]
      rfl
    | succ i =>
      have later := ih (update cells offset c) (offset + 1) (Nat.lt_of_succ_lt_succ inside)
      rw [store, List.getElem_cons_succ, ← later]
      congr 1
      omega

theorem store_append (offset : Nat) (text more : List α) :
    cells.store offset (text ++ more) =
      (cells.store offset text).store (offset + text.length) more := by
  induction text generalizing cells offset with
  | nil => rfl
  | cons c text ih =>
    rw [List.cons_append, store, store, ih, List.length_cons]
    congr 1
    omega

/-- The last cell of a text may be overwritten. -/
theorem update_store (offset : Nat) (text : List α) (c d : α) :
    update (cells.store offset (text ++ [c])) (offset + text.length) d =
      cells.store offset (text ++ [d]) := by
  rw [store_append, store_append]
  exact update_idem ..

theorem read_store (text more : List α) :
    (cells.store 0 (text ++ more)).read text.length = text := by
  unfold read
  apply List.ext_getElem
  · rw [List.length_map, List.length_range]
  · intro i _ inside
    have whole : i < (text ++ more).length :=
      Nat.lt_of_lt_of_le inside (List.length_append ▸ Nat.le_add_right _ _)
    have stored := store_inside cells 0 (text ++ more) whole
    rw [Nat.zero_add, List.getElem_append_left inside] at stored
    rw [List.getElem_map, List.getElem_range, stored]

end

end Cells

section
variable {α β : Type}

/-- Cut a stream into `count` blocks of `n`. -/
def blocks (n : Nat) : Nat → List α → List (List α)
  | 0, _ => []
  | count + 1, stream => stream.take n :: blocks n count (stream.drop n)

theorem length_flatMap_block {f : β → List α} {n : Nat} (even : ∀ x, (f x).length = n)
    (xs : List β) : (xs.flatMap f).length = xs.length * n := by
  induction xs with
  | nil => rw [List.flatMap_nil, List.length_nil, List.length_nil, Nat.zero_mul]
  | cons _ _ ih =>
    rw [List.flatMap_cons, List.length_append, even, ih, List.length_cons, Nat.succ_mul,
      Nat.add_comm]

/-- A stream of blocks of one length is cut back into its blocks. -/
theorem blocks_flatMap {f : β → List α} {n : Nat} (even : ∀ x, (f x).length = n) (xs : List β) :
    blocks n xs.length (xs.flatMap f) = xs.map f := by
  induction xs with
  | nil => rfl
  | cons x _ ih =>
    rw [List.length_cons, blocks, List.flatMap_cons, List.map_cons,
      List.take_left' (even x), List.drop_left' (even x), ih]

end
end Coact.Foundation
