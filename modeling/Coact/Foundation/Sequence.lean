import Mathlib.Data.Nat.Bitwise

/-! Sequence numbers that grow without bound, their low words as a machine keeps them, and a
circular store whose cell for number `q` is `q % capacity`. A stretch of at most `capacity`
numbers has a cell for each of them. -/
namespace Coact.Foundation
open Function

/-- The difference of two unsigned words. -/
def subWord (modulus h t : Nat) : Nat := (h + modulus - t) % modulus

/-- Words of two numbers that are less than the modulus apart still tell the difference. -/
theorem subWord_mod (order : t ≤ h) (near : h - t < modulus) :
    subWord modulus (h % modulus) (t % modulus) = h - t := by
  have positive : 0 < modulus := Nat.zero_lt_of_lt near
  have small := Nat.mod_lt t positive
  have split := Nat.div_add_mod t modulus
  have same : (h % modulus + modulus - t % modulus) % modulus = (h - t) % modulus := by
    rw [Nat.add_sub_assoc small.le, Nat.mod_add_mod,
      ← Nat.add_sub_assoc small.le]
    have whole : h + modulus - t % modulus = h - t + modulus * (t / modulus + 1) := by
      rw [Nat.mul_add, Nat.mul_one]
      omega
    rw [whole, Nat.add_mul_mod_self_left]
  rw [subWord, same, Nat.mod_eq_of_lt near]

theorem succ_mod : (h % modulus + 1) % modulus = (h + 1) % modulus :=
  Nat.mod_add_mod ..

/-- Different numbers of one stretch have different cells. -/
theorem cell_ne {capacity start q k : Nat} (first : start ≤ q) (below : q < start + capacity)
    (first' : start ≤ k) (below' : k < start + capacity) (other : q ≠ k) :
    q % capacity ≠ k % capacity := by
  intro same
  rcases Nat.lt_or_gt_of_ne other with less | less
  · have gap := Nat.sub_mod_eq_zero_of_mod_eq same.symm
    rw [Nat.mod_eq_of_lt (by omega)] at gap
    omega
  · have gap := Nat.sub_mod_eq_zero_of_mod_eq same
    rw [Nat.mod_eq_of_lt (by omega)] at gap
    omega

section
variable {β : Type} {cells : Nat → β} {capacity start stop : Nat} {value : Nat → β}

/-- The cells of the numbers from `start` to `stop` hold their values. -/
def Covers (cells : Nat → β) (capacity start stop : Nat) (value : Nat → β) : Prop :=
  ∀ q, start ≤ q → q < stop → cells (q % capacity) = value q

section
variable (covers : Covers cells capacity start stop value)
include covers

/-- A store into the cell of a number of the stretch. -/
theorem Covers.write (short : stop ≤ start + capacity) (first : start ≤ k) (below : k < stop)
    (same : ∀ q, start ≤ q → q < stop → q ≠ k → value' q = value q) (new : value' k = x) :
    Covers (update cells (k % capacity) x) capacity start stop value' := by
  intro q first' below'
  by_cases here : q = k
  · subst here
    rw [update_self, new]
  · rw [update_of_ne (cell_ne first' (by omega) first (by omega) here),
      same q first' below' here]
    exact covers q first' below'

/-- A store into the cell of the first number behind the stretch. -/
theorem Covers.beside (room : stop < start + capacity) :
    Covers (update cells (stop % capacity) x) capacity start stop value := by
  intro q first below
  have other : q ≠ stop := below.ne
  rw [update_of_ne (cell_ne first (by omega) (by omega) room other)]
  exact covers q first below

/-- The stretch takes in the number behind it. -/
theorem Covers.grow (same : ∀ q, start ≤ q → q < stop → value' q = value q)
    (new : cells (stop % capacity) = value' stop) :
    Covers cells capacity start (stop + 1) value' := by
  intro q first below
  rcases Nat.lt_succ_iff_lt_or_eq.mp below with earlier | rfl
  · rw [same q first earlier]
    exact covers q first earlier
  · exact new

theorem Covers.drop : Covers cells capacity (start + 1) stop value := by
  intro q first below
  exact covers q (Nat.le_of_succ_le first) below

end

/-- The stretch of all cells moves on by one number. -/
theorem Covers.shift (covers : Covers cells capacity start (start + capacity) value)
    (same : ∀ q, start + 1 ≤ q → q < start + capacity → value' q = value q)
    (new : value' (start + capacity) = value start) :
    Covers cells capacity (start + 1) (start + 1 + capacity) value' := by
  intro q first below
  by_cases here : q = start + capacity
  · subst here
    rw [Nat.add_mod_right, new]
    exact covers start le_rfl (by omega)
  · rw [same q first (by omega)]
    exact covers q (by omega) (by omega)

end

end Coact.Foundation
