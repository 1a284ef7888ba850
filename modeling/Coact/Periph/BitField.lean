import Mathlib.Data.Nat.Bitwise

/-! `BitFieldView` (`bitfield.hpp`): one field of a 32-bit register, by its bits. -/
namespace Coact.Periph

abbrev Word := BitVec 32

/-- The template parameters with their static assertions. -/
structure BitFieldView where
  offset : Nat
  width : Nat
  positive : 0 < width
  fits : offset + width ≤ 32

namespace BitFieldView

/-- The ones are made in 64 bits: a field may be as wide as the register. -/
def mask (f : BitFieldView) : Word := ((1#64 <<< f.width) - 1#64).setWidth 32 <<< f.offset

def read (f : BitFieldView) (reg : Word) : Word := (reg &&& f.mask) >>> f.offset

def write (f : BitFieldView) (reg val : Word) : Word :=
  (reg &&& ~~~f.mask) ||| ((val <<< f.offset) &&& f.mask)

/-- The bits of the register that belong to the field. -/
def Covers (f : BitFieldView) (b : Nat) : Prop := f.offset ≤ b ∧ b < f.offset + f.width

instance (f : BitFieldView) (b : Nat) : Decidable (f.Covers b) := inferInstanceAs (Decidable (_ ∧ _))

variable (f : BitFieldView) {b : Nat}

theorem getLsbD_ones : ((1#64 <<< f.width) - 1#64).getLsbD b = decide (b < f.width) := by
  have narrow : f.width < 64 := by have := f.fits; omega
  have power : 2 ^ f.width < 2 ^ 64 := Nat.pow_lt_pow_right (by decide) narrow
  have value : ((1#64 <<< f.width) - 1#64).toNat = 2 ^ f.width - 1 := by
    have shifted : (1#64 <<< f.width).toNat = 2 ^ f.width := by
      rw [BitVec.toNat_shiftLeft, Nat.shiftLeft_eq, BitVec.toNat_one (by decide), Nat.one_mul]
      exact Nat.mod_eq_of_lt power
    rw [BitVec.toNat_sub_of_le, shifted]
    · rfl
    · rw [BitVec.le_def, shifted]
      exact Nat.one_le_two_pow
  rw [← BitVec.testBit_toNat, value, Nat.testBit_two_pow_sub_one]

theorem getLsbD_mask : f.mask.getLsbD b = decide (f.Covers b) := by
  have fits := f.fits
  rw [mask, BitVec.getLsbD_shiftLeft, BitVec.getLsbD_setWidth, getLsbD_ones, Bool.eq_iff_iff]
  simp only [Bool.and_eq_true, decide_eq_true_eq, Bool.not_eq_true', decide_eq_false_iff_not]
  unfold Covers
  omega

theorem getLsbD_write (reg val : Word) (inside : b < 32) :
    (f.write reg val).getLsbD b =
      if f.Covers b then val.getLsbD (b - f.offset) else reg.getLsbD b := by
  rw [write, BitVec.getLsbD_or, BitVec.getLsbD_and, BitVec.getLsbD_and, BitVec.getLsbD_not,
    BitVec.getLsbD_shiftLeft, getLsbD_mask]
  by_cases covered : f.Covers b
  · have above : ¬ b < f.offset := Nat.not_lt_of_le covered.1
    simp [covered, above, inside]
  · simp [covered, inside]

theorem getLsbD_read (reg : Word) :
    (f.read reg).getLsbD b = (reg.getLsbD (f.offset + b) && decide (b < f.width)) := by
  have inside : f.Covers (f.offset + b) ↔ b < f.width := by
    unfold Covers
    omega
  rw [read, BitVec.getLsbD_ushiftRight, BitVec.getLsbD_and, getLsbD_mask,
    decide_eq_decide.mpr inside]

theorem read_write (reg val : Word) :
    (f.read (f.write reg val)).toNat = val.toNat % 2 ^ f.width := by
  apply Nat.eq_of_testBit_eq
  intro b
  rw [Nat.testBit_mod_two_pow, BitVec.testBit_toNat, BitVec.testBit_toNat, getLsbD_read]
  by_cases low : b < f.width
  · have fits := f.fits
    have covered : f.Covers (f.offset + b) := ⟨Nat.le_add_right _ _, by omega⟩
    rw [getLsbD_write _ _ _ (by omega), if_pos covered, Nat.add_sub_cancel_left, Bool.and_comm]
  · simp [low]

theorem write_read (reg : Word) : f.write reg (f.read reg) = reg := by
  apply BitVec.eq_of_getLsbD_eq
  intro b inside
  rw [getLsbD_write _ _ _ inside]
  by_cases covered : f.Covers b
  · have low : b - f.offset < f.width := Nat.sub_lt_left_of_lt_add covered.1 covered.2
    rw [if_pos covered, getLsbD_read, Nat.add_sub_cancel' covered.1, decide_eq_true low,
      Bool.and_true]
  · rw [if_neg covered]

theorem write_write (reg val val' : Word) : f.write (f.write reg val) val' = f.write reg val' := by
  apply BitVec.eq_of_getLsbD_eq
  intro b inside
  rw [getLsbD_write _ _ _ inside, getLsbD_write _ _ _ inside, getLsbD_write _ _ _ inside]
  split <;> rfl

theorem write_comm {f g : BitFieldView} (apart : ∀ b, f.Covers b → ¬ g.Covers b)
    (reg val val' : Word) : g.write (f.write reg val) val' = f.write (g.write reg val') val := by
  apply BitVec.eq_of_getLsbD_eq
  intro b inside
  simp only [getLsbD_write _ _ _ inside]
  by_cases covered : f.Covers b
  · rw [if_neg (apart b covered), if_pos covered, if_pos covered]
  · rw [if_neg covered, if_neg covered]

/-- The lens laws. The last one is about two fields whose bit ranges do not meet. -/
theorem bitfield_laws (reg val val' : Word) :
    (f.read (f.write reg val)).toNat = val.toNat % 2 ^ f.width ∧
    (∀ b < 32, ¬ (f.offset ≤ b ∧ b < f.offset + f.width) →
      (f.write reg val).getLsbD b = reg.getLsbD b) ∧
    f.write reg (f.read reg) = reg ∧
    f.write (f.write reg val) val' = f.write reg val' ∧
    ∀ g : BitFieldView, f.offset + f.width ≤ g.offset ∨ g.offset + g.width ≤ f.offset →
      g.write (f.write reg val) val' = f.write (g.write reg val') val := by
  refine ⟨f.read_write reg val, ?_, f.write_read reg, f.write_write reg val val', ?_⟩
  · intro b inside outside
    rw [getLsbD_write _ _ _ inside]
    exact if_neg outside
  · intro g apart
    apply write_comm
    rintro b ⟨above, below⟩ ⟨above', below'⟩
    omega

end BitFieldView
end Coact.Periph
