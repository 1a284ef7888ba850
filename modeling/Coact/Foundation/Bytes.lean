import Mathlib.Data.UInt

/-! Little-endian words in a byte memory. -/
namespace Coact.Foundation
open Function

abbrev Mem := Nat → UInt8

def load32 (m : Mem) (a : Nat) : Nat :=
  (m a).toNat + 2 ^ 8 * (m (a + 1)).toNat + 2 ^ 16 * (m (a + 2)).toNat + 2 ^ 24 * (m (a + 3)).toNat

def store8 (m : Mem) (a n : Nat) : Mem := update m a (UInt8.ofNat n)

def store16 (m : Mem) (a n : Nat) : Mem := store8 (store8 m a n) (a + 1) (n / 2 ^ 8)

def store32 (m : Mem) (a n : Nat) : Mem := store16 (store16 m a n) (a + 2) (n / 2 ^ 16)

/-- The word of four bytes at `a` is the same in both memories. -/
def SameWord (m m' : Mem) (a : Nat) : Prop := ∀ o < 4, m' (a + o) = m (a + o)

/-- Two words that do not overlap. -/
def Apart (a b : Nat) : Prop := a + 4 ≤ b ∨ b + 4 ≤ a

variable {n : Nat}

theorem Apart.symm (apart : Apart a b) : Apart b a := Or.symm apart

@[simp] theorem store8_same : store8 m a n a = UInt8.ofNat n := update_self ..

theorem store8_other (other : b ≠ a) : store8 m a n b = m b := update_of_ne other ..

@[simp] theorem store32_byte0 : store32 m a n a = UInt8.ofNat n := by
  rw [store32, store16, store16, store8_other (by omega), store8_other (by omega),
    store8_other (by omega), store8_same]

@[simp] theorem store32_byte1 : store32 m a n (a + 1) = UInt8.ofNat (n / 2 ^ 8) := by
  simp [store32, store16, store8_other]

@[simp] theorem store32_byte2 : store32 m a n (a + 2) = UInt8.ofNat (n / 2 ^ 16) := by
  simp [store32, store16, store8_other]

@[simp] theorem store32_byte3 : store32 m a n (a + 3) = UInt8.ofNat (n / 2 ^ 16 / 2 ^ 8) := by
  simp [store32, store16]

theorem load32_store32 : load32 (store32 m a n) a = n % 2 ^ 32 := by
  simp only [load32, store32_byte0, store32_byte1, store32_byte2, store32_byte3,
    UInt8.toNat_ofNat']
  omega

theorem SameWord.refl : SameWord m m a := fun _ _ => rfl

theorem SameWord.trans (first : SameWord m m' a) (second : SameWord m' m'' a) :
    SameWord m m'' a := fun o below => (second o below).trans (first o below)

theorem SameWord.load32 (same : SameWord m m' a) : load32 m' a = Foundation.load32 m a := by
  have b0 := same 0 (by decide)
  rw [Nat.add_zero] at b0
  rw [Foundation.load32, b0, same 1 (by decide), same 2 (by decide), same 3 (by decide)]
  rfl

theorem sameWord_store8 (inside : o < 4) (apart : Apart a b) :
    SameWord m (store8 m (a + o) n) b := by
  intro o' below
  refine store8_other ?_
  rcases apart with before | after <;> omega

theorem sameWord_store16 (inside : o + 1 < 4) (apart : Apart a b) :
    SameWord m (store16 m (a + o) n) b :=
  (sameWord_store8 (by omega) apart).trans (sameWord_store8 (o := o + 1) inside apart)

theorem sameWord_store32 (apart : Apart a b) : SameWord m (store32 m a n) b :=
  (sameWord_store16 (o := 0) (by decide) apart).trans
    (sameWord_store16 (o := 2) (by decide) apart)

end Coact.Foundation
