import Mathlib.Data.Nat.SuccPred
import Coact.Foundation.Bytes

/-! The stacks of `StackfulExecutor` (`coro/posix.hpp`). The constructor writes a guard word at
both ends of every stack. `stack_watermark` goes down from the upper guard and stops at the
first byte that is not zero, which is the highest one that was written and not the deepest. -/
namespace Coact.Executor
open Foundation

def kGuard : Nat := 0xDEADBEEFCAFEBABE

/-- A byte of the guard as `memcpy` lays it down, in either byte order. -/
def guardByte (bigEndian : Bool) (k : Nat) : UInt8 :=
  UInt8.ofNat (kGuard >>> (8 * if bigEndian then 7 - k else k))

def storeGuard (bigEndian : Bool) (bytes : Mem) (a : Nat) : Mem := fun i =>
  if a ≤ i ∧ i < a + 8 then guardByte bigEndian (i - a) else bytes i

/-- A stack after the constructor. -/
def unarmed (bigEndian : Bool) (stackBytes : Nat) : Mem :=
  storeGuard bigEndian (storeGuard bigEndian (fun _ => 0) 0) (stackBytes - 8)

/-- `check_guard` finds both guards as they were written. -/
def Intact (bigEndian : Bool) (stackBytes : Nat) (bytes : Mem) : Prop :=
  ∀ k < 8, bytes k = guardByte bigEndian k ∧ bytes (stackBytes - 8 + k) = guardByte bigEndian k

instance (bigEndian : Bool) (stackBytes : Nat) (bytes : Mem) :
    Decidable (Intact bigEndian stackBytes bytes) :=
  inferInstanceAs (Decidable (∀ k < 8, _ ∧ _))

/-- The loop of `stack_watermark` from index `i` on. -/
def scanDown (bytes : Mem) : Nat → Nat
  | 0 => 0
  | i + 1 => if bytes (i + 1) ≠ 0 then i + 2 else scanDown bytes i

def stackWatermark (capacity stackBytes : Nat) (stackPools : Nat → Mem) (slot : Nat) : Nat :=
  if capacity ≤ slot then 0 else scanDown (stackPools slot) (stackBytes - (8 + 1))

/-- A byte between the guards that is not zero. -/
def Written (stackBytes : Nat) (bytes : Mem) (i : Nat) : Prop :=
  8 ≤ i ∧ i < stackBytes - 8 ∧ bytes i ≠ 0

/-- The documented value: the distance from the upper guard to the deepest byte written. -/
def Depth (stackBytes : Nat) (bytes : Mem) (d : Nat) : Prop :=
  (∃ i, IsLeast {i | Written stackBytes bytes i} i ∧ d = stackBytes - 8 - i) ∨
    ((∀ i, ¬ Written stackBytes bytes i) ∧ d = 0)

section
variable {bigEndian : Bool} {capacity stackBytes n i slot : Nat} {bytes : Mem}
  {stackPools : Nat → Mem}

theorem scanDown_eq (positive : 0 < i) (inside : i ≤ n) (written : bytes i ≠ 0)
    (clear : ∀ j, i < j → j ≤ n → bytes j = 0) : scanDown bytes n = i + 1 := by
  induction n with
  | zero => omega
  | succ n ih =>
    rcases Nat.le_succ_iff.mp inside with lower | rfl
    · have zero := clear (n + 1) (by omega) le_rfl
      rw [scanDown, if_neg (not_not.mpr zero)]
      exact ih lower fun j above below => clear j above (by omega)
    · rw [scanDown, if_pos written]

/-- With something written between the guards the scan finds the highest byte of it. -/
theorem scanDown_written (highest : IsGreatest {i | Written stackBytes bytes i} i) :
    scanDown bytes (stackBytes - (8 + 1)) = i + 1 := by
  obtain ⟨⟨low, high, written⟩, top⟩ := highest
  refine scanDown_eq (by omega) (by omega) written fun j above below => ?_
  by_contra nonzero
  have bound : j ≤ i := top ⟨by omega, by omega, nonzero⟩
  omega

theorem scanDown_unwritten (room : 16 < stackBytes) (intact : Intact bigEndian stackBytes bytes)
    (none : ∀ i, ¬ Written stackBytes bytes i) : scanDown bytes (stackBytes - (8 + 1)) = 8 := by
  refine scanDown_eq (i := 7) (by decide) (by omega) ?_ fun j above below => ?_
  · rw [(intact 7 (by decide)).1]
    cases bigEndian <;> decide
  · by_contra nonzero
    exact none j ⟨above, by omega, nonzero⟩

/-- The watermark is the documented depth exactly when something was written and as many bytes
are free between the highest byte written and the upper guard as lie below the lowest one. -/
theorem watermark_is_depth_iff (room : 16 < stackBytes) (armed : slot < capacity)
    (intact : Intact bigEndian stackBytes (stackPools slot)) :
    Depth stackBytes (stackPools slot) (stackWatermark capacity stackBytes stackPools slot) ↔
      ∃ lowest highest, IsLeast {i | Written stackBytes (stackPools slot) i} lowest ∧
        IsGreatest {i | Written stackBytes (stackPools slot) i} highest ∧
        lowest + highest + 9 = stackBytes := by
  rw [stackWatermark, if_neg (not_le.mpr armed)]
  constructor
  · rintro (⟨lowest, least, depth⟩ | ⟨none, depth⟩)
    · have bounded : BddAbove {i | Written stackBytes (stackPools slot) i} :=
        ⟨stackBytes, fun i written => by have := written.2.1; omega⟩
      obtain ⟨highest, greatest⟩ := bounded.exists_isGreatest_of_nonempty ⟨lowest, least.1⟩
      have high := greatest.1.2.1
      have low := least.1.2.1
      rw [scanDown_written greatest] at depth
      exact ⟨lowest, highest, least, greatest, by omega⟩
    · rw [scanDown_unwritten room intact none] at depth
      cases depth
  · rintro ⟨lowest, highest, least, greatest, middle⟩
    rw [scanDown_written greatest]
    exact .inl ⟨lowest, least, by omega⟩

end

/-- A stack of 32 bytes of which the lower half between the guards is written. -/
def halfWritten : Mem :=
  storeGuard false (storeGuard false (fun i => if i < 16 then 1 else 0) 0) 24

theorem watermark_is_depth_iff_half :
    Depth 32 halfWritten (stackWatermark 1 32 (fun _ => halfWritten) 0) := by
  have intact : Intact false 32 halfWritten := by decide
  have top (i : Nat) (written : Written 32 halfWritten i) : i ≤ 15 := by
    obtain ⟨low, high, nonzero⟩ := written
    rw [halfWritten, storeGuard, if_neg (by omega), storeGuard, if_neg (by omega)] at nonzero
    by_contra above
    exact nonzero (if_neg (by omega))
  have depth_iff (pools : Nat → Mem) (whole : Intact false 32 (pools 0)) :=
    watermark_is_depth_iff (by decide : 16 < 32) (by decide : 0 < 1) whole
  apply (depth_iff (fun _ => halfWritten) intact).mpr
  refine ⟨8, 15, ⟨?_, fun i written => written.1⟩, ⟨?_, top⟩, rfl⟩
  · exact ⟨by decide, by decide, by decide⟩
  · exact ⟨by decide, by decide, by decide⟩

/-- A slot that was never armed reports the eight bytes of its lower guard. -/
theorem unarmed_has_watermark :
    Intact false 64 (unarmed false 64) ∧ (∀ i, ¬ Written 64 (unarmed false 64) i) ∧
    stackWatermark 1 64 (fun _ => unarmed false 64) 0 = 8 ∧
    ¬ Depth 64 (unarmed false 64) (stackWatermark 1 64 (fun _ => unarmed false 64) 0) := by
  have none (i : Nat) : ¬ Written 64 (unarmed false 64) i := by
    rintro ⟨low, high, written⟩
    rw [unarmed, storeGuard, if_neg (by omega), storeGuard, if_neg (by omega)] at written
    exact written rfl
  have eight : stackWatermark 1 64 (fun _ => unarmed false 64) 0 = 8 := by decide
  refine ⟨by decide, none, eight, ?_⟩
  rw [eight]
  rintro (⟨i, least, -⟩ | ⟨-, zero⟩)
  · exact none i least.1
  · cases zero

end Coact.Executor
