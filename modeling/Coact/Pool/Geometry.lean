import Coact.Pool.Heap

/-! Block addresses and head words. Different blocks keep their headers in words
that do not overlap, so a header write is seen by its own block only. -/
namespace Coact.Pool
open Foundation

theorem poolHeadIndex_eq (head : Nat) : poolHeadIndex head = head % 2 ^ 16 :=
  Nat.and_two_pow_sub_one_eq_mod head 16

theorem poolHeadIndex_pack (index tag : Nat) :
    poolHeadIndex (poolPackHead index tag) = index % 2 ^ 16 := by
  have low : index &&& 0xFFFF = index % 2 ^ 16 := Nat.and_two_pow_sub_one_eq_mod index 16
  rw [poolHeadIndex_eq, poolPackHead, low, Nat.or_mod_two_pow, Nat.shiftLeft_eq,
    Nat.mul_mod_left, Nat.zero_or, Nat.mod_mod]

theorem fetchSub16_of_le {n count : Nat} (le : count ≤ n) : fetchSub16 n count = n - count :=
  if_pos le

section
variable {r r' : PoolRecord}

theorem PoolRecord.indexOf_blockBase (r : PoolRecord) (i : Nat) :
    r.indexOf (r.blockBase i) = i := by
  rw [indexOf, blockBase, Nat.add_sub_cancel_left]
  exact Nat.mul_div_cancel i (Nat.lt_of_lt_of_le (by decide) r.fits)

theorem PoolRecord.blockBase_inj (same : r.blockBase i = r.blockBase j) : i = j := by
  rw [← r.indexOf_blockBase i, same, r.indexOf_blockBase]

theorem PoolRecord.base_le_blockBase (r : PoolRecord) (i : Nat) : r.base ≤ r.blockBase i :=
  Nat.le_add_right _ _

theorem PoolRecord.blockBase_end (below : i < r.capacity) :
    r.blockBase i + 4 ≤ r.base + r.capacity * r.blockSize := by
  have room : (i + 1) * r.blockSize ≤ r.capacity * r.blockSize :=
    Nat.mul_le_mul_right _ below
  have fits := r.fits
  rw [Nat.add_mul, Nat.one_mul] at room
  rw [blockBase]
  omega

theorem PoolRecord.apart_of_lt (before : i < j) : Apart (r.blockBase i) (r.blockBase j) := by
  have room : (i + 1) * r.blockSize ≤ j * r.blockSize := Nat.mul_le_mul_right _ before
  have fits := r.fits
  rw [Nat.add_mul, Nat.one_mul] at room
  rw [blockBase, blockBase]
  exact .inl (by omega)

theorem PoolRecord.apart_blocks (differ : i ≠ j) : Apart (r.blockBase i) (r.blockBase j) := by
  rcases Nat.lt_or_gt_of_ne differ with before | after
  · exact apart_of_lt before
  · exact (apart_of_lt after).symm

/-- The block areas of two pools do not overlap. -/
def PoolRecord.Disjoint (r r' : PoolRecord) : Prop :=
  r.base + r.capacity * r.blockSize ≤ r'.base ∨ r'.base + r'.capacity * r'.blockSize ≤ r.base

theorem PoolRecord.Disjoint.symm (disjoint : r.Disjoint r') : r'.Disjoint r := Or.symm disjoint

theorem PoolRecord.Disjoint.apart (disjoint : r.Disjoint r') (below : i < r.capacity)
    (below' : j < r'.capacity) : Apart (r.blockBase i) (r'.blockBase j) := by
  have inside := PoolRecord.blockBase_end below
  have inside' := PoolRecord.blockBase_end below'
  have start := r.base_le_blockBase i
  have start' := r'.base_le_blockBase j
  rcases disjoint with before | after
  · exact .inl (by omega)
  · exact .inr (by omega)

end

theorem poolId_same (same : SameWord m m' e) : eventPoolId m' e = eventPoolId m e :=
  congrArg UInt8.toNat (same 2 (by decide))

theorem refCtr_same (same : SameWord m m' e) : eventRefCtr m' e = eventRefCtr m e :=
  congrArg UInt8.toNat (same 3 (by decide))

theorem eventPoolId_setRefCtr (n : Nat) : eventPoolId (setRefCtr m e n) e = eventPoolId m e :=
  congrArg UInt8.toNat (store8_other (by omega))

theorem eventRefCtr_setRefCtr (n : Nat) : eventRefCtr (setRefCtr m e n) e = n % 2 ^ 8 := by
  rw [eventRefCtr, setRefCtr, store8_same, UInt8.toNat_ofNat']

theorem sameWord_setRefCtr {n : Nat} (apart : Apart e a) : SameWord m (setRefCtr m e n) a :=
  sameWord_store8 (o := 3) (by decide) apart

theorem eventPoolId_newEvent (signal poolId : Nat) :
    eventPoolId (newEvent m e signal poolId) e = poolId % 2 ^ 8 := by
  rw [newEvent, eventPoolId_setRefCtr, eventPoolId, store8_same, UInt8.toNat_ofNat']

theorem eventRefCtr_newEvent (signal poolId : Nat) :
    eventRefCtr (newEvent m e signal poolId) e = 1 :=
  eventRefCtr_setRefCtr 1

theorem sameWord_newEvent {signal poolId : Nat} (apart : Apart e a) :
    SameWord m (newEvent m e signal poolId) a :=
  ((sameWord_store16 (o := 0) (by decide) apart).trans
    (sameWord_store8 (o := 2) (by decide) apart)).trans (sameWord_setRefCtr apart)

theorem eventRefCtr_lt : eventRefCtr m e < 2 ^ 8 := (m (e + 3)).toNat_lt

/-- A link to a block or to the end of the list reads as pool id zero. -/
theorem eventPoolId_of_load32 (small : load32 m e < 2 ^ 16) : eventPoolId m e = 0 := by
  rw [load32] at small
  rw [eventPoolId]
  omega

theorem fetchSub16_succ {n : Nat} (small : n < 2 ^ 16) : fetchSub16 ((n + 1) % 2 ^ 16) 1 = n := by
  unfold fetchSub16
  split <;> omega

/-- What `claim_raw_block` does under either profile: with room and a free block it takes
the head, and otherwise it changes nothing. -/
theorem PoolRecord.claimRawBlock_cases (r : PoolRecord) (m : Mem) (margin : Nat) :
    (r.used + margin < r.capacity ∧ poolHeadIndex r.freeHead ≠ poolIndexInvalid ∧
      ∃ tag, r.claimRawBlock m margin =
        (r.claimed (poolPackHead (r.loadNext m (poolHeadIndex r.freeHead)) tag),
          some (poolHeadIndex r.freeHead))) ∨
    (¬ (r.used + margin < r.capacity ∧ poolHeadIndex r.freeHead ≠ poolIndexInvalid) ∧
      r.claimRawBlock m margin = (r, none)) := by
  by_cases taken : r.used + margin < r.capacity ∧ poolHeadIndex r.freeHead ≠ poolIndexInvalid
  · left
    refine ⟨taken.1, taken.2, ?_⟩
    cases profile : r.profile with
    | RttSingleCoreProfile =>
      refine ⟨0, ?_⟩
      simp only [PoolRecord.claimRawBlock, profile]
      exact if_pos taken.symm
    | HostSmpProfile =>
      refine ⟨poolHeadTag r.freeHead + 1, ?_⟩
      simp only [PoolRecord.claimRawBlock, profile]
      rw [if_pos taken.1, if_neg taken.2]
  · right
    refine ⟨taken, ?_⟩
    cases profile : r.profile with
    | RttSingleCoreProfile =>
      simp only [PoolRecord.claimRawBlock, profile]
      exact if_neg fun both => taken both.symm
    | HostSmpProfile =>
      simp only [PoolRecord.claimRawBlock, profile]
      split
      · rename_i room
        have empty : poolHeadIndex r.freeHead = poolIndexInvalid :=
          Decidable.of_not_not fun filled => taken ⟨room, filled⟩
        have small : r.used < 2 ^ 16 := by
          have bound := r.indexed
          unfold poolIndexInvalid at bound
          omega
        rw [if_pos empty]
        simp only [fetchSub16_succ small]
        cases r
        cases profile
        rfl
      · rfl

end Coact.Pool
