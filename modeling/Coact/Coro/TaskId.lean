import Mathlib.Data.Nat.Bitwise

/-! Task identities (`coro/task_id.hpp`): the slot index in the low byte, the low byte
of the slot's generation in the high one. -/
namespace Coact.Coro

structure TaskSlotId where
  raw : UInt16

structure TaskId where
  raw : UInt16
  deriving DecidableEq, Repr

namespace TaskId

def slot (id : TaskId) : TaskSlotId := ⟨id.raw &&& 0xFF⟩

def generation (id : TaskId) : UInt16 := id.raw >>> 8

def make (slot : TaskSlotId) (gen : UInt16) : TaskId :=
  ⟨(gen &&& 0xFF) <<< 8 ||| (slot.raw &&& 0xFF)⟩

end TaskId

def kInvalidTaskId : TaskId := ⟨0⟩

namespace TaskId

theorem slot_toNat (id : TaskId) : id.slot.raw.toNat = id.raw.toNat % 256 := by
  exact Nat.and_two_pow_sub_one_eq_mod id.raw.toNat 8

theorem generation_toNat (id : TaskId) : id.generation.toNat = id.raw.toNat / 256 := by
  exact Nat.shiftRight_eq_div_pow id.raw.toNat 8

theorem generation_lt (id : TaskId) : id.generation.toNat < 256 := by
  have small := id.raw.toNat_lt
  rw [generation_toNat]
  omega

theorem make_toNat (slot : TaskSlotId) (gen : UInt16) :
    (make slot gen).raw.toNat = gen.toNat % 256 * 256 + slot.raw.toNat % 256 := by
  have low : (slot.raw &&& 0xFF).toNat = slot.raw.toNat % 256 := by
    exact Nat.and_two_pow_sub_one_eq_mod slot.raw.toNat 8
  have high : (gen &&& 0xFF).toNat = gen.toNat % 256 := by
    exact Nat.and_two_pow_sub_one_eq_mod gen.toNat 8
  have shifted : ((gen &&& 0xFF) <<< 8).toNat = (gen.toNat % 256) <<< 8 := by
    rw [UInt16.toNat_shiftLeft, high]
    refine Nat.mod_eq_of_lt ?_
    change (gen.toNat % 256) <<< 8 < 2 ^ 16
    omega
  have below : slot.raw.toNat % 256 < 2 ^ 8 := Nat.mod_lt _ (by decide)
  rw [make, UInt16.toNat_or, shifted, low, ← Nat.shiftLeft_add_eq_or_of_lt below, Nat.shiftLeft_eq]

theorem slot_make (slot : TaskSlotId) (gen : UInt16) :
    (make slot gen).slot.raw.toNat = slot.raw.toNat % 256 := by
  rw [slot_toNat, make_toNat]
  omega

theorem generation_make (slot : TaskSlotId) (gen : UInt16) :
    (make slot gen).generation.toNat = gen.toNat % 256 := by
  rw [generation_toNat, make_toNat]
  omega

theorem ext_parts {id id' : TaskId} (slot : id.slot.raw.toNat = id'.slot.raw.toNat)
    (generation : id.generation.toNat = id'.generation.toNat) : id = id' := by
  rw [slot_toNat, slot_toNat] at slot
  rw [generation_toNat, generation_toNat] at generation
  obtain ⟨raw'⟩ := id'
  refine congrArg mk (UInt16.toNat_inj.mp ?_)
  dsimp only at slot generation
  omega

theorem eq_invalid_iff (id : TaskId) :
    id = kInvalidTaskId ↔ id.slot.raw.toNat = 0 ∧ id.generation.toNat = 0 := by
  constructor
  · rintro rfl
    exact ⟨rfl, rfl⟩
  · rintro ⟨slot, generation⟩
    exact ext_parts slot generation

end TaskId

end Coact.Coro
