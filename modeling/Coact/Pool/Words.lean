import Coact.Pool.Init

/-! The addresses of `EventPool` as the code computes them: `uintptr_t` and `size_t` are words of
`w` bits, block indices have 32 bits and the stride is kept in 16. Unless the end of the storage
wraps, the words are the numbers that the pool model uses. -/
namespace Coact.Pool
open Foundation

variable {w : Nat}

/-- `pool_block_align` with its mask; `init` rounds the base in the same way. -/
def poolBlockAlignWord (align size : BitVec w) : BitVec w := (size + align - 1#w) &&& ~~~(align - 1#w)

/-- The template arguments with their static assertions, and the storage given to `init`. -/
structure PoolWords (w : Nat) where
  profile : Profile
  blockSize : BitVec 16
  capacity : BitVec 16
  align : BitVec w
  storage : BitVec w
  bytes : BitVec w
  wide : 32 ≤ w
  some_capacity : 0 < capacity.toNat
  indexed : capacity.toNat < poolIndexInvalid
  fits : 4 ≤ blockSize.toNat
  nonzero : align ≠ 0#w
  power : align &&& (align - 1#w) = 0#w
  strided : (poolBlockAlignWord align (blockSize.setWidth w)).toNat ≤ 0xFFFF

namespace PoolWords
variable (g : PoolWords w)

def stride : BitVec w := poolBlockAlignWord g.align (g.blockSize.setWidth w)
def begin : BitVec w := poolBlockAlignWord g.align g.storage
def stop : BitVec w := g.storage + g.bytes

def count : BitVec w :=
  if g.begin ≤ g.stop then
    if g.capacity.setWidth w < (g.stop - g.begin) / g.stride then g.capacity.setWidth w
    else (g.stop - g.begin) / g.stride
  else 0#w

def n : BitVec 32 := g.count.setWidth 32

/-- `block_size` and `capacity` of the record. -/
def recordStride : BitVec 16 := g.stride.setWidth 16
def recordCapacity : BitVec 16 := g.n.setWidth 16

/-- `pool_block_base` for block `i`. -/
def blockBase (i : BitVec 32) : BitVec w :=
  g.begin + i.setWidth w * (g.stride.setWidth 32).setWidth w

/-- The index that `reclaim` computes from an address. -/
def indexOf (addr : BitVec w) : BitVec 32 :=
  ((addr - g.begin) / g.recordStride.setWidth w).setWidth 32

theorem exists_pow : ∃ k < w, g.align.toNat = 2 ^ k ∧
    (g.align - 1#w).toNat = 2 ^ k - 1 := by
  have one : (1#w).toNat = 1 := BitVec.toNat_one ((by decide : 0 < 32).trans_le g.wide)
  have positive : g.align.toNat ≠ 0 := by
    intro zero
    exact g.nonzero (BitVec.eq_of_toNat_eq (by simpa using zero))
  have below : (g.align - 1#w).toNat = g.align.toNat - 1 := by
    rw [BitVec.toNat_sub_of_le (by rw [BitVec.le_def, one]; omega), one]
  have masked := congrArg BitVec.toNat g.power
  rw [BitVec.toNat_and, below, BitVec.toNat_zero,
    Nat.and_sub_one_eq_zero_iff_isPowerOfTwo positive] at masked
  obtain ⟨k, value⟩ := masked
  exact ⟨k, (Nat.pow_lt_pow_iff_right (by decide)).mp (value ▸ g.align.isLt), value,
    value ▸ below⟩

theorem align_pos : 0 < g.align.toNat := by
  obtain ⟨k, -, value, -⟩ := g.exists_pow
  exact value ▸ Nat.two_pow_pos k

/-- The arguments as numbers. -/
def spec : PoolSpec where
  profile := g.profile
  blockSize := g.blockSize.toNat
  capacity := g.capacity.toNat
  align := g.align.toNat
  storage := g.storage.toNat
  bytes := g.bytes.toNat
  fits := g.fits
  indexed := g.indexed
  aligned := g.align_pos

end PoolWords

theorem toNat_and_mask {x mask : BitVec w} (ones : mask.toNat = 2 ^ k - 1) :
    (x &&& ~~~mask).toNat = x.toNat / 2 ^ k * 2 ^ k := by
  have shifted : x &&& ~~~mask = x >>> k <<< k := by
    apply BitVec.eq_of_getLsbD_eq
    intro b inside
    rw [BitVec.getLsbD_and, BitVec.getLsbD_not, ← BitVec.testBit_toNat mask, ones,
      Nat.testBit_two_pow_sub_one, BitVec.getLsbD_shiftLeft, BitVec.getLsbD_ushiftRight]
    by_cases low : b < k
    · simp [low]
    · simp [low, inside, Nat.add_sub_cancel' (not_lt.mp low)]
  have small : x.toNat / 2 ^ k * 2 ^ k < 2 ^ w :=
    (Nat.div_mul_le_self _ _).trans_lt x.isLt
  rw [shifted, BitVec.toNat_shiftLeft, BitVec.toNat_ushiftRight, Nat.shiftRight_eq_div_pow,
    Nat.shiftLeft_eq, Nat.mod_eq_of_lt small]

namespace PoolWords
variable {g : PoolWords w} {i j : BitVec 32}

/-- Below the wrap the mask of the source rounds up as the pool model does. -/
theorem toNat_align {size : BitVec w} (room : size.toNat + g.align.toNat < 2 ^ w) :
    (poolBlockAlignWord g.align size).toNat = poolBlockAlign g.align.toNat size.toNat := by
  obtain ⟨k, -, value, ones⟩ := g.exists_pow
  have one : (1#w).toNat = 1 := BitVec.toNat_one ((by decide : 0 < 32).trans_le g.wide)
  have positive := g.align_pos
  have sum := BitVec.toNat_add_of_lt room
  have top : (size + g.align - 1#w).toNat = size.toNat + g.align.toNat - 1 := by
    rw [BitVec.toNat_sub_of_le (by rw [BitVec.le_def, one, sum]; omega), one, sum]
  rw [poolBlockAlignWord, toNat_and_mask ones, top, poolBlockAlign, value]

theorem toNat_widened (g : PoolWords w) (x : BitVec 16) : (x.setWidth w).toNat = x.toNat :=
  BitVec.toNat_setWidth_of_le ((by decide : 16 ≤ 32).trans g.wide)

theorem toNat_stride (g : PoolWords w) : g.stride.toNat = g.spec.stride := by
  have size := g.toNat_widened g.blockSize
  rw [stride, toNat_align, size]
  · rfl
  · obtain ⟨k, below, value, -⟩ := g.exists_pow
    obtain ⟨v, rfl⟩ := Nat.exists_eq_add_of_lt below
    have wide := g.wide
    have small := g.blockSize.isLt
    have half : 2 ^ k ≤ 2 ^ (k + v) := Nat.pow_le_pow_right (by decide) (by omega)
    have low : 2 ^ 16 ≤ 2 ^ (k + v) := Nat.pow_le_pow_right (by decide) (by omega)
    rw [Nat.pow_succ, size, value]
    omega

theorem stride_lt (g : PoolWords w) : g.spec.stride < 2 ^ 16 := by
  have small : g.stride.toNat ≤ 0xFFFF := g.strided
  rw [toNat_stride] at small
  omega

theorem toNat_recordStride (g : PoolWords w) : (g.recordStride.setWidth w).toNat = g.spec.stride := by
  rw [g.toNat_widened, recordStride, BitVec.toNat_setWidth, toNat_stride]
  exact Nat.mod_eq_of_lt g.stride_lt

section
variable (unwrapped : g.storage.toNat + g.bytes.toNat + g.align.toNat < 2 ^ w)
include unwrapped

theorem toNat_begin : g.begin.toNat = g.spec.begin := toNat_align (by omega)

theorem toNat_stop : g.stop.toNat = g.spec.storage + g.spec.bytes :=
  BitVec.toNat_add_of_lt (by omega)

theorem toNat_count : g.count.toNat = g.spec.count := by
  have base := toNat_begin unwrapped
  have last := toNat_stop unwrapped
  simp only [count, PoolSpec.count, BitVec.le_def, BitVec.lt_def, base, last]
  split
  · rename_i room
    have blocks : ((g.stop - g.begin) / g.stride).toNat =
        (g.spec.storage + g.spec.bytes - g.spec.begin) / g.spec.stride := by
      rw [BitVec.toNat_udiv, BitVec.toNat_sub_of_le (by rwa [BitVec.le_def, base, last]), base,
        last, toNat_stride]
    rw [blocks, g.toNat_widened]
    split
    · rename_i more
      rw [g.toNat_widened]
      exact (Nat.min_eq_right more.le).symm
    · rename_i fewer
      rw [blocks]
      exact (Nat.min_eq_left (not_lt.mp fewer)).symm
  · exact BitVec.toNat_zero ..

theorem toNat_n : g.n.toNat = g.spec.count := by
  have small := g.spec.count_le.trans_lt g.indexed
  rw [n, BitVec.toNat_setWidth, toNat_count unwrapped]
  exact Nat.mod_eq_of_lt (small.trans (by decide))

theorem toNat_recordCapacity : g.recordCapacity.toNat = g.spec.count := by
  have small := g.spec.count_le.trans_lt g.indexed
  rw [recordCapacity, BitVec.toNat_setWidth, toNat_n unwrapped]
  exact Nat.mod_eq_of_lt (small.trans (by decide))

theorem block_end (below : i < g.n) :
    g.spec.begin + i.toNat * g.spec.stride + g.spec.stride ≤ g.storage.toNat + g.bytes.toNat := by
  rw [BitVec.lt_def, toNat_n unwrapped] at below
  have room := g.spec.count_end (Nat.ne_of_gt (Nat.zero_lt_of_lt below))
  have before := Nat.mul_le_mul_right g.spec.stride (Nat.succ_le_of_lt below)
  rw [Nat.succ_mul] at before
  exact (by omega : _ ≤ g.spec.begin + g.spec.count * g.spec.stride).trans room

theorem toNat_blockBase (below : i < g.n) :
    (g.blockBase i).toNat = g.spec.record.blockBase i.toNat := by
  have room := block_end unwrapped below
  have stride : ((g.stride.setWidth 32).setWidth w).toNat = g.spec.stride := by
    rw [BitVec.toNat_setWidth_of_le g.wide, BitVec.toNat_setWidth, toNat_stride]
    exact Nat.mod_eq_of_lt (g.stride_lt.trans (by decide))
  have index : (i.setWidth w).toNat = i.toNat := BitVec.toNat_setWidth_of_le g.wide
  have product : (i.setWidth w * (g.stride.setWidth 32).setWidth w).toNat =
      i.toNat * g.spec.stride := by
    rw [BitVec.toNat_mul_of_lt (by rw [index, stride]; omega), index, stride]
  rw [blockBase, BitVec.toNat_add_of_lt (by rw [product, toNat_begin unwrapped]; omega), product,
    toNat_begin unwrapped]
  rfl

theorem indexOf_blockBase (below : i < g.n) : g.indexOf (g.blockBase i) = i := by
  have address := toNat_blockBase unwrapped below
  have base : g.begin.toNat = g.spec.record.base := toNat_begin unwrapped
  have above : g.begin ≤ g.blockBase i := by
    rw [BitVec.le_def, address, base]
    exact PoolRecord.base_le_blockBase ..
  apply BitVec.eq_of_toNat_eq
  rw [indexOf, BitVec.toNat_setWidth, BitVec.toNat_udiv, BitVec.toNat_sub_of_le above, address,
    base, toNat_recordStride]
  exact (congrArg (· % 2 ^ 32) (g.spec.record.indexOf_blockBase i.toNat)).trans
    (Nat.mod_eq_of_lt i.isLt)

theorem block_inside (below : i < g.n) :
    g.align.toNat ∣ (g.blockBase i).toNat ∧ g.storage.toNat ≤ (g.blockBase i).toNat ∧
      (g.blockBase i).toNat + g.blockSize.toNat ≤ g.storage.toNat + g.bytes.toNat := by
  have room := block_end unwrapped below
  have large : g.blockSize.toNat ≤ g.spec.stride := PoolSpec.le_poolBlockAlign g.align_pos
  have start : g.storage.toNat ≤ g.spec.begin := g.spec.storage_le_begin
  rw [toNat_blockBase unwrapped below]
  have address : g.spec.record.blockBase i.toNat = g.spec.begin + i.toNat * g.spec.stride := rfl
  refine ⟨?_, by omega, by omega⟩
  exact Nat.dvd_add (Nat.dvd_mul_left ..) (Nat.dvd_mul_left_of_dvd (Nat.dvd_mul_left ..) _)

theorem blocks_disjoint (below : i < g.n) (below' : j < g.n) (before : i < j) :
    (g.blockBase i).toNat + g.blockSize.toNat ≤ (g.blockBase j).toNat := by
  have large : g.blockSize.toNat ≤ g.spec.stride := PoolSpec.le_poolBlockAlign g.align_pos
  have next := Nat.mul_le_mul_right g.spec.stride (Nat.succ_le_of_lt before)
  rw [toNat_blockBase unwrapped below, toNat_blockBase unwrapped below']
  rw [Nat.succ_mul] at next
  change g.spec.begin + i.toNat * g.spec.stride + _ ≤ g.spec.begin + j.toNat * g.spec.stride
  omega

end

/-- The blocks of a pool after a successful `init`. -/
theorem pool_geometry (g : PoolWords w)
    (unwrapped : g.storage.toNat + g.bytes.toNat + g.align.toNat < 2 ^ w) {h h' : Heap}
    (done : h.init g.spec = (h', true)) :
    (1 ≤ g.n.toNat ∧ g.n.toNat ≤ g.capacity.toNat) ∧
    (∀ i < g.n, g.align.toNat ∣ (g.blockBase i).toNat ∧ g.storage.toNat ≤ (g.blockBase i).toNat ∧
      (g.blockBase i).toNat + g.blockSize.toNat ≤ g.storage.toNat + g.bytes.toNat) ∧
    (∀ i j, i < j → j < g.n →
      (g.blockBase i).toNat + g.blockSize.toNat ≤ (g.blockBase j).toNat) ∧
    (∀ i < g.n, g.indexOf (g.blockBase i) = i) ∧
    ∃ r, h'.records = h.records ++ [r] ∧ r.base = g.begin.toNat ∧
      r.blockSize = g.recordStride.toNat ∧ r.capacity = g.recordCapacity.toNat ∧
      Linked (r.loadNext h'.mem) (poolHeadIndex r.freeHead) (List.range g.n.toNat)
        poolIndexInvalid := by
  have blocks := toNat_n unwrapped
  have base := toNat_begin unwrapped
  rw [Heap.init] at done
  split at done
  · cases done
  · rename_i usable
    have some_block : g.spec.count ≠ 0 := fun zero => usable (.inr zero)
    split at done <;> cases done
    refine ⟨⟨?_, ?_⟩, fun i below => block_inside unwrapped below, ?_,
      fun i below => indexOf_blockBase unwrapped below, g.spec.record, rfl, base.symm, ?_,
      (toNat_recordCapacity unwrapped).symm, ?_⟩
    · rw [blocks]
      exact Nat.one_le_iff_ne_zero.mpr some_block
    · rw [blocks]
      exact g.spec.count_le
    · intro i j before below
      exact blocks_disjoint unwrapped (BitVec.lt_trans before below) below before
    · exact g.toNat_recordStride.symm.trans (g.toNat_widened _)
    · rw [blocks]
      exact g.spec.linked_chainBlocks some_block

/-- Blocks of six bytes at stride eight in 40 bytes that begin off alignment; the capacity caps
their number. -/
def threeBlocks : PoolWords 32 where
  profile := .HostSmpProfile
  blockSize := 6#16
  capacity := 3#16
  align := 4#32
  storage := 0x1001#32
  bytes := 40#32
  wide := le_rfl
  some_capacity := by decide
  indexed := by decide
  fits := by decide
  nonzero := by decide
  power := by decide
  strided := by decide

theorem pool_geometry_three : threeBlocks.n = 3#32 ∧ threeBlocks.begin = 0x1004#32 ∧
    (∀ i < threeBlocks.n, threeBlocks.indexOf (threeBlocks.blockBase i) = i) ∧
    ∀ i j, i < j → j < threeBlocks.n →
      (threeBlocks.blockBase i).toNat + 6 ≤ (threeBlocks.blockBase j).toNat := by
  have all := pool_geometry threeBlocks (by decide) (h := ⟨fun _ => 0, []⟩)
    (Prod.ext rfl (by decide +kernel : (Heap.init _ threeBlocks.spec).2 = true))
  obtain ⟨-, -, disjoint, indexed, -⟩ := all
  exact ⟨by decide, by decide, indexed, disjoint⟩

end PoolWords

end Coact.Pool
