import Coact.Foundation.Bytes
import Mathlib.Data.Nat.Bitwise
import Mathlib.Algebra.Order.Ring.Nat

/-! `EventPool` and the reference-count helpers. An event is the address of its
block; signal, pool id and reference count are the first four bytes of the block,
and a free block keeps the index of the next free one in the same four bytes.
Every operation runs inside its pool's critical section, so a compare-and-swap
of the head or of `used` succeeds with the value that was loaded. -/
namespace Coact.Pool
open Foundation

inductive Profile where
  | RttSingleCoreProfile
  | HostSmpProfile

/-- The failed `COACT_ASSERT` of a pool operation. -/
inductive Fault where
  | noRecord
  | belowBase
  | refCeiling
  | doubleRelease

def poolIndexInvalid : Nat := 0xFFFF
def kMaxEventPools : Nat := 16

def poolPackHead (index tag : Nat) : Nat := (tag &&& 0xFFFF) <<< 16 ||| (index &&& 0xFFFF)
def poolHeadIndex (head : Nat) : Nat := head &&& 0xFFFF
def poolHeadTag (head : Nat) : Nat := (head >>> 16) &&& 0xFFFF

/-- `fetch_sub` on a 16-bit counter. -/
def fetchSub16 (n count : Nat) : Nat := if count ≤ n then n - count else n + 2 ^ 16 - count

/-- The bounds are static assertions on the template arguments. -/
structure PoolRecord where
  profile : Profile
  freeHead : Nat
  base : Nat
  blockSize : Nat
  capacity : Nat
  used : Nat
  highWatermark : Nat
  fits : 4 ≤ blockSize
  indexed : capacity < poolIndexInvalid

namespace PoolRecord

/-- `pool_block_base`. -/
def blockBase (r : PoolRecord) (index : Nat) : Nat := r.base + index * r.blockSize

def indexOf (r : PoolRecord) (e : Nat) : Nat := (e - r.base) / r.blockSize

def loadNext (r : PoolRecord) (m : Mem) (index : Nat) : Nat := load32 m (r.blockBase index)

/-- The head word a push leaves behind: only the tagged backend counts the tag. -/
def pushedHead (r : PoolRecord) (index : Nat) : Nat :=
  match r.profile with
  | .RttSingleCoreProfile => poolPackHead index 0
  | .HostSmpProfile => poolPackHead index (poolHeadTag r.freeHead + 1)

/-- The record after a block has been claimed, with a new head word. -/
def claimed (r : PoolRecord) (head : Nat) : PoolRecord :=
  let usedAfter := (r.used + 1) % 2 ^ 16
  { r with
    freeHead := head
    used := usedAfter
    highWatermark := if r.highWatermark < usedAfter then usedAfter else r.highWatermark }

/-- `claim_raw_block` on an initialised pool. -/
def claimRawBlock (r : PoolRecord) (m : Mem) (margin : Nat) : PoolRecord × Option Nat :=
  let index := poolHeadIndex r.freeHead
  match r.profile with
  | .RttSingleCoreProfile =>
    if index ≠ poolIndexInvalid ∧ r.used + margin < r.capacity then
      (r.claimed (poolPackHead (r.loadNext m index) 0), some index)
    else (r, none)
  | .HostSmpProfile =>
    if r.used + margin < r.capacity then
      if index = poolIndexInvalid then
        ({ r with used := fetchSub16 ((r.used + 1) % 2 ^ 16) 1 }, none)
      else
        (r.claimed (poolPackHead (r.loadNext m index) (poolHeadTag r.freeHead + 1)), some index)
    else (r, none)

end PoolRecord

def eventPoolId (m : Mem) (e : Nat) : Nat := (m (e + 2)).toNat
def eventRefCtr (m : Mem) (e : Nat) : Nat := (m (e + 3)).toNat
def setRefCtr (m : Mem) (e n : Nat) : Mem := store8 m (e + 3) n

/-- Placement new of `Event{signal, pool_id, 1}`. -/
def newEvent (m : Mem) (e signal poolId : Nat) : Mem :=
  setRefCtr (store8 (store16 m e signal) (e + 2) poolId) e 1

/-- The memory and the registry of pool records. -/
structure Heap where
  mem : Mem
  records : List PoolRecord

namespace Heap

def poolRecord (h : Heap) (poolId : Nat) : Option PoolRecord :=
  if poolId = 0 ∨ kMaxEventPools < poolId then none else h.records[poolId - 1]?

def setRecord (h : Heap) (k : Nat) (r : PoolRecord) : Heap :=
  { h with records := h.records.set k r }

/-- `alloc_with_margin` of the pool with id `k + 1`. -/
def allocWithMargin (h : Heap) (k signal margin : Nat) : Heap × Option Nat :=
  match h.records[k]? with
  | none => (h, none)
  | some r =>
    match r.claimRawBlock h.mem margin with
    | (r', none) => (h.setRecord k r', none)
    | (r', some index) =>
      ({ h.setRecord k r' with mem := newEvent h.mem (r.blockBase index) signal (k + 1) },
       some (r.blockBase index))

def alloc (h : Heap) (k signal : Nat) : Heap × Option Nat := h.allocWithMargin k signal 0

def eventRefInc (h : Heap) (e : Nat) : Except Fault Heap :=
  if eventPoolId h.mem e = 0 then .ok h
  else
    match h.poolRecord (eventPoolId h.mem e) with
    | none => .error .noRecord
    | some _ =>
      if eventRefCtr h.mem e < 0xFF then
        .ok { h with mem := setRefCtr h.mem e (eventRefCtr h.mem e + 1) }
      else .error .refCeiling

/-- `EventPool::reclaim`. -/
def reclaim (h : Heap) (e : Nat) : Except Fault Heap :=
  match h.poolRecord (eventPoolId h.mem e) with
  | none => .error .noRecord
  | some r =>
    if e < r.base then .error .belowBase
    else
      .ok { mem := store32 h.mem e (poolHeadIndex r.freeHead)
            records := h.records.set (eventPoolId h.mem e - 1)
              { r with freeHead := r.pushedHead (r.indexOf e), used := fetchSub16 r.used 1 } }

def eventGc (h : Heap) (e : Nat) : Except Fault Heap :=
  if eventPoolId h.mem e = 0 then .ok h
  else
    match h.poolRecord (eventPoolId h.mem e) with
    | none => .error .noRecord
    | some _ =>
      if eventRefCtr h.mem e = 0 then .error .doubleRelease
      else
        let h' := { h with mem := setRefCtr h.mem e (eventRefCtr h.mem e - 1) }
        if eventRefCtr h'.mem e = 0 then h'.reclaim e else .ok h'

end Heap

/-- The template arguments of an `EventPool` and the storage given to `init`. -/
structure PoolSpec where
  profile : Profile
  blockSize : Nat
  capacity : Nat
  align : Nat
  storage : Nat
  bytes : Nat
  fits : 4 ≤ blockSize
  indexed : capacity < poolIndexInvalid
  aligned : 0 < align

/-- `pool_block_align`; the mask of the source rounds up to a power of two. -/
def poolBlockAlign (align size : Nat) : Nat := (size + align - 1) / align * align

namespace PoolSpec

def stride (g : PoolSpec) : Nat := poolBlockAlign g.align g.blockSize
def begin (g : PoolSpec) : Nat := poolBlockAlign g.align g.storage

/-- The number of blocks `init` finds room for. -/
def count (g : PoolSpec) : Nat :=
  if g.begin ≤ g.storage + g.bytes then
    min ((g.storage + g.bytes - g.begin) / g.stride) g.capacity
  else 0

theorem le_poolBlockAlign {align size : Nat} (pos : 0 < align) :
    size ≤ poolBlockAlign align size := by
  have split := Nat.div_add_mod (size + align - 1) align
  have small := Nat.mod_lt (size + align - 1) pos
  rw [poolBlockAlign, Nat.mul_comm]
  omega

theorem count_le (g : PoolSpec) : g.count ≤ g.capacity := by
  rw [count]
  split
  · exact Nat.min_le_right _ _
  · exact Nat.zero_le _

theorem fits_stride (g : PoolSpec) : 4 ≤ g.stride :=
  g.fits.trans (le_poolBlockAlign g.aligned)

def record (g : PoolSpec) : PoolRecord where
  profile := g.profile
  freeHead := poolPackHead 0 0
  base := g.begin
  blockSize := g.stride
  capacity := g.count
  used := 0
  highWatermark := 0
  fits := g.fits_stride
  indexed := g.count_le.trans_lt g.indexed

/-- The loop of `init` that chains the first `i` of `n` free blocks by index. -/
def chainBlocks (g : PoolSpec) (m : Mem) : Nat → Mem
  | 0 => m
  | i + 1 => store32 (g.chainBlocks m i) (g.record.blockBase i)
      (if i + 1 < g.count then i + 1 else poolIndexInvalid)

end PoolSpec

/-- `EventPool::init` of a fresh pool with non-null storage and hooks; the record
is registered in the first free place of the registry. -/
def Heap.init (h : Heap) (g : PoolSpec) : Heap × Bool :=
  if g.storage = 0 ∨ g.count = 0 then (h, false)
  else if h.records.length < kMaxEventPools then
    ({ mem := g.chainBlocks h.mem g.count, records := h.records ++ [g.record] }, true)
  else ({ h with mem := g.chainBlocks h.mem g.count }, false)

end Coact.Pool
