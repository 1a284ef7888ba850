import Coact.Foundation.Refinement
import Coact.Pool.Geometry
import Coact.Pool.System

/-! The same pools under `RttSingleCoreProfile` and under `HostSmpProfile`. The plain list
keeps no tag and takes a block and its count in one go; the tagged list counts first and
gives the count back if there is no block. Run one operation after the other they cannot
be told apart: the memory is the same, and so are the records up to the tag. -/
namespace Coact.Pool
open Foundation

/-- The geometry with another profile. -/
def PoolSpec.under (g : PoolSpec) (profile : Profile) : PoolSpec := { g with profile := profile }

inductive Request where
  | init (g : PoolSpec)
  | alloc (k signal : Nat)
  | allocWithMargin (k signal margin : Nat)
  | eventRefInc (e : Nat)
  | eventGc (e : Nat)

inductive Reply where
  | initialised (done : Bool)
  | block (e : Option Nat)
  | done

/-- One operation of a trace, with all pools of one profile. -/
def Heap.perform (profile : Profile) (h : Heap) : Request → Except Fault (Heap × Reply)
  | .init g => .ok ((h.init (g.under profile)).1, .initialised (h.init (g.under profile)).2)
  | .alloc k signal => .ok ((h.alloc k signal).1, .block (h.alloc k signal).2)
  | .allocWithMargin k signal margin =>
    .ok ((h.allocWithMargin k signal margin).1, .block (h.allocWithMargin k signal margin).2)
  | .eventRefInc e => (h.eventRefInc e).map (·, .done)
  | .eventGc e => (h.eventGc e).map (·, .done)

/-- Two records that differ in the profile and in the tag only. -/
structure PoolRecord.Twin (r r' : PoolRecord) : Prop where
  plain : r.profile = .RttSingleCoreProfile
  tagged : r'.profile = .HostSmpProfile
  head : poolHeadIndex r'.freeHead = poolHeadIndex r.freeHead
  base : r'.base = r.base
  blockSize : r'.blockSize = r.blockSize
  capacity : r'.capacity = r.capacity
  used : r'.used = r.used
  highWatermark : r'.highWatermark = r.highWatermark

structure Heap.Twin (h h' : Heap) : Prop where
  mem : h'.mem = h.mem
  records : List.Forall₂ PoolRecord.Twin h.records h'.records

section
variable {r r' : PoolRecord}

theorem PoolRecord.Twin.blockBase (twin : r.Twin r') (i : Nat) :
    r'.blockBase i = r.blockBase i := by
  simp only [PoolRecord.blockBase, twin.base, twin.blockSize]

theorem PoolRecord.Twin.loadNext (twin : r.Twin r') (m : Mem) (i : Nat) :
    r'.loadNext m i = r.loadNext m i := by
  simp only [PoolRecord.loadNext, twin.blockBase]

theorem PoolRecord.Twin.indexOf (twin : r.Twin r') (e : Nat) : r'.indexOf e = r.indexOf e := by
  simp only [PoolRecord.indexOf, twin.base, twin.blockSize]

theorem PoolRecord.Twin.freeBlocks (twin : r.Twin r') (m : Mem) :
    freeBlocks m r' = freeBlocks m r := by
  have next : r'.loadNext m = r.loadNext m := funext (twin.loadNext m)
  simp only [Pool.freeBlocks, next, twin.capacity, twin.head]

theorem PoolRecord.Twin.claimRawBlock (twin : r.Twin r') (m : Mem) (margin : Nat) :
    (r'.claimRawBlock m margin).2 = (r.claimRawBlock m margin).2 ∧
      (r.claimRawBlock m margin).1.Twin (r'.claimRawBlock m margin).1 := by
  rcases r'.claimRawBlock_cases m margin with ⟨room, filled, tag', claims'⟩ | ⟨none', claims'⟩
  · rw [twin.used, twin.capacity] at room
    rw [twin.head] at filled claims'
    rcases r.claimRawBlock_cases m margin with ⟨-, -, tag, claims⟩ | ⟨none, -⟩
    · rw [claims, claims']
      exact ⟨rfl, { twin with
        head := by simp only [PoolRecord.claimed, poolHeadIndex_pack, twin.loadNext]
        used := by simp only [PoolRecord.claimed, twin.used]
        highWatermark := by simp only [PoolRecord.claimed, twin.used, twin.highWatermark] }⟩
    · exact (none ⟨room, filled⟩).elim
  · rw [twin.used, twin.capacity, twin.head] at none'
    rcases r.claimRawBlock_cases m margin with ⟨room, filled, -⟩ | ⟨-, claims⟩
    · exact (none' ⟨room, filled⟩).elim
    · rw [claims, claims']
      exact ⟨rfl, twin⟩

theorem PoolRecord.Twin.push (twin : r.Twin r') (i : Nat) :
    PoolRecord.Twin { r with freeHead := r.pushedHead i, used := fetchSub16 r.used 1 }
      { r' with freeHead := r'.pushedHead i, used := fetchSub16 r'.used 1 } :=
  { twin with
    head := by simp only [PoolRecord.pushedHead, twin.plain, twin.tagged, poolHeadIndex_pack]
    used := by simp only [twin.used] }

end

section
variable {h h' : Heap}

theorem Heap.Twin.record (twin : h.Twin h') (k : Nat) :
    (h.records[k]? = none ∧ h'.records[k]? = none) ∨
      ∃ r r', h.records[k]? = some r ∧ h'.records[k]? = some r' ∧ r.Twin r' := by
  have same := twin.records.length_eq
  by_cases below : k < h.records.length
  · right
    have below' : k < h'.records.length := same ▸ below
    exact ⟨_, _, List.getElem?_eq_getElem below, List.getElem?_eq_getElem below',
      twin.records.get below below'⟩
  · left
    exact ⟨List.getElem?_eq_none (not_lt.mp below),
      List.getElem?_eq_none (same ▸ not_lt.mp below)⟩

theorem Heap.Twin.poolRecord (twin : h.Twin h') (poolId : Nat) :
    (h.poolRecord poolId = none ∧ h'.poolRecord poolId = none) ∨
      ∃ r r', h.poolRecord poolId = some r ∧ h'.poolRecord poolId = some r' ∧ r.Twin r' := by
  simp only [Heap.poolRecord]
  split
  · exact .inl ⟨rfl, rfl⟩
  · exact twin.record (poolId - 1)

theorem forall₂_set {α β : Type} {R : α → β → Prop} {xs : List α} {ys : List β} {x : α} {y : β}
    (all : List.Forall₂ R xs ys) (new : R x y) (k : Nat) :
    List.Forall₂ R (xs.set k x) (ys.set k y) := by
  induction all generalizing k with
  | nil => exact .nil
  | cons first rest ih =>
    cases k with
    | zero => exact .cons new rest
    | succ k => exact .cons first (ih k)

theorem Heap.Twin.set (twin : h.Twin h') {r r' : PoolRecord} (new : r.Twin r') {m m' : Mem}
    (mem : m' = m) (k : Nat) :
    Heap.Twin ⟨m, h.records.set k r⟩ ⟨m', h'.records.set k r'⟩ :=
  ⟨mem, forall₂_set twin.records new k⟩

theorem Heap.Twin.init (twin : h.Twin h') (g : PoolSpec) :
    (h'.init (g.under .HostSmpProfile)).2 = (h.init (g.under .RttSingleCoreProfile)).2 ∧
      (h.init (g.under .RttSingleCoreProfile)).1.Twin (h'.init (g.under .HostSmpProfile)).1 := by
  have chained : ∀ n, (g.under .HostSmpProfile).chainBlocks h.mem n =
      (g.under .RttSingleCoreProfile).chainBlocks h.mem n := by
    intro n
    induction n with
    | zero => rfl
    | succ n ih =>
      simp only [PoolSpec.chainBlocks, ih]
      rfl
  have count : (g.under .HostSmpProfile).count = (g.under .RttSingleCoreProfile).count := rfl
  have storage : (g.under .HostSmpProfile).storage = (g.under .RttSingleCoreProfile).storage := rfl
  simp only [Heap.init, twin.mem, count, storage, chained, ← twin.records.length_eq]
  split
  · exact ⟨rfl, twin⟩
  · split
    · refine ⟨rfl, rfl, ?_⟩
      apply List.rel_append twin.records
      exact .cons ⟨rfl, rfl, rfl, rfl, rfl, rfl, rfl, rfl⟩ .nil
    · exact ⟨rfl, rfl, twin.records⟩

theorem Heap.Twin.allocWithMargin (twin : h.Twin h') (k signal margin : Nat) :
    (h'.allocWithMargin k signal margin).2 = (h.allocWithMargin k signal margin).2 ∧
      (h.allocWithMargin k signal margin).1.Twin (h'.allocWithMargin k signal margin).1 := by
  rcases twin.record k with ⟨none, none'⟩ | ⟨r, r', found, found', same⟩
  · simp only [Heap.allocWithMargin, none, none']
    exact ⟨trivial, twin⟩
  · obtain ⟨block, claimed⟩ := same.claimRawBlock h.mem margin
    simp only [Heap.allocWithMargin, found, found', twin.mem]
    generalize r.claimRawBlock h.mem margin = claim at block claimed
    generalize r'.claimRawBlock h.mem margin = claim' at block claimed
    obtain ⟨after, index⟩ := claim
    obtain ⟨after', index'⟩ := claim'
    cases block
    cases index with
    | none => exact ⟨rfl, twin.set claimed twin.mem k⟩
    | some index =>
      simp only [same.blockBase]
      exact ⟨trivial, twin.set claimed rfl k⟩

theorem Heap.Twin.eventRefInc (twin : h.Twin h') (e : Nat) :
    Alike Heap.Twin ((h.eventRefInc e).map (·, Reply.done)) ((h'.eventRefInc e).map (·, Reply.done)) := by
  simp only [Heap.eventRefInc, twin.mem]
  split
  · exact .ok twin
  · rcases twin.poolRecord (eventPoolId h.mem e) with ⟨none, none'⟩ | ⟨r, r', found, found', -⟩
    · simp only [none, none']
      exact .error
    · simp only [found, found']
      split
      · exact .ok ⟨rfl, twin.records⟩
      · exact .error

theorem Heap.Twin.reclaim (twin : h.Twin h') (e : Nat) :
    Alike Heap.Twin ((h.reclaim e).map (·, Reply.done)) ((h'.reclaim e).map (·, Reply.done)) := by
  simp only [Heap.reclaim, twin.mem]
  rcases twin.poolRecord (eventPoolId h.mem e) with ⟨none, none'⟩ | ⟨r, r', found, found', same⟩
  · simp only [none, none']
    exact .error
  · simp only [found, found']
    by_cases below : e < r.base
    · rw [if_pos below, if_pos (same.base ▸ below)]
      exact .error
    · rw [if_neg below, if_neg (same.base ▸ below), same.indexOf, same.head]
      exact .ok (twin.set (same.push (r.indexOf e)) rfl _)

theorem Heap.Twin.eventGc (twin : h.Twin h') (e : Nat) :
    Alike Heap.Twin ((h.eventGc e).map (·, Reply.done)) ((h'.eventGc e).map (·, Reply.done)) := by
  simp only [Heap.eventGc, twin.mem]
  split
  · exact .ok twin
  · rcases twin.poolRecord (eventPoolId h.mem e) with ⟨none, none'⟩ | ⟨r, r', found, found', -⟩
    · simp only [none, none']
      exact .error
    · simp only [found, found']
      split
      · exact .error
      · split
        · have released : Heap.Twin ⟨setRefCtr h.mem e (eventRefCtr h.mem e - 1), h.records⟩
              ⟨setRefCtr h.mem e (eventRefCtr h.mem e - 1), h'.records⟩ := ⟨rfl, twin.records⟩
          exact released.reclaim e
        · exact .ok ⟨rfl, twin.records⟩

theorem Heap.Twin.perform (twin : h.Twin h') (request : Request) :
    Alike Heap.Twin (h.perform .RttSingleCoreProfile request)
      (h'.perform .HostSmpProfile request) := by
  cases request with
  | init g =>
    obtain ⟨done, after⟩ := twin.init g
    simp only [Heap.perform, done]
    exact .ok after
  | alloc k signal =>
    obtain ⟨block, after⟩ := twin.allocWithMargin k signal 0
    simp only [Heap.perform, Heap.alloc, block]
    exact .ok after
  | allocWithMargin k signal margin =>
    obtain ⟨block, after⟩ := twin.allocWithMargin k signal margin
    simp only [Heap.perform, block]
    exact .ok after
  | eventRefInc e => exact twin.eventRefInc e
  | eventGc e => exact twin.eventGc e

end

/-- What can be seen of the pools: for each of them where its blocks are, how many are in
use and were at most, and the free ones in their order; and all reference counts. -/
structure SameView (h h' : Heap) : Prop where
  pools : h'.records.length = h.records.length
  geometry : ∀ (k : Nat) (r r' : PoolRecord), h.records[k]? = some r → h'.records[k]? = some r' →
    r'.base = r.base ∧ r'.blockSize = r.blockSize ∧ r'.capacity = r.capacity
  counts : ∀ (k : Nat) (r r' : PoolRecord), h.records[k]? = some r → h'.records[k]? = some r' →
    r'.used = r.used ∧ r'.highWatermark = r.highWatermark
  free : ∀ (k : Nat) (r r' : PoolRecord), h.records[k]? = some r → h'.records[k]? = some r' →
    freeBlocks h'.mem r' = freeBlocks h.mem r
  references : ∀ e, eventRefCtr h'.mem e = eventRefCtr h.mem e

theorem Heap.Twin.sameView (twin : h.Twin h') : SameView h h' := by
  have pair : ∀ {k : Nat} {r r' : PoolRecord}, h.records[k]? = some r → h'.records[k]? = some r' →
      r.Twin r' := by
    intro k r r' found found'
    rcases twin.record k with ⟨none, -⟩ | ⟨s, s', there, there', same⟩
    · rw [none] at found
      cases found
    · rw [there] at found
      rw [there'] at found'
      cases found
      cases found'
      exact same
  constructor
  case pools => exact twin.records.length_eq.symm
  case geometry =>
    intro k r r' found found'
    have same := pair found found'
    exact ⟨same.base, same.blockSize, same.capacity⟩
  case counts =>
    intro k r r' found found'
    have same := pair found found'
    exact ⟨same.used, same.highWatermark⟩
  case free =>
    intro k r r' found found'
    rw [twin.mem]
    exact (pair found found').freeBlocks h.mem
  case references =>
    intro e
    rw [twin.mem]

/-- After every trace of operations, over any memory and any geometry of the pools, the two
profiles have given the same replies and show the same pools, or the trace ends in the same
failed assertion. -/
theorem profiles_agree (m : Mem) (trace : List Request) :
    Alike SameView (responses (Heap.perform .RttSingleCoreProfile) ⟨m, []⟩ trace)
      (responses (Heap.perform .HostSmpProfile) ⟨m, []⟩ trace) := by
  have twins : Heap.Twin ⟨m, []⟩ ⟨m, []⟩ := ⟨rfl, .nil⟩
  have alike := Alike.run (fun h h' request twin => Heap.Twin.perform twin request) twins trace
  generalize responses (Heap.perform .RttSingleCoreProfile) ⟨m, []⟩ trace = plain at alike
  generalize responses (Heap.perform .HostSmpProfile) ⟨m, []⟩ trace = tagged at alike
  cases alike with
  | ok twin => exact .ok twin.sameView
  | error => exact .error

end Coact.Pool
