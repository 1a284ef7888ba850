import Coact.Foundation.Chain
import Coact.Pool.Batcher
import Coact.Pool.Geometry

/-! The representation invariant of the pools. A view assigns the blocks of a pool
to its free list and to the pending chains of the batchers; the blocks in none of
these are exactly the events with references, and memory, records and tables
represent the view. -/
namespace Coact.Pool
open Foundation

/-- The chains a block can be in. -/
inductive Shelf where
  | free
  | pending (b : Nat)
  deriving DecidableEq

abbrev View := Chains Nat Shelf

/-- The table entry of a pool represents a pending chain. -/
def Represents (next : Nat → Nat) : Option Pending → List Nat → Prop
  | none, blocks => blocks = []
  | some p, blocks => p.count = blocks.length ∧
      (blocks = [] ∨ ∃ body, blocks = body ++ [p.last] ∧ Linked next p.first body p.last)

structure PoolOk (m : Mem) (entry : Nat → Option Pending) (held : Nat → Nat) (k : Nat)
    (r : PoolRecord) (v : View) : Prop where
  inside : ∀ c, ∀ i ∈ v.chain c, i < r.capacity
  free : Linked (r.loadNext m) (poolHeadIndex r.freeHead) (v.chain .free) poolIndexInvalid
  pending : ∀ b, Represents (r.loadNext m) (entry b) (v.chain (.pending b))
  lent : ∀ i < r.capacity, v.Loose i ↔ 0 < held (r.blockBase i)
  header : ∀ i < r.capacity, 0 < held (r.blockBase i) →
    eventPoolId m (r.blockBase i) = k + 1 ∧ eventRefCtr m (r.blockBase i) = held (r.blockBase i)
  used : r.used + (v.chain .free).length = r.capacity

structure HeapOk (h : Heap) (tables : Nat → Table) (held : Nat → Nat) (view : Nat → View) :
    Prop where
  few : h.records.length ≤ kMaxEventPools
  disjoint : ∀ {k k' : Nat} {r r'}, h.records[k]? = some r → h.records[k']? = some r' → k ≠ k' →
    r.Disjoint r'
  known : ∀ b, ∀ p ∈ tables b, p.record < h.records.length
  distinct : ∀ b, ((tables b).map Pending.record).Nodup
  owned : ∀ e, 0 < held e → ∃ (k : Nat) (r : PoolRecord) (i : Nat),
    h.records[k]? = some r ∧ i < r.capacity ∧ e = r.blockBase i
  fresh : ∀ k, h.records.length ≤ k → ∀ c, (view k).chain c = []
  pool : ∀ {k : Nat} {r}, h.records[k]? = some r →
    PoolOk h.mem (fun b => (tables b).entry k) held k r (view k)

section
variable {entry : Nat → Option Pending} {held : Nat → Nat}

theorem Represents.congr {next next' : Nat → Nat} {blocks : List Nat}
    (rep : Represents next p blocks) (same : ∀ i ∈ blocks, next' i = next i) :
    Represents next' p blocks := by
  cases p with
  | none => exact rep
  | some =>
    refine ⟨rep.1, rep.2.imp id ?_⟩
    rintro ⟨body, rfl, linked⟩
    exact ⟨body, rfl, linked.congr fun i member => same i (List.mem_append_left _ member)⟩

section
variable (ok : PoolOk m entry held k r v)
include ok

theorem PoolOk.frame (words : ∀ i < r.capacity, SameWord m m' (r.blockBase i))
    (refs : ∀ i < r.capacity, held' (r.blockBase i) = held (r.blockBase i))
    (entries : ∀ b, entry' b = entry b) : PoolOk m' entry' held' k r v where
  inside := ok.inside
  free := ok.free.congr fun i member => (words i (ok.inside _ i member)).load32
  pending b := by
    rw [entries b]
    exact (ok.pending b).congr fun i member => (words i (ok.inside _ i member)).load32
  lent i below := by
    rw [refs i below]
    exact ok.lent i below
  header i below := by
    rw [refs i below, poolId_same (words i below), refCtr_same (words i below)]
    exact ok.header i below
  used := ok.used

theorem PoolOk.shelf_iff (i : Nat) :
    (∃ c, i ∈ v.chain c) ↔ i < r.capacity ∧ held (r.blockBase i) = 0 := by
  constructor
  · rintro ⟨c, member⟩
    have below := ok.inside c i member
    exact ⟨below, Nat.eq_zero_of_not_pos fun lent => (ok.lent i below).mpr lent c member⟩
  · rintro ⟨below, unheld⟩
    by_contra loose
    have lent := (ok.lent i below).mp fun c member => loose ⟨c, member⟩
    omega

theorem PoolOk.length_le (c : Shelf) : (v.chain c).length ≤ r.capacity := by
  have subset : v.chain c ⊆ List.range r.capacity := fun i member =>
    List.mem_range.mpr (ok.inside c i member)
  simpa using ((v.nodup c).subperm subset).length_le

theorem PoolOk.invalid_notMem (c : Shelf) :
    poolIndexInvalid ∉ v.chain c := fun member =>
  Nat.lt_asymm (ok.inside c _ member) r.indexed

theorem PoolOk.freeBlocks :
    walk (r.loadNext m) poolIndexInvalid r.capacity (poolHeadIndex r.freeHead) =
      some (v.chain .free) :=
  walk_linked ok.free (ok.invalid_notMem .free) (ok.length_le .free)

end

end

end Coact.Pool
