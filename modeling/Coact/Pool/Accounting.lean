import Coact.Pool.Runs

/-! The accounting of a pool in every reachable state: free, pending and
outstanding blocks make up the pool, the counters agree with them, and
`alloc_with_margin` succeeds exactly while more than the margin is free. -/
namespace Coact.Pool
open Foundation

namespace State

/-- Block `i` of a pool is an event that clients hold. -/
def Outstanding (s : State) (r : PoolRecord) (i : Nat) : Prop :=
  i < r.capacity ∧ 0 < s.held (r.blockBase i)

/-- The blocks of pool `k` that wait in batcher `b`. -/
def pending (s : State) (k : Nat) (r : PoolRecord) (b : Nat) : List Nat :=
  pendingBlocks s.heap.mem (s.tables b) k r

/-- The free list, the pending chains and the outstanding events of a pool have no
block in common and together are all its blocks. -/
structure Partition (s : State) (k : Nat) (r : PoolRecord) (free : List Nat) : Prop where
  listed : freeBlocks s.heap.mem r = some free
  freeOnce : free.Nodup
  pendingOnce : ∀ b, (s.pending k r b).Nodup
  freeApart : ∀ i ∈ free, ¬ s.Outstanding r i ∧ ∀ b, i ∉ s.pending k r b
  pendingApart : ∀ b, ∀ i ∈ s.pending k r b,
    ¬ s.Outstanding r i ∧ ∀ b', i ∈ s.pending k r b' → b' = b
  whole : ∀ i, (i ∈ free ∨ (∃ b, i ∈ s.pending k r b) ∨ s.Outstanding r i) ↔ i < r.capacity

end State

theorem pendingBlocks_eq {blocks : List Nat}
    (rep : Represents (r.loadNext m) (t.entry k) blocks) : pendingBlocks m t k r = blocks := by
  rw [pendingBlocks]
  cases entry : t.entry k with
  | none =>
    rw [entry] at rep
    exact rep.symm
  | some =>
    rw [entry] at rep
    obtain ⟨count, rfl | ⟨body, rfl, linked⟩⟩ := rep
    · simp only [count]
      rfl
    · simp only [count, List.length_append, List.length_singleton]
      exact follow_linked linked

section
variable {maxPending : Nat → Nat} {s : State} {view : Nat → View} {k : Nat} {r : PoolRecord}

theorem HeapOk.pending (ok : HeapOk s.heap s.tables s.held view)
    (found : s.heap.records[k]? = some r) (b : Nat) :
    s.pending k r b = (view k).chain (.pending b) :=
  pendingBlocks_eq ((ok.pool found).pending b)

theorem HeapOk.partition (ok : HeapOk s.heap s.tables s.held view)
    (found : s.heap.records[k]? = some r) : s.Partition k r ((view k).chain .free) := by
  have pool := ok.pool found
  have shelved {i : Nat} {c : Shelf} (member : i ∈ (view k).chain c) : ¬ s.Outstanding r i :=
    fun out => Nat.ne_of_gt out.2 ((pool.shelf_iff i).mp ⟨c, member⟩).2
  constructor
  case listed => exact pool.freeBlocks
  case freeOnce => exact (view k).nodup .free
  case pendingOnce =>
    intro b
    rw [ok.pending found]
    exact (view k).nodup _
  case freeApart =>
    intro i member
    refine ⟨shelved member, fun b waiting => ?_⟩
    rw [ok.pending found] at waiting
    cases (view k).apart member waiting
  case pendingApart =>
    intro b i member
    rw [ok.pending found] at member
    refine ⟨shelved member, fun b' waiting => ?_⟩
    rw [ok.pending found] at waiting
    cases (view k).apart waiting member
    rfl
  case whole =>
    intro i
    constructor
    · rintro (free | ⟨b, waiting⟩ | out)
      · exact pool.inside _ i free
      · rw [ok.pending found] at waiting
        exact pool.inside _ i waiting
      · exact out.1
    · intro below
      by_cases lent : 0 < s.held (r.blockBase i)
      · exact .inr (.inr ⟨below, lent⟩)
      · obtain ⟨c, member⟩ := (pool.shelf_iff i).mpr ⟨below, Nat.eq_zero_of_not_pos lent⟩
        cases c with
        | free => exact .inl member
        | pending b => exact .inr (.inl ⟨b, by rwa [ok.pending found]⟩)

/-- Every reachable state has its pools partitioned, with `used` and the high
watermark exact; `alloc_with_margin` takes the first free block while more than
`margin` blocks are free, and otherwise changes nothing. -/
theorem pool_representation (run : Reached maxPending s) (found : s.heap.records[k]? = some r) :
    ∃ free, s.Partition k r free ∧ r.used + free.length = r.capacity ∧
      r.highWatermark = s.peak k ∧ ∀ signal margin,
        if r.used + margin < r.capacity then
          ∃ i rest h' r', s.heap.allocWithMargin k signal margin = (h', some (r.blockBase i)) ∧
            free = i :: rest ∧ h'.records[k]? = some r' ∧ freeBlocks h'.mem r' = some rest ∧
            margin ≤ rest.length
        else s.heap.allocWithMargin k signal margin = (s.heap, none) := by
  obtain ⟨⟨view, ok⟩, marked⟩ := reached_ok run
  have balance := (ok.pool found).used
  refine ⟨_, ok.partition found, balance, (marked.marks found).1, fun signal margin => ?_⟩
  rcases ok.alloc found signal margin with ⟨room, i, rest, head, free, claimed, whole⟩ | ⟨full, same⟩
  · rw [if_pos room]
    have found' : (s.heap.records.set k (r.claimed head))[k]? = some (r.claimed head) :=
      getElem?_set_found found _
    have listed := (whole.pool found').freeBlocks
    rw [Function.update_self, Chains.chain_pop_same] at listed
    rw [free, List.length_cons] at balance
    exact ⟨i, rest, _, r.claimed head, claimed, free, found', listed, by omega⟩
  · rw [if_neg full]
    exact same

end

/-- Three blocks of 8 bytes from address 20 on. -/
def smallPool : PoolSpec :=
  ⟨.HostSmpProfile, 6, 3, 4, 17, 30, by decide, by decide, by decide⟩

/-- One event released to a batcher, one outstanding, one block free. -/
def mixedRun : List Label := [.init smallPool, .alloc 0 7 0, .alloc 0 8 0, .release 0 20]

theorem pool_representation_mixed :
    (runOf (fun _ => 4) mixedRun).heap.used 0 = 2 ∧
    ∃ r, (runOf (fun _ => 4) mixedRun).heap.records[0]? = some r ∧
      ∃ free, (runOf (fun _ => 4) mixedRun).Partition 0 r free ∧ r.used + free.length = r.capacity := by
  have run : Reached (fun _ => 4) (runOf (fun _ => 4) mixedRun) :=
    reached_runOf (by decide +kernel)
  obtain ⟨r, found⟩ : ∃ r, (runOf (fun _ => 4) mixedRun).heap.records[0]? = some r :=
    Option.isSome_iff_exists.mp (by decide +kernel)
  obtain ⟨free, partition, balance, -⟩ := pool_representation run found
  exact ⟨by decide +kernel, r, found, free, partition, balance⟩

end Coact.Pool
