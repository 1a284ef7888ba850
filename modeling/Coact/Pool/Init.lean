import Coact.Pool.Operations

/-! `EventPool::init` keeps the representation invariant: the new pool has all its
blocks on the free list, and the pools that exist are not touched. -/
namespace Coact.Pool
open Foundation Function

section
variable {g : PoolSpec} {m : Mem} {n : Nat}

theorem PoolSpec.storage_le_begin (g : PoolSpec) : g.storage ≤ g.begin :=
  le_poolBlockAlign g.aligned

theorem PoolSpec.count_end (g : PoolSpec) (some_block : g.count ≠ 0) :
    g.begin + g.count * g.stride ≤ g.storage + g.bytes := by
  by_cases room : g.begin ≤ g.storage + g.bytes
  · have bound : g.count ≤ (g.storage + g.bytes - g.begin) / g.stride := by
      rw [count, if_pos room]
      exact Nat.min_le_left _ _
    have fits := (Nat.mul_le_mul_right g.stride bound).trans (Nat.div_mul_le_self _ _)
    omega
  · rw [count, if_neg room] at some_block
    exact (some_block rfl).elim

theorem sameWord_chainBlocks (apart : ∀ i < n, Apart (g.record.blockBase i) b) :
    SameWord m (g.chainBlocks m n) b := by
  induction n with
  | zero => exact SameWord.refl
  | succ n ih =>
    have before := ih fun i below => apart i (below.trans (Nat.lt_succ_self n))
    exact before.trans (sameWord_store32 (apart n (Nat.lt_succ_self n)))

theorem loadNext_chainBlocks (below : j < n) :
    g.record.loadNext (g.chainBlocks m n) j =
      if j + 1 < g.count then j + 1 else poolIndexInvalid := by
  induction n with
  | zero => cases below
  | succ n ih =>
    rcases Nat.lt_succ_iff_lt_or_eq.mp below with earlier | rfl
    · rw [← ih earlier]
      exact (sameWord_store32 (PoolRecord.apart_blocks earlier.ne')).load32
    · rw [PoolRecord.loadNext, PoolSpec.chainBlocks, load32_store32]
      have indexed := g.record.indexed
      have capacity : g.record.capacity = g.count := rfl
      simp only [poolIndexInvalid, capacity] at indexed ⊢
      exact Nat.mod_eq_of_lt (by split <;> omega)

theorem PoolSpec.linked_chainBlocks (g : PoolSpec) (some_block : g.count ≠ 0) :
    Linked (g.record.loadNext (g.chainBlocks m g.count)) (poolHeadIndex g.record.freeHead)
      (List.range g.count) poolIndexInvalid := by
  have linked := linked_range' (n := g.count) (i := 0)
    (fun j below => loadNext_chainBlocks (m := m) below) (Nat.zero_add _)
  rw [if_pos (Nat.pos_of_ne_zero some_block)] at linked
  have start : poolHeadIndex g.record.freeHead = 0 := poolHeadIndex_pack 0 0
  rw [List.range_eq_range', start]
  exact linked

end

section
variable {h : Heap} {tables : Nat → Table} {held : Nat → Nat} {view : Nat → View} {g : PoolSpec}

theorem PoolSpec.disjoint (some_block : g.count ≠ 0)
    (apart : g.storage + g.bytes ≤ r.base ∨ r.base + r.capacity * r.blockSize ≤ g.storage) :
    g.record.Disjoint r := by
  have start := g.storage_le_begin
  have stop := g.count_end some_block
  rcases apart with before | after
  · exact .inl (stop.trans before)
  · exact .inr (after.trans start)

theorem HeapOk.rewritten (ok : HeapOk h tables held view)
    (words : ∀ r ∈ h.records, ∀ i < r.capacity, SameWord h.mem m (r.blockBase i)) :
    HeapOk { h with mem := m } tables held view :=
  ⟨ok.few, ok.disjoint, ok.known, ok.distinct, ok.owned, ok.fresh, fun {_ r} found =>
    (ok.pool found).frame (words r (List.mem_of_getElem? found)) (fun _ _ => rfl) fun _ => rfl⟩

theorem HeapOk.registered (ok : HeapOk h tables held view)
    (disjoint : ∀ r' ∈ h.records, r.Disjoint r') (place : h.records.length < kMaxEventPools)
    (pool : PoolOk h.mem (fun b => (tables b).entry h.records.length) held h.records.length r v) :
    HeapOk { h with records := h.records ++ [r] } tables held
      (update view h.records.length v) := by
  constructor
  case few =>
    rw [List.length_append]
    exact place
  case disjoint =>
    intro k₁ k₂ r₁ r₂ first second differ
    rcases getElem?_of_append first with ⟨rfl, rfl⟩ | old₁ <;>
      rcases getElem?_of_append second with ⟨rfl, rfl⟩ | old₂
    · exact (differ rfl).elim
    · exact disjoint _ (List.mem_of_getElem? old₂)
    · exact (disjoint _ (List.mem_of_getElem? old₁)).symm
    · exact ok.disjoint old₁ old₂ differ
  case known =>
    intro b p member
    rw [List.length_append]
    exact (ok.known b p member).trans (Nat.lt_succ_self _)
  case distinct => exact ok.distinct
  case owned =>
    intro e lent
    obtain ⟨k, r₁, i, found, below, rfl⟩ := ok.owned e lent
    exact ⟨k, r₁, i, getElem?_append_found _ found, below, rfl⟩
  case fresh =>
    intro k beyond
    rw [List.length_append, List.length_singleton] at beyond
    rw [update_of_ne (Nat.ne_of_gt beyond)]
    exact ok.fresh k (Nat.le_of_succ_le beyond)
  case pool =>
    intro k r₁ found
    rcases getElem?_of_append found with ⟨rfl, rfl⟩ | old
    · rw [update_self]
      exact pool
    · rw [update_of_ne (Nat.ne_of_lt (List.getElem?_eq_some_iff.mp old).1)]
      exact ok.pool old

theorem poolOk_chained {entry : Nat → Option Pending}
    (unused : ∀ b, entry b = none) (unheld : ∀ i < g.count, held (g.record.blockBase i) = 0)
    (some_block : g.count ≠ 0) :
    PoolOk (g.chainBlocks m g.count) entry held k g.record
      (Chains.only .free (List.range g.count) List.nodup_range) := by
  constructor
  case inside =>
    intro c i member
    by_cases free : c = .free
    · subst free
      exact List.mem_range.mp member
    · rw [Chains.chain_only_other free] at member
      cases member
  case free =>
    rw [Chains.chain_only_same]
    exact g.linked_chainBlocks some_block
  case pending =>
    intro b
    rw [Chains.chain_only_other (by simp), unused b]
    exact rfl
  case lent =>
    intro i below
    refine iff_of_false (fun loose => loose .free ?_) (by rw [unheld i below]; simp)
    exact List.mem_range.mpr below
  case header =>
    intro i below lent
    rw [unheld i below] at lent
    cases lent
  case used =>
    rw [Chains.chain_only_same, List.length_range]
    exact Nat.zero_add _

theorem HeapOk.init (ok : HeapOk h tables held view)
    (apart : ∀ r ∈ h.records,
      g.storage + g.bytes ≤ r.base ∨ r.base + r.capacity * r.blockSize ≤ g.storage) :
    ∃ view', HeapOk (h.init g).1 tables held view' ∧ Kept ∅ view view' ∧
      ((h.init g).1.records = h.records ∨ (h.init g).1.records = h.records ++ [g.record]) := by
  rw [Heap.init]
  split
  · exact ⟨view, ok, Kept.refl ∅ view, .inl rfl⟩
  · rename_i usable
    have some_block : g.count ≠ 0 := fun zero => usable (.inr zero)
    have disjoint (r : PoolRecord) (member : r ∈ h.records) : g.record.Disjoint r :=
      PoolSpec.disjoint some_block (apart r member)
    have rewritten := ok.rewritten (m := g.chainBlocks h.mem g.count) fun r member i below =>
      sameWord_chainBlocks fun j inside => (disjoint r member).apart inside below
    split
    · rename_i place
      have absent (b : Nat) : (tables b).entry h.records.length = none := by
        refine Table.entry_eq_none fun member => ?_
        obtain ⟨p, inside, same⟩ := List.mem_map.mp member
        exact Nat.lt_irrefl _ (same ▸ ok.known b p inside)
      have unheld (i : Nat) (below : i < g.count) : held (g.record.blockBase i) = 0 := by
        refine Nat.eq_zero_of_not_pos fun lent => ?_
        obtain ⟨k, r, j, found, inside, same⟩ := ok.owned _ lent
        rcases (disjoint r (List.mem_of_getElem? found)).apart (i := i) below inside with
          before | after <;> omega
      refine ⟨update view h.records.length
          (Chains.only .free (List.range g.count) List.nodup_range), ?_,
        kept_update ?_ fun b _ => ?_, .inr rfl⟩
      · exact rewritten.registered disjoint place (poolOk_chained absent unheld some_block)
      · rw [ok.fresh _ le_rfl]
        exact List.nil_subset _
      · rw [Chains.chain_only_other (by simp), ok.fresh _ le_rfl]
    · exact ⟨view, rewritten, Kept.refl ∅ view, .inl rfl⟩

end

end Coact.Pool
