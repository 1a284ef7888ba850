import Coact.Pool.Operations

/-! `ReclaimBatcher` keeps the representation invariant: a dead block goes to the
front of its pool's pending chain, a full chain or a flushed one goes to the
free list, and a full table sends the block there at once. -/
namespace Coact.Pool
open Foundation Function

theorem Represents.ends {next : Nat → Nat} {blocks : List Nat}
    (rep : Represents next (some p) blocks) (filled : blocks ≠ []) :
    p.first ∈ blocks ∧ p.last ∈ blocks := by
  obtain ⟨-, empty | ⟨body, rfl, linked⟩⟩ := rep
  · exact (filled empty).elim
  · refine ⟨?_, List.mem_concat_self⟩
    cases body with
    | nil => exact List.mem_singleton.mpr linked
    | cons => exact linked.1 ▸ List.mem_cons_self

theorem represents_nil {next : Nat → Nat}
    (zero : ∀ p, q = some p → p.count = 0) : Represents next q [] := by
  cases q with
  | none => exact rfl
  | some p => exact ⟨zero p rfl, .inl rfl⟩

section
variable {tables : Nat → Table} {held : Nat → Nat}

/-- An operation on one block of pool `k` that also changes the entry of the pool
in one table. -/
theorem HeapOk.tabled (ok : HeapOk h tables held view) (found : h.records[k]? = some r)
    (below : i < r.capacity) (touches : Touches h.mem m' held held' (r.blockBase i))
    (like : r.Like r') (others : ∀ k', k' ≠ k → t.entry k' = (tables b).entry k')
    (known : ∀ p ∈ t, p.record < h.records.length) (distinct : (t.map Pending.record).Nodup)
    (pool : PoolOk m' (fun b' => (update tables b t b').entry k) held' k r' v') :
    HeapOk ⟨m', h.records.set k r'⟩ (update tables b t) held'
      (update view k v') := by
  refine ok.touched found below touches like (fun b' k' other => ?_) (fun b' => ?_)
    (fun b' => ?_) pool <;> by_cases here : b' = b
  · subst here
    rw [update_self]
    exact others k' other
  · rw [update_of_ne here]
  · subst here
    rw [update_self]
    exact known
  · rw [update_of_ne here]
    exact ok.known b'
  · subst here
    rw [update_self]
    exact distinct
  · rw [update_of_ne here]
    exact ok.distinct b'

theorem PoolOk.pending_le_used {entry : Nat → Option Pending}
    (ok : PoolOk m entry held k r v) (b : Nat) : (v.chain (.pending b)).length ≤ r.used := by
  have subset : v.chain (.pending b) ++ v.chain .free ⊆ List.range r.capacity := by
    intro j member
    rcases List.mem_append.mp member with inside | inside <;>
      exact List.mem_range.mpr (ok.inside _ j inside)
  have nodup := (v.splice (.pending b) .free (by simp)).nodup .free
  rw [Chains.chain_splice_dst] at nodup
  have length := (nodup.subperm subset).length_le
  rw [List.length_append, List.length_range] at length
  have balance := ok.used
  omega

/-- A pending chain is spliced onto the free list of its pool and its entry is
emptied or dropped. -/
theorem HeapOk.splice (ok : HeapOk h tables held view)
    (entry : (tables b).entry p.record = some p) (filled : 0 < p.count)
    (emptied : ∀ q, t.entry p.record = some q → q.count = 0)
    (others : ∀ k, k ≠ p.record → t.entry k = (tables b).entry k)
    (known : ∀ q ∈ t, q.record < h.records.length) (distinct : (t.map Pending.record).Nodup) :
    ∃ view', HeapOk (spliceLocked h p.record p.first p.last p.count)
      (update tables b t) held view' ∧ Kept {b} view view' := by
  have bound := ok.known b p (Table.entry_mem entry).1
  have found := List.getElem?_eq_getElem bound
  generalize h.records[p.record] = r at found
  have pool := ok.pool found
  have rep := pool.pending b
  rw [entry] at rep
  have some_blocks : (view p.record).chain (.pending b) ≠ [] := by
    intro empty
    rw [rep.1, empty] at filled
    cases filled
  obtain ⟨first, last⟩ := rep.ends some_blocks
  have touches : Touches h.mem (store32 h.mem (r.blockBase p.last) (poolHeadIndex r.freeHead))
      held held (r.blockBase p.last) := ⟨fun b => sameWord_store32, fun _ _ => rfl⟩
  have like : r.Like { r with
      freeHead := poolPackHead p.first (poolHeadTag r.freeHead + 1)
      used := fetchSub16 r.used p.count } := ⟨rfl, rfl, rfl⟩
  have freeHead : poolHeadIndex (poolPackHead p.first (poolHeadTag r.freeHead + 1)) = p.first := by
    rw [poolHeadIndex_pack, Nat.mod_eq_of_lt (index_lt (pool.inside _ _ first))]
  have counted : fetchSub16 r.used p.count + p.count = r.used := by
    have le := pool.pending_le_used b
    rw [← rep.1] at le
    rw [fetchSub16_of_le le, Nat.sub_add_cancel le]
  have emptied' : ∀ m, Represents (r.loadNext m) ((update tables b t b).entry p.record) [] :=
    fun m => represents_nil fun q same => emptied q (by rwa [update_self] at same)
  have spliced : PoolOk _ (fun b' => (update tables b t b').entry p.record) held _ _ _ :=
    pool.spliced entry some_blocks touches (load32_link _ _ _) like freeHead counted (emptied' _)
      fun b' other => by rw [update_of_ne other]
  rw [spliceLocked, found]
  refine ⟨_, ok.tabled found (pool.inside _ _ last) touches like others known distinct spliced,
    kept_update ?_ fun b' other => ?_⟩
  · exact List.subset_append_right ..
  · exact Chains.chain_splice_other (by simpa using other) (by simp)

end

section
variable {held : Nat → Nat} {i : Nat} {r : PoolRecord}

theorem linkPending_records (h : Heap) (e index : Nat) (p : Pending) :
    (linkPending h e index p).1.records = h.records ∧
      (linkPending h e index p).2.record = p.record := by
  rw [linkPending]
  split <;> exact ⟨rfl, rfl⟩

theorem sameWord_linkPending {e index : Nat}
    (apart : Apart e b) : SameWord h.mem (linkPending h e index p).1.mem b := by
  rw [linkPending]
  split
  · exact SameWord.refl
  · exact sameWord_store32 apart

theorem represents_linkPending {blocks : List Nat}
    (rep : Represents (r.loadNext h.mem) (some p) blocks) (outside : i ∉ blocks)
    (inside : ∀ j ∈ blocks, j < r.capacity) (room : blocks.length + 1 ≤ r.capacity) :
    Represents (r.loadNext (linkPending h (r.blockBase i) i p).1.mem)
      (some (linkPending h (r.blockBase i) i p).2) (i :: blocks) := by
  have indexed := r.indexed
  simp only [poolIndexInvalid] at indexed
  have counted : (p.count + 1) % 2 ^ 16 = (i :: blocks).length := by
    rw [rep.1, List.length_cons, Nat.mod_eq_of_lt (by omega)]
  by_cases empty : p.count = 0
  · have none_yet : blocks = [] := List.length_eq_zero_iff.mp (rep.1 ▸ empty)
    subst none_yet
    rw [linkPending, if_pos empty]
    exact ⟨counted, .inr ⟨[], rfl, rfl⟩⟩
  · have filled : blocks ≠ [] := fun none_yet => empty (by rw [rep.1, none_yet]; rfl)
    have firstBelow := index_lt (inside _ (rep.ends filled).1)
    obtain ⟨-, none_yet | ⟨body, rfl, linked⟩⟩ := rep
    · exact (filled none_yet).elim
    · rw [linkPending, if_neg empty]
      refine ⟨counted, .inr ⟨i :: body, rfl, rfl, ?_⟩⟩
      have link : r.loadNext (store32 h.mem (r.blockBase i) p.first) i = p.first := by
        rw [PoolRecord.loadNext, load32_store32,
          Nat.mod_eq_of_lt (firstBelow.trans (by decide))]
      rw [link]
      refine linked.congr fun j member => ?_
      have other : i ≠ j := fun same =>
        outside (same ▸ List.mem_append_left _ member)
      exact (sameWord_store32 (PoolRecord.apart_blocks other)).load32

end

section
variable {tables : Nat → Table} {held : Nat → Nat}

theorem represents_new {next : Nat → Nat} {t : Table} {blocks : List Nat}
    (rep : Represents next (t.entry k) blocks)
    (source : t.entry k = some p ∨ (t.entry k = none ∧ p.count = 0)) :
    Represents next (some p) blocks := by
  rcases source with present | ⟨absent, zero⟩
  · rwa [present] at rep
  · rw [absent] at rep
    obtain rfl : blocks = [] := rep
    exact ⟨zero, .inl rfl⟩

theorem HeapOk.linked (ok : HeapOk h tables held view) (found : h.records[k]? = some r)
    (below : i < r.capacity) (lent : 0 < held (r.blockBase i))
    (words : ∀ b, Apart (r.blockBase i) b → SameWord h.mem m b)
    (taken : pendingOf maxPending (tables b) k = some (t, j)) (here : t[j]? = some p) :
    ∃ view', HeapOk (linkPending ⟨m, h.records⟩ (r.blockBase i) i p).1
        (update tables b (t.set j (linkPending ⟨m, h.records⟩ (r.blockBase i) i p).2))
        (update held (r.blockBase i) 0) view' ∧ Kept {b} view view' := by
  have pool := ok.pool found
  have loose := (pool.lent i below).mpr lent
  obtain ⟨q, at_j, record, source, others, distinct, mem⟩ :=
    pendingOf_some taken (ok.distinct b)
  obtain rfl : q = p := Option.some.inj (at_j.symm.trans here)
  have touched : Touches h.mem m held held (r.blockBase i) := ⟨words, fun _ _ => rfl⟩
  have front := represents_linkPending (h := ⟨m, h.records⟩)
    (represents_new (touched.represents (pool.pending b) (loose _)) source) (loose _)
    (pool.inside _) (pool.room below loose _)
  obtain ⟨records, same⟩ := linkPending_records ⟨m, h.records⟩ (r.blockBase i) i q
  have touches : Touches h.mem (linkPending ⟨m, h.records⟩ (r.blockBase i) i q).1.mem held
      (update held (r.blockBase i) 0) (r.blockBase i) :=
    ⟨fun b apart => (words b apart).trans (sameWord_linkPending (h := ⟨m, h.records⟩) apart),
      fun _ other => update_of_ne other ..⟩
  generalize linkPending ⟨m, h.records⟩ (r.blockBase i) i q = linked at *
  obtain ⟨⟨m', records'⟩, q'⟩ := linked
  subst records
  have entries (k' : Nat) : Table.entry (t.set j q') k' =
      if k' = k then some q' else (tables b).entry k' := by
    rw [Table.entry_set at_j same distinct, record]
    split
    · rfl
    · rename_i other
      exact others k' other
  have shelved : PoolOk m' (fun b' => (update tables b (t.set j q') b').entry k) _ k r _ :=
    pool.shelved below touches (update_self ..) loose (b := b)
      (by rw [update_self, entries, if_pos rfl]; exact front)
      fun b' other => by rw [update_of_ne other]
  have bound := (List.getElem?_eq_some_iff.mp found).1
  have known : ∀ q₁ ∈ t.set j q', q₁.record < h.records.length := by
    intro q₁ member
    rcases List.mem_or_eq_of_mem_set member with old | rfl
    · rcases mem q₁ old with older | new
      · exact ok.known b q₁ older
      · exact new ▸ bound
    · rw [same, record]
      exact bound
  have distinct' : ((t.set j q').map Pending.record).Nodup := by
    rw [List.map_set, same, set_found (by rw [List.getElem?_map, at_j]; rfl)]
    exact distinct
  have whole := ok.tabled found below touches ⟨rfl, rfl, rfl⟩
    (fun k' other => by rw [entries, if_neg other]) known distinct' shelved
  rw [set_found found] at whole
  refine ⟨_, whole, kept_update ?_ fun b' other => ?_⟩
  · exact List.Subset.refl _
  · exact Chains.chain_push_other (by simpa using other)

/-- The chain of an entry that has reached the cap is spliced and counted anew. -/
theorem HeapOk.capped (ok : HeapOk h tables held view) (here : (tables b)[j]? = some p) :
    ∃ view', HeapOk (capPending h p).1
        (update tables b ((tables b).set j (capPending h p).2)) held view' ∧
      Kept {b} view view' := by
  have distinct := ok.distinct b
  rw [capPending]
  split
  · rename_i full
    have entry : (tables b).entry p.record = some p := by
      have whole := Table.entry_set here rfl distinct p.record
      rwa [set_found here, if_pos rfl] at whole
    have entries (k : Nat) : Table.entry ((tables b).set j { p with count := 0 }) k =
        if k = p.record then some { p with count := 0 } else (tables b).entry k :=
      Table.entry_set here (by rfl) distinct k
    refine ok.splice entry (lt_of_lt_of_le (by decide) full) (fun q same => ?_)
      (fun k other => ?_) (fun q member => ?_) ?_
    · rw [entries, if_pos rfl] at same
      exact Option.some.inj same ▸ rfl
    · rw [entries, if_neg other]
    · rcases List.mem_or_eq_of_mem_set member with old | rfl
      · exact ok.known b q old
      · exact ok.known b p (List.mem_of_getElem? here)
    · rw [List.map_set, set_found (by rw [List.getElem?_map, here]; rfl)]
      exact distinct
  · refine ⟨view, ?_, Kept.refl {b} view⟩
    rw [set_found here, update_eq_self]
    exact ok

/-- A block that lost its last reference goes to its pending chain, or to the
free list when the table is full. -/
theorem HeapOk.retire (ok : HeapOk h tables held view) (found : h.records[k]? = some r)
    (below : i < r.capacity) (lent : 0 < held (r.blockBase i))
    (words : ∀ b, Apart (r.blockBase i) b → SameWord h.mem m b) (b maxPending : Nat) :
    ∃ view', HeapOk (retire maxPending (tables b) ⟨m, h.records⟩ k (r.blockBase i) i).2
        (update tables b
          (retire maxPending (tables b) ⟨m, h.records⟩ k (r.blockBase i) i).1)
        (update held (r.blockBase i) 0) view' ∧ Kept {b} view view' := by
  rw [Pool.retire]
  cases taken : pendingOf maxPending (tables b) k with
  | none =>
    have freeHead : poolHeadIndex (poolPackHead i (poolHeadTag r.freeHead + 1)) = i := by
      rw [poolHeadIndex_pack, Nat.mod_eq_of_lt (index_lt below)]
    obtain ⟨view', whole, kept, -⟩ := ok.returned found below lent words freeHead
    refine ⟨view', ?_, kept.widen (Set.empty_subset _)⟩
    dsimp only
    rw [update_eq_self, spliceLocked, found]
    exact whole
  | some place =>
    obtain ⟨t, j⟩ := place
    obtain ⟨p, here, -⟩ := pendingOf_some taken (ok.distinct b)
    obtain ⟨view₁, linked, kept₁⟩ := ok.linked found below lent words taken here
    dsimp only
    rw [here]
    dsimp only
    generalize linkPending ⟨m, h.records⟩ (r.blockBase i) i p = after at *
    obtain ⟨h₁, p₁⟩ := after
    have position : (update tables b (t.set j p₁) b)[j]? = some p₁ := by
      rw [update_self]
      exact getElem?_set_found here p₁
    obtain ⟨view₂, capped, kept₂⟩ := linked.capped position
    rw [update_self, List.set_set, update_idem] at capped
    exact ⟨view₂, capped, kept₁.trans kept₂⟩

theorem HeapOk.release (ok : HeapOk h tables held view) (lent : 0 < held e) (b maxPending : Nat) :
    ∃ t h' view', release maxPending (tables b) h e = .ok (t, h') ∧
      HeapOk h' (update tables b t) (update held e (held e - 1)) view' ∧
      Kept {b} view view' := by
  have counted := ok.decremented lent
  obtain ⟨k, r, i, found, below, rfl, poolId, record, refCtr⟩ := ok.holder lent
  have bound : held (r.blockBase i) < 2 ^ 8 := refCtr ▸ eventRefCtr_lt
  rw [Pool.release, poolId, if_neg (Nat.succ_ne_zero k), record]
  dsimp only
  rw [refCtr, if_neg lent.ne', counted]
  by_cases last : held (r.blockBase i) - 1 = 0
  · rw [if_neg (not_not.mpr last), if_neg (not_lt.mpr (r.base_le_blockBase i)),
      r.indexOf_blockBase, Nat.add_sub_cancel]
    obtain ⟨view', whole, kept⟩ := ok.retire found below lent
      (fun b => sameWord_setRefCtr (n := held (r.blockBase i) - 1)) b maxPending
    exact ⟨_, _, view', rfl, last.symm ▸ whole, kept⟩
  · rw [if_pos last]
    refine ⟨_, _, view, rfl, ?_, Kept.refl {b} view⟩
    rw [update_eq_self]
    exact ok.recounted lent (by omega) (by omega)

end

section
variable {tables : Nat → Table} {held : Nat → Nat}

theorem HeapOk.dropped (ok : HeapOk h tables held view) {rest : Table}
    (here : tables b = p :: rest) (empty : p.count = 0) :
    HeapOk h (update tables b rest) held view := by
  have distinct := ok.distinct b
  have known := ok.known b
  rw [here] at distinct known
  rw [List.map_cons, List.nodup_cons] at distinct
  constructor
  case few => exact ok.few
  case disjoint => exact ok.disjoint
  case known =>
    intro b'
    rw [update_apply]
    split
    · exact fun q member => known q (List.mem_cons_of_mem p member)
    · exact ok.known b'
  case distinct =>
    intro b'
    rw [update_apply]
    split
    · exact distinct.2
    · exact ok.distinct b'
  case owned => exact ok.owned
  case fresh => exact ok.fresh
  case pool =>
    intro k r found
    have pool := ok.pool found
    refine ⟨pool.inside, pool.free, fun b' => ?_, pool.lent, pool.header, pool.used⟩
    rw [update_apply]
    split
    · rename_i at_b
      subst at_b
      have rep := pool.pending b'
      rw [here, Table.entry_cons] at rep
      split at rep
      · rename_i same
        have none_left : (view k).chain (.pending b') = [] :=
          List.length_eq_zero_iff.mp (rep.1 ▸ empty)
        rw [none_left, ← same, Table.entry_eq_none distinct.1]
        exact rfl
      · exact rep
    · exact pool.pending b'

theorem HeapOk.flush (ok : HeapOk h tables held view) (here : tables b = t) :
    ∃ view', HeapOk (flush t h) (update tables b []) held view' ∧
      Kept {b} view view' := by
  induction t generalizing h tables view with
  | nil =>
    have same : update tables b [] = tables := here ▸ update_eq_self ..
    exact ⟨view, same.symm ▸ ok, Kept.refl {b} view⟩
  | cons p rest ih =>
    have distinct := ok.distinct b
    rw [here, List.map_cons, List.nodup_cons] at distinct
    have after : ∃ view₁, HeapOk
        (if 0 < p.count then poolReclaimChain h p.record p.first p.last p.count else h)
        (update tables b rest) held view₁ ∧ Kept {b} view view₁ := by
      split
      · rename_i filled
        refine ok.splice (by rw [here, Table.entry_cons, if_pos rfl]) filled (fun q same => ?_)
          (fun k other => ?_) (fun q member => ?_) distinct.2
        · rw [Table.entry_eq_none distinct.1] at same
          cases same
        · rw [here, Table.entry_cons, if_neg (Ne.symm other)]
        · exact ok.known b q (here ▸ List.mem_cons_of_mem p member)
      · rename_i empty
        exact ⟨view, ok.dropped here (by omega), Kept.refl {b} view⟩
    obtain ⟨view₁, spliced, kept₁⟩ := after
    obtain ⟨view₂, flushed, kept₂⟩ := ih spliced (update_self ..)
    rw [update_idem] at flushed
    exact ⟨view₂, flushed, kept₁.trans kept₂⟩

end

end Coact.Pool
