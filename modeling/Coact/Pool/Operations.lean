import Coact.Foundation.Tally
import Coact.Pool.Blocks
import Coact.Pool.Entries

/-! The operations of `EventPool` keep the representation invariant: each touches
one block of one pool and leaves the other pools alone. -/
namespace Coact.Pool
open Foundation Function

/-- No block leaves a free list, and only the batchers in `mine` change their
pending chains. -/
structure Kept (mine : Set Nat) (view view' : Nat → View) : Prop where
  free : ∀ k, (view k).chain .free ⊆ (view' k).chain .free
  pending : ∀ k, ∀ b ∉ mine, (view' k).chain (.pending b) = (view k).chain (.pending b)

theorem Kept.refl (mine : Set Nat) (view : Nat → View) : Kept mine view view :=
  ⟨fun _ => List.Subset.refl _, fun _ _ _ => rfl⟩

variable {view : Nat → View}

theorem Kept.trans (first : Kept mine view view')
    (second : Kept mine view' view'') : Kept mine view view'' where
  free k := List.Subset.trans (first.free k) (second.free k)
  pending k b other := (second.pending k b other).trans (first.pending k b other)

theorem Kept.widen (kept : Kept mine view view')
    (wider : mine ⊆ mine') : Kept mine' view view' :=
  ⟨kept.free, fun k b other => kept.pending k b fun inside => other (wider inside)⟩

theorem kept_update (free : (view k).chain .free ⊆ v.chain .free)
    (pending : ∀ b ∉ mine, v.chain (.pending b) = (view k).chain (.pending b)) :
    Kept mine view (update view k v) := by
  refine ⟨fun k' => ?_, fun k' b other => ?_⟩ <;> rw [update_apply] <;> split
  · rename_i here
    exact here ▸ free
  · exact List.Subset.refl _
  · rename_i here
    exact here ▸ pending b other
  · rfl

section
variable {h : Heap} {tables tables' : Nat → Table} {held held' : Nat → Nat} {view : Nat → View}
  {k i e : Nat} {r r' : PoolRecord} {m' : Mem} {v' : View}

theorem lookup_set (found : h.records[k]? = some r) (there : (h.records.set k r')[k₁]? = some r₁) :
    (k₁ = k ∧ r₁ = r') ∨ (k₁ ≠ k ∧ h.records[k₁]? = some r₁) := by
  by_cases here : k₁ = k
  · subst here
    rw [List.getElem?_set_self (List.getElem?_eq_some_iff.mp found).1] at there
    exact .inl ⟨rfl, (Option.some.inj there).symm⟩
  · rw [List.getElem?_set_ne (Ne.symm here)] at there
    exact .inr ⟨here, there⟩

theorem PoolRecord.Like.disjoint (like : r.Like r') :
    (r'.Disjoint r₁ ↔ r.Disjoint r₁) ∧ (r₁.Disjoint r' ↔ r₁.Disjoint r) := by
  simp [PoolRecord.Disjoint, like.base, like.blockSize, like.capacity]

theorem HeapOk.touched (ok : HeapOk h tables held view) (found : h.records[k]? = some r)
    (below : i < r.capacity) (touches : Touches h.mem m' held held' (r.blockBase i))
    (like : r.Like r') (entries : ∀ b k', k' ≠ k → (tables' b).entry k' = (tables b).entry k')
    (known : ∀ b, ∀ p ∈ tables' b, p.record < h.records.length)
    (distinct : ∀ b, ((tables' b).map Pending.record).Nodup)
    (pool : PoolOk m' (fun b => (tables' b).entry k) held' k r' v') :
    HeapOk ⟨m', h.records.set k r'⟩ tables' held' (update view k v') := by
  have bound := (List.getElem?_eq_some_iff.mp found).1
  constructor
  case few =>
    rw [List.length_set]
    exact ok.few
  case disjoint =>
    intro k₁ k₂ r₁ r₂ first second differ
    rcases lookup_set found first with ⟨rfl, rfl⟩ | ⟨away₁, old₁⟩ <;>
      rcases lookup_set found second with ⟨rfl, rfl⟩ | ⟨away₂, old₂⟩
    · exact (differ rfl).elim
    · exact like.disjoint.1.mpr (ok.disjoint found old₂ differ)
    · exact like.disjoint.2.mpr (ok.disjoint old₁ found differ)
    · exact ok.disjoint old₁ old₂ differ
  case known =>
    simpa using known
  case distinct => exact distinct
  case owned =>
    intro e lent
    by_cases here : e = r.blockBase i
    · exact ⟨k, r', i, List.getElem?_set_self bound, like.capacity ▸ below,
        here.trans (like.blockBase i).symm⟩
    · rw [touches.refs e here] at lent
      obtain ⟨k₁, r₁, i₁, there, inside, rfl⟩ := ok.owned e lent
      by_cases same : k₁ = k
      · subst same
        cases found.symm.trans there
        exact ⟨k₁, r', i₁, List.getElem?_set_self bound, like.capacity ▸ inside,
          (like.blockBase i₁).symm⟩
      · exact ⟨k₁, r₁, i₁, (List.getElem?_set_ne (Ne.symm same)).trans there, inside, rfl⟩
  case fresh =>
    intro k₁ beyond
    rw [List.length_set] at beyond
    rw [update_of_ne (Nat.ne_of_gt (bound.trans_le beyond))]
    exact ok.fresh k₁ beyond
  case pool =>
    intro k₁ r₁ there
    rcases lookup_set found there with ⟨rfl, rfl⟩ | ⟨away, old⟩
    · rw [update_self]
      exact pool
    · rw [update_of_ne away]
      have apart {j : Nat} (inside : j < r₁.capacity) : Apart (r.blockBase i) (r₁.blockBase j) :=
        (ok.disjoint found old (Ne.symm away)).apart below inside
      refine (ok.pool old).frame (fun j inside => touches.words _ (apart inside))
        (fun j inside => touches.refs _ ?_) fun b => entries b k₁ away
      intro same
      rcases apart inside with before | after <;> omega

theorem HeapOk.holder (ok : HeapOk h tables held view) (lent : 0 < held e) :
    ∃ (k : Nat) (r : PoolRecord) (i : Nat), h.records[k]? = some r ∧ i < r.capacity ∧
      e = r.blockBase i ∧ eventPoolId h.mem e = k + 1 ∧
      h.poolRecord (k + 1) = some r ∧ eventRefCtr h.mem e = held e := by
  obtain ⟨k, r, i, found, below, rfl⟩ := ok.owned e lent
  obtain ⟨poolId, refCtr⟩ := (ok.pool found).header i below lent
  refine ⟨k, r, i, found, below, rfl, poolId, ?_, refCtr⟩
  have bound := (List.getElem?_eq_some_iff.mp found).1
  have few := ok.few
  rw [Heap.poolRecord, if_neg (by omega), Nat.add_sub_cancel, found]

theorem HeapOk.decremented (ok : HeapOk h tables held view) (lent : 0 < held e) :
    eventRefCtr (setRefCtr h.mem e (held e - 1)) e = held e - 1 := by
  obtain ⟨-, -, -, -, -, -, -, -, refCtr⟩ := ok.holder lent
  have bound : held e < 2 ^ 8 := refCtr ▸ eventRefCtr_lt
  rw [eventRefCtr_setRefCtr, Nat.mod_eq_of_lt (by omega)]

theorem PoolOk.room {entry : Nat → Option Pending}
    (ok : PoolOk m entry held k r v) (below : i < r.capacity) (loose : v.Loose i) (c : Shelf) :
    (v.chain c).length + 1 ≤ r.capacity := by
  have subset : i :: v.chain c ⊆ List.range r.capacity := by
    intro j member
    rcases List.mem_cons.mp member with rfl | inside
    · exact List.mem_range.mpr below
    · exact List.mem_range.mpr (ok.inside c j inside)
  have nodup : (i :: v.chain c).Nodup := List.nodup_cons.mpr ⟨loose c, v.nodup c⟩
  simpa using (nodup.subperm subset).length_le

theorem touches_setRefCtr (n n' : Nat) : Touches m (setRefCtr m e n) held (update held e n') e where
  words _ apart := sameWord_setRefCtr apart
  refs _ other := update_of_ne other ..

theorem HeapOk.recounted (ok : HeapOk h tables held view) (lent : 0 < held e) {n : Nat}
    (pos : 0 < n) (small : n < 2 ^ 8) :
    HeapOk { h with mem := setRefCtr h.mem e n } tables (update held e n) view := by
  obtain ⟨k, r, i, found, below, rfl, poolId, -, -⟩ := ok.holder lent
  have touches : Touches h.mem (setRefCtr h.mem (r.blockBase i) n) held
      (update held (r.blockBase i) n) (r.blockBase i) := touches_setRefCtr n n
  have counted := (ok.pool found).recounted below lent touches
    (by rw [update_self]; exact pos) (by
      rw [eventPoolId_setRefCtr, eventRefCtr_setRefCtr, update_self,
        Nat.mod_eq_of_lt small]
      exact ⟨poolId, rfl⟩)
  have whole := ok.touched found below touches ⟨rfl, rfl, rfl⟩ (fun _ _ _ => rfl) ok.known
    ok.distinct counted
  rw [update_eq_self, set_found found] at whole
  exact whole

theorem poolHeadIndex_lt (head : Nat) : poolHeadIndex head < 2 ^ 16 := by
  rw [poolHeadIndex_eq]
  exact Nat.mod_lt _ (by decide)

theorem poolHeadIndex_pushed (r : PoolRecord) (small : i < 2 ^ 16) :
    poolHeadIndex (r.pushedHead i) = i := by
  rw [PoolRecord.pushedHead]
  split <;> rw [poolHeadIndex_pack, Nat.mod_eq_of_lt small]

theorem index_lt (below : i < r.capacity) : i < 2 ^ 16 :=
  below.trans (r.indexed.trans (by decide))

theorem load32_link (m : Mem) (a head : Nat) :
    load32 (store32 m a (poolHeadIndex head)) a = poolHeadIndex head := by
  rw [load32_store32, Nat.mod_eq_of_lt ((poolHeadIndex_lt head).trans (by decide))]

theorem HeapOk.returned (ok : HeapOk h tables held view) (found : h.records[k]? = some r)
    (below : i < r.capacity) (lent : 0 < held (r.blockBase i)) {head : Nat}
    (words : ∀ b, Apart (r.blockBase i) b → SameWord h.mem m b)
    (freeHead : poolHeadIndex head = i) :
    ∃ view', HeapOk ⟨store32 m (r.blockBase i) (poolHeadIndex r.freeHead),
        h.records.set k { r with freeHead := head, used := fetchSub16 r.used 1 }⟩ tables
        (update held (r.blockBase i) 0) view' ∧
      Kept ∅ view view' ∧ i ∈ (view' k).chain .free := by
  have pool := ok.pool found
  have loose := (pool.lent i below).mpr lent
  have room := pool.room below loose .free
  have balance := pool.used
  have touches : Touches h.mem (store32 m (r.blockBase i) (poolHeadIndex r.freeHead)) held
      (update held (r.blockBase i) 0) (r.blockBase i) :=
    ⟨fun b apart => (words b apart).trans (sameWord_store32 apart),
      fun _ other => update_of_ne other ..⟩
  have dead : update held (r.blockBase i) 0 (r.blockBase i) = 0 := update_self ..
  have like : r.Like { r with freeHead := head, used := fetchSub16 r.used 1 } := ⟨rfl, rfl, rfl⟩
  have counted : fetchSub16 r.used 1 + 1 = r.used := by
    rw [fetchSub16_of_le (by omega)]
    omega
  have home := pool.returned below touches dead loose (load32_link _ _ _) like freeHead counted
  refine ⟨_, ok.touched found below touches like (fun _ _ _ => rfl) ok.known ok.distinct home,
    kept_update ?_ (fun b _ => Chains.chain_push_other (by simp)), ?_⟩
  · exact List.subset_cons_self ..
  · rw [update_self, Chains.chain_push_same]
    exact List.mem_cons_self

theorem HeapOk.refInc (ok : HeapOk h tables held view) (lent : 0 < held e)
    (ran : h.eventRefInc e = .ok h') :
    HeapOk h' tables (update held e (held e + 1)) view := by
  obtain ⟨k, r, i, found, below, rfl, poolId, record, refCtr⟩ := ok.holder lent
  rw [Heap.eventRefInc, poolId, if_neg (Nat.succ_ne_zero k), record] at ran
  dsimp only at ran
  split at ran <;> cases ran
  rename_i small
  rw [refCtr] at small ⊢
  exact ok.recounted lent (Nat.succ_pos _) (by omega)

/-- `event_gc` on a held event succeeds; with the last reference the block goes
back to the pool it came from. -/
theorem HeapOk.gc (ok : HeapOk h tables held view) (lent : 0 < held e) :
    ∃ h' view', h.eventGc e = .ok h' ∧
      HeapOk h' tables (update held e (held e - 1)) view' ∧ Kept ∅ view view' ∧
      (held e = 1 → ∃ (k : Nat) (r : PoolRecord) (i : Nat), h.records[k]? = some r ∧
        e = r.blockBase i ∧ i ∈ (view' k).chain .free) := by
  have counted := ok.decremented lent
  obtain ⟨k, r, i, found, below, rfl, poolId, record, refCtr⟩ := ok.holder lent
  have bound : held (r.blockBase i) < 2 ^ 8 := refCtr ▸ eventRefCtr_lt
  have unfolded : h.eventGc (r.blockBase i) =
      if held (r.blockBase i) - 1 = 0 then
        Heap.reclaim ⟨setRefCtr h.mem (r.blockBase i) (held (r.blockBase i) - 1), h.records⟩
          (r.blockBase i)
      else .ok ⟨setRefCtr h.mem (r.blockBase i) (held (r.blockBase i) - 1), h.records⟩ := by
    rw [Heap.eventGc, poolId, if_neg (Nat.succ_ne_zero k), record]
    dsimp only
    rw [refCtr, if_neg lent.ne', counted]
  by_cases last : held (r.blockBase i) - 1 = 0
  · have reclaimed : Heap.reclaim
        ⟨setRefCtr h.mem (r.blockBase i) (held (r.blockBase i) - 1), h.records⟩ (r.blockBase i) =
        .ok ⟨store32 (setRefCtr h.mem (r.blockBase i) (held (r.blockBase i) - 1)) (r.blockBase i)
            (poolHeadIndex r.freeHead),
          h.records.set k { r with freeHead := r.pushedHead i, used := fetchSub16 r.used 1 }⟩ := by
      have same : Heap.poolRecord ⟨setRefCtr h.mem (r.blockBase i) (held (r.blockBase i) - 1),
          h.records⟩ (k + 1) = some r := record
      rw [Heap.reclaim, eventPoolId_setRefCtr, poolId, same]
      dsimp only
      rw [if_neg (not_lt.mpr (r.base_le_blockBase i)), r.indexOf_blockBase,
        Nat.add_sub_cancel]
    obtain ⟨view', whole, kept, home⟩ := ok.returned found below lent
      (fun b => sameWord_setRefCtr) (poolHeadIndex_pushed r (index_lt below))
    rw [unfolded, if_pos last, reclaimed]
    exact ⟨_, view', rfl, last ▸ whole, kept, fun _ => ⟨k, r, i, found, rfl, home⟩⟩
  · rw [unfolded, if_neg last]
    exact ⟨_, view, rfl, ok.recounted lent (by omega) (by omega), Kept.refl ∅ view,
      fun one => (last (by omega)).elim⟩

end

section
variable {entry : Nat → Option Pending} {held : Nat → Nat}

theorem PoolOk.free_head (ok : PoolOk m entry held k r v) (room : r.used < r.capacity) :
    ∃ rest, v.chain .free = poolHeadIndex r.freeHead :: rest ∧
      poolHeadIndex r.freeHead ≠ poolIndexInvalid := by
  cases free : v.chain .free with
  | nil =>
    have balance := ok.used
    rw [free, List.length_nil] at balance
    omega
  | cons i rest =>
    have linked := ok.free
    rw [free] at linked
    have below : i < r.capacity := ok.inside .free i (free ▸ List.mem_cons_self)
    rw [linked.1]
    exact ⟨rest, rfl, Nat.ne_of_lt (below.trans r.indexed)⟩

/-- A claim succeeds exactly while more than `margin` blocks are free, and then
takes the first free block. -/
theorem PoolOk.claim (ok : PoolOk m entry held k r v) (margin : Nat) :
    (r.used + margin < r.capacity ∧ ∃ i rest tag, v.chain .free = i :: rest ∧
      r.claimRawBlock m margin = (r.claimed (poolPackHead (r.loadNext m i) tag), some i)) ∨
    (¬ r.used + margin < r.capacity ∧ r.claimRawBlock m margin = (r, none)) := by
  rcases r.claimRawBlock_cases m margin with ⟨room, -, tag, claims⟩ | ⟨refused, claims⟩
  · obtain ⟨rest, free, -⟩ := ok.free_head (Nat.lt_of_add_right_lt room)
    exact .inl ⟨room, _, rest, tag, free, claims⟩
  · refine .inr ⟨?_, claims⟩
    intro room
    obtain ⟨-, -, proper⟩ := ok.free_head (Nat.lt_of_add_right_lt room)
    exact refused ⟨room, proper⟩

theorem PoolOk.claimed_used (ok : PoolOk m entry held k r v) {rest : List Nat}
    (free : v.chain .free = i :: rest) (head : Nat) :
    (r.claimed head).used = r.used + 1 ∧
      (r.claimed head).highWatermark = max r.highWatermark (r.used + 1) := by
  have balance := ok.used
  have indexed := r.indexed
  rw [free, List.length_cons] at balance
  simp only [poolIndexInvalid] at indexed
  have next : (r.used + 1) % 2 ^ 16 = r.used + 1 := Nat.mod_eq_of_lt (by omega)
  refine ⟨next, ?_⟩
  simp only [PoolRecord.claimed, next]
  split <;> omega

end

section
variable {tables : Nat → Table} {held : Nat → Nat}

/-- `alloc_with_margin` takes the first free block, or leaves everything alone. -/
theorem HeapOk.alloc (ok : HeapOk h tables held view) (found : h.records[k]? = some r)
    (signal margin : Nat) :
    (r.used + margin < r.capacity ∧ ∃ i rest head,
      ∃ free : (view k).chain .free = i :: rest,
      h.allocWithMargin k signal margin =
        (⟨newEvent h.mem (r.blockBase i) signal (k + 1), h.records.set k (r.claimed head)⟩,
          some (r.blockBase i)) ∧
      HeapOk ⟨newEvent h.mem (r.blockBase i) signal (k + 1), h.records.set k (r.claimed head)⟩
        tables (update held (r.blockBase i) 1)
        (update view k ((view k).pop .free free))) ∨
    (¬ r.used + margin < r.capacity ∧ h.allocWithMargin k signal margin = (h, none)) := by
  have pool := ok.pool found
  have bound := (List.getElem?_eq_some_iff.mp found).1
  have few := ok.few
  simp only [kMaxEventPools] at few
  rcases pool.claim margin with ⟨room, i, rest, tag, free, claimed⟩ | ⟨full, refused⟩
  · refine .inl ⟨room, i, rest, poolPackHead (r.loadNext h.mem i) tag, free, ?_, ?_⟩
    · rw [Heap.allocWithMargin, found]
      dsimp only
      rw [claimed]
      rfl
    · have below : i < r.capacity := pool.inside .free i (free ▸ List.mem_cons_self)
      have touches : Touches h.mem (newEvent h.mem (r.blockBase i) signal (k + 1)) held
          (update held (r.blockBase i) 1) (r.blockBase i) :=
        ⟨fun b => sameWord_newEvent, fun _ other => update_of_ne other ..⟩
      have like : r.Like (r.claimed (poolPackHead (r.loadNext h.mem i) tag)) := ⟨rfl, rfl, rfl⟩
      have freeHead : poolHeadIndex (poolPackHead (r.loadNext h.mem i) tag) =
          r.loadNext h.mem i := by
        rw [poolHeadIndex_pack]
        exact Nat.mod_eq_of_lt
          ((pool.next_le (free ▸ List.mem_cons_self)).trans_lt (by decide))
      refine ok.touched found below touches like (fun _ _ _ => rfl) ok.known ok.distinct
        (pool.claimed free like freeHead (pool.claimed_used free _).1 touches
          (update_self ..) ⟨?_, eventRefCtr_newEvent signal (k + 1)⟩)
      rw [eventPoolId_newEvent]
      exact Nat.mod_eq_of_lt (by omega)
  · refine .inr ⟨full, ?_⟩
    rw [Heap.allocWithMargin, found]
    dsimp only
    rw [refused]
    simp only [Heap.setRecord, set_found found]

end

end Coact.Pool
