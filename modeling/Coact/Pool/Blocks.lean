import Coact.Pool.Invariant

/-! What happens to one pool when one of its blocks is claimed, counted, returned,
put on a pending chain, or when a chain is spliced onto the free list. -/
namespace Coact.Pool
open Foundation Chains

/-- Only the header word at `a` and the references of `a` may differ. -/
structure Touches (m m' : Mem) (held held' : Nat → Nat) (a : Nat) : Prop where
  words : ∀ b, Apart a b → SameWord m m' b
  refs : ∀ b, b ≠ a → held' b = held b

section
variable {m m' : Mem} {entry : Nat → Option Pending} {held held' : Nat → Nat} {k i : Nat}
  {r r' : PoolRecord} {v : View}

/-- The same blocks at the same addresses. -/
structure PoolRecord.Like (r r' : PoolRecord) : Prop where
  base : r'.base = r.base
  blockSize : r'.blockSize = r.blockSize
  capacity : r'.capacity = r.capacity

theorem PoolRecord.Like.blockBase (like : r.Like r') (j : Nat) :
    r'.blockBase j = r.blockBase j := by
  rw [PoolRecord.blockBase, like.base, like.blockSize]
  rfl

theorem PoolRecord.Like.loadNext (like : r.Like r') (m : Mem) : r'.loadNext m = r.loadNext m := by
  funext j
  rw [PoolRecord.loadNext, like.blockBase]
  rfl

section
variable (touches : Touches m m' held held' (r.blockBase i))
include touches

theorem Touches.next
    (other : j ≠ i) : r.loadNext m' j = r.loadNext m j :=
  (touches.words _ (PoolRecord.apart_blocks other.symm)).load32

theorem Touches.refs_other
    (other : j ≠ i) : held' (r.blockBase j) = held (r.blockBase j) :=
  touches.refs _ fun same => other (PoolRecord.blockBase_inj same)

theorem Touches.header
    (other : j ≠ i) : eventPoolId m' (r.blockBase j) = eventPoolId m (r.blockBase j) ∧
      eventRefCtr m' (r.blockBase j) = eventRefCtr m (r.blockBase j) :=
  have same := touches.words _ (PoolRecord.apart_blocks other.symm)
  ⟨poolId_same same, refCtr_same same⟩

theorem Touches.linked {start stop : Nat}
    {blocks : List Nat} (linked : Linked (r.loadNext m) start blocks stop)
    (outside : i ∉ blocks) : Linked (r.loadNext m') start blocks stop :=
  linked.congr fun _ mem => touches.next (ne_of_mem_of_not_mem mem outside)

theorem Touches.represents {blocks : List Nat} (rep : Represents (r.loadNext m) p blocks)
    (outside : i ∉ blocks) : Represents (r.loadNext m') p blocks :=
  rep.congr fun _ mem => touches.next (ne_of_mem_of_not_mem mem outside)

end

theorem PoolOk.next_le (ok : PoolOk m entry held k r v) (free : i ∈ v.chain .free) :
    r.loadNext m i ≤ poolIndexInvalid := by
  rcases ok.free.next_mem free with inside | stop
  · exact ((ok.inside .free _ inside).trans r.indexed).le
  · exact Nat.le_of_eq stop

theorem PoolOk.claimed (ok : PoolOk m entry held k r v) {rest : List Nat}
    (head : v.chain .free = i :: rest) (like : r.Like r')
    (freeHead : poolHeadIndex r'.freeHead = r.loadNext m i) (used : r'.used = r.used + 1)
    (touches : Touches m m' held held' (r.blockBase i)) (one : held' (r.blockBase i) = 1)
    (header : eventPoolId m' (r.blockBase i) = k + 1 ∧ eventRefCtr m' (r.blockBase i) = 1) :
    PoolOk m' entry held' k r' (v.pop .free head) := by
  have free := ok.free
  rw [head] at free
  have once := List.nodup_cons.mp (head ▸ v.nodup .free)
  constructor
  case inside =>
    intro c j mem
    rw [like.capacity]
    exact ok.inside c j (mem_pop.mp mem).1
  case free =>
    rw [freeHead, like.loadNext]
    exact touches.linked free.2 once.1
  case pending =>
    intro b
    rw [like.loadNext]
    refine touches.represents (ok.pending b) fun mem => ?_
    cases v.apart mem (head ▸ List.mem_cons_self : i ∈ v.chain .free)
  case lent =>
    intro j below
    rw [like.capacity] at below
    rw [like.blockBase, loose_pop]
    by_cases here : j = i
    · subst here
      rw [one]
      simp
    · rw [touches.refs_other here, ← ok.lent j below]
      simp [here]
  case header =>
    intro j below lent
    rw [like.capacity] at below
    rw [like.blockBase] at lent ⊢
    by_cases here : j = i
    · subst here
      rw [one]
      exact header
    · rw [touches.refs_other here] at lent ⊢
      rw [(touches.header here).1, (touches.header here).2]
      exact ok.header j below lent
  case used =>
    have balance := ok.used
    rw [head, List.length_cons] at balance
    rw [chain_pop_same, like.capacity]
    omega

theorem PoolOk.recounted (ok : PoolOk m entry held k r v) (below : i < r.capacity)
    (lent : 0 < held (r.blockBase i)) (touches : Touches m m' held held' (r.blockBase i))
    (still : 0 < held' (r.blockBase i))
    (header : eventPoolId m' (r.blockBase i) = k + 1 ∧
      eventRefCtr m' (r.blockBase i) = held' (r.blockBase i)) : PoolOk m' entry held' k r v := by
  have loose := (ok.lent i below).mpr lent
  constructor
  case inside => exact ok.inside
  case free => exact touches.linked ok.free (loose .free)
  case pending => exact fun b => touches.represents (ok.pending b) (loose _)
  case lent =>
    intro j belowJ
    by_cases here : j = i
    · subst here
      exact iff_of_true loose still
    · rw [touches.refs_other here]
      exact ok.lent j belowJ
  case header =>
    intro j belowJ lentJ
    by_cases here : j = i
    · subst here
      exact header
    · rw [touches.refs_other here] at lentJ ⊢
      rw [(touches.header here).1, (touches.header here).2]
      exact ok.header j belowJ lentJ
  case used => exact ok.used

section
variable (ok : PoolOk m entry held k r v) (below : i < r.capacity)
  (touches : Touches m m' held held' (r.blockBase i)) (dead : held' (r.blockBase i) = 0)
include ok below touches dead

/-- What remains of the invariant when a block without references is put on a
chain. -/
theorem PoolOk.unlent (loose : v.Loose i) (c : Shelf) :
    (∀ c', ∀ j ∈ (v.push c i loose).chain c', j < r.capacity) ∧
    (∀ j < r.capacity, (v.push c i loose).Loose j ↔ 0 < held' (r.blockBase j)) ∧
    (∀ j < r.capacity, 0 < held' (r.blockBase j) →
      eventPoolId m' (r.blockBase j) = k + 1 ∧
        eventRefCtr m' (r.blockBase j) = held' (r.blockBase j)) := by
  refine ⟨fun c' j mem => ?_, fun j belowJ => ?_, fun j belowJ lent => ?_⟩
  · rcases mem_push.mp mem with ⟨-, rfl⟩ | old
    · exact below
    · exact ok.inside c' j old
  · rw [loose_push]
    by_cases here : j = i
    · subst here
      rw [dead]
      simp
    · rw [touches.refs_other here, ← ok.lent j belowJ]
      simp [here]
  · by_cases here : j = i
    · subst here
      rw [dead] at lent
      cases lent
    · rw [touches.refs_other here] at lent ⊢
      rw [(touches.header here).1, (touches.header here).2]
      exact ok.header j belowJ lent

theorem PoolOk.returned (loose : v.Loose i) (link : r.loadNext m' i = poolHeadIndex r.freeHead)
    (like : r.Like r') (freeHead : poolHeadIndex r'.freeHead = i) (used : r'.used + 1 = r.used) :
    PoolOk m' entry held' k r' (v.push .free i loose) := by
  obtain ⟨inside, lent, header⟩ := ok.unlent below touches dead loose .free
  constructor
  case inside =>
    simpa only [like.capacity] using inside
  case free =>
    rw [like.loadNext, freeHead]
    refine ⟨rfl, ?_⟩
    rw [link]
    exact touches.linked ok.free (loose .free)
  case pending =>
    intro b
    rw [like.loadNext]
    exact touches.represents (ok.pending b) (loose _)
  case lent =>
    simpa only [like.capacity, like.blockBase] using lent
  case header =>
    simpa only [like.capacity, like.blockBase] using header
  case used =>
    have balance := ok.used
    rw [chain_push_same, like.capacity, List.length_cons]
    omega

theorem PoolOk.shelved (loose : v.Loose i)
    (front : Represents (r.loadNext m') (entry' b) (i :: v.chain (.pending b)))
    (others : ∀ b', b' ≠ b → entry' b' = entry b') :
    PoolOk m' entry' held' k r (v.push (.pending b) i loose) := by
  obtain ⟨inside, lent, header⟩ := ok.unlent below touches dead loose (.pending b)
  have sameFree : (v.push (.pending b) i loose).chain .free = v.chain .free :=
    chain_push_other (by simp)
  constructor
  case inside => exact inside
  case free =>
    exact touches.linked ok.free (loose .free)
  case pending =>
    intro b'
    by_cases here : b' = b
    · subst here
      rw [chain_push_same]
      exact front
    · rw [chain_push_other (by simpa using here), others b' here]
      exact touches.represents (ok.pending b') (loose _)
  case lent => exact lent
  case header => exact header
  case used =>
    exact ok.used

end

theorem PoolOk.spliced (ok : PoolOk m entry held k r v)
    (found : entry b = some p) (filled : v.chain (.pending b) ≠ [])
    (touches : Touches m m' held held (r.blockBase p.last))
    (link : r.loadNext m' p.last = poolHeadIndex r.freeHead)
    (like : r.Like r') (freeHead : poolHeadIndex r'.freeHead = p.first)
    (used : r'.used + p.count = r.used) (emptied : Represents (r.loadNext m') (entry' b) [])
    (others : ∀ b', b' ≠ b → entry' b' = entry b') :
    PoolOk m' entry' held k r' (v.splice (.pending b) .free (by simp)) := by
  have rep := ok.pending b
  rw [found] at rep
  obtain ⟨count, empty | ⟨body, blocks, linked⟩⟩ := rep
  · exact (filled empty).elim
  have last : p.last ∈ v.chain (.pending b) := blocks ▸ List.mem_concat_self
  have elsewhere {c : Shelf} (other : c ≠ .pending b) : p.last ∉ v.chain c := fun mem =>
    other (v.apart mem last)
  have once : p.last ∉ body := by
    have nodup := v.nodup (.pending b)
    rw [blocks, List.nodup_append] at nodup
    exact fun mem => nodup.2.2 p.last mem p.last (List.mem_singleton_self _) rfl
  constructor
  case inside =>
    intro c j mem
    rw [like.capacity]
    rcases mem_splice.mp mem with ⟨-, inside⟩ | ⟨-, inside⟩
    · exact ok.inside _ j inside
    · exact ok.inside _ j inside
  case free =>
    rw [like.loadNext, freeHead, chain_splice_dst, blocks]
    refine Linked.append (Linked.append (touches.linked linked once) ⟨rfl, ?_⟩)
      (touches.linked ok.free (elsewhere (by simp)))
    exact link
  case pending =>
    intro b'
    rw [like.loadNext]
    by_cases here : b' = b
    · subst here
      rw [chain_splice_src]
      exact emptied
    · rw [chain_splice_other (by simpa using here) (by simp), others b' here]
      exact touches.represents (ok.pending b') (elsewhere (by simpa using here))
  case lent =>
    intro j below
    rw [like.capacity] at below
    rw [like.blockBase, loose_splice]
    exact ok.lent j below
  case header =>
    intro j below lent
    rw [like.capacity] at below
    rw [like.blockBase] at lent ⊢
    have other : j ≠ p.last := by
      rintro rfl
      exact (ok.lent _ below).mpr lent _ last
    rw [(touches.header other).1, (touches.header other).2]
    exact ok.header j below lent
  case used =>
    have balance := ok.used
    rw [chain_splice_dst, List.length_append, like.capacity]
    omega

end

end Coact.Pool
