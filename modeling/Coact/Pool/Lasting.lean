import Coact.Pool.Reclaim

/-! Releases, flushes and reference increments change neither the layout nor the
high watermark of any pool. -/
namespace Coact.Pool
open Foundation

/-- The part of a record that only an allocation changes. -/
def PoolRecord.lasting (r : PoolRecord) : Nat × Nat × Nat × Nat :=
  (r.base, r.blockSize, r.capacity, r.highWatermark)

def Heap.lasting (h : Heap) : List (Nat × Nat × Nat × Nat) := h.records.map PoolRecord.lasting

section
variable {h h' : Heap} {k e : Nat} {r r' : PoolRecord}

theorem lasting_set (found : h.records[k]? = some r) (same : r'.lasting = r.lasting) :
    Heap.lasting ⟨m, h.records.set k r'⟩ = h.lasting := by
  rw [Heap.lasting, List.map_set, same, set_found (by rw [List.getElem?_map, found]; rfl)]
  rfl

theorem lasting_found (same : h'.lasting = h.lasting) (found : h.records[k]? = some r) :
    ∃ r', h'.records[k]? = some r' ∧ r.Like r' ∧ r'.highWatermark = r.highWatermark := by
  have image : (h'.records.map PoolRecord.lasting)[k]? = some r.lasting := by
    rw [← Heap.lasting, same, Heap.lasting, List.getElem?_map, found]
    rfl
  rw [List.getElem?_map, Option.map_eq_some_iff] at image
  obtain ⟨r', found', equal⟩ := image
  simp only [PoolRecord.lasting, Prod.mk.injEq] at equal
  exact ⟨r', found', ⟨equal.1, equal.2.1, equal.2.2.1⟩, equal.2.2.2⟩

theorem lasting_length (same : h'.lasting = h.lasting) : h'.records.length = h.records.length := by
  simpa [Heap.lasting] using congrArg List.length same

theorem lasting_poolRecord {poolId : Nat} (found : h.poolRecord poolId = some r) :
    h.records[poolId - 1]? = some r := by
  rw [Heap.poolRecord] at found
  split at found
  · cases found
  · exact found

theorem lasting_eventRefInc (ran : h.eventRefInc e = .ok h') : h'.lasting = h.lasting := by
  rw [Heap.eventRefInc] at ran
  (repeat' split at ran) <;> cases ran <;> rfl

theorem lasting_reclaim (ran : h.reclaim e = .ok h') : h'.lasting = h.lasting := by
  rw [Heap.reclaim] at ran
  split at ran
  · cases ran
  · rename_i r found
    split at ran <;> cases ran
    exact lasting_set (lasting_poolRecord found) rfl

theorem lasting_eventGc (ran : h.eventGc e = .ok h') : h'.lasting = h.lasting := by
  simp only [Heap.eventGc] at ran
  (repeat' split at ran) <;> try cases ran
  · rfl
  · have kept := lasting_reclaim ran
    exact kept
  · rfl

theorem lasting_spliceLocked (h : Heap) (k first last count : Nat) :
    (spliceLocked h k first last count).lasting = h.lasting := by
  rw [spliceLocked]
  split
  · rfl
  · rename_i r found
    exact lasting_set found rfl

theorem lasting_capPending (h : Heap) (p : Pending) : (capPending h p).1.lasting = h.lasting := by
  rw [capPending]
  split
  · exact lasting_spliceLocked ..
  · rfl

theorem lasting_retire (maxPending : Nat) (t : Table) (h : Heap) (k e index : Nat) :
    (retire maxPending t h k e index).2.lasting = h.lasting := by
  rw [retire]
  split
  · exact lasting_spliceLocked ..
  · split
    · rfl
    · rename_i p there
      rw [lasting_capPending, Heap.lasting, (linkPending_records h e index p).1]
      rfl

theorem lasting_release
    (ran : release maxPending t h e = .ok (t', h')) : h'.lasting = h.lasting := by
  simp only [release] at ran
  (repeat' split at ran) <;> try cases ran
  · rfl
  · rfl
  · rfl
  · rename_i r found _ _ _
    have kept := lasting_retire maxPending t
      ⟨setRefCtr h.mem e (eventRefCtr h.mem e - 1), h.records⟩ (eventPoolId h.mem e - 1) e
      (r.indexOf e)
    rw [Except.ok.inj ran] at kept
    exact kept

theorem lasting_flush (t : Table) (h : Heap) : (flush t h).lasting = h.lasting := by
  induction t generalizing h with
  | nil => rfl
  | cons _ _ ih =>
    rw [flush, ih]
    split
    · exact lasting_spliceLocked ..
    · rfl

end

end Coact.Pool
