import Coact.Pool.Batcher

/-! The table of a batcher has at most one entry for a pool, and `pending_of` and
the updates of an entry keep the entries of the other pools. -/
namespace Coact.Pool
open Foundation

variable {t t' : Table} {k j maxPending : Nat} {p p' : Pending}

theorem Table.entry_mem (found : t.entry k = some p) : p ∈ t ∧ p.record = k :=
  ⟨List.mem_of_find?_eq_some found, by simpa using List.find?_some found⟩

theorem Table.entry_cons (p : Pending) (t : Table) (k : Nat) :
    Table.entry (p :: t) k = if p.record = k then some p else t.entry k := by
  rw [Table.entry, List.find?_cons]
  by_cases here : p.record = k
  · simp [here]
  · simp [here, Table.entry]

theorem Table.entry_eq_none (absent : k ∉ t.map Pending.record) : t.entry k = none := by
  refine List.find?_eq_none.mpr fun p mem => ?_
  have other : p.record ≠ k := fun same => absent (same ▸ List.mem_map_of_mem mem)
  simpa using other

theorem Table.entry_set (found : t[j]? = some p) (same : p'.record = p.record)
    (distinct : (t.map Pending.record).Nodup) (k : Nat) :
    Table.entry (t.set j p') k = if k = p.record then some p' else t.entry k := by
  induction t generalizing j with
  | nil => simp at found
  | cons q rest ih =>
    rw [List.map_cons, List.nodup_cons] at distinct
    cases j with
    | zero =>
      obtain rfl : q = p := by simpa using found
      rw [List.set_cons_zero, Table.entry_cons, Table.entry_cons, same]
      by_cases here : k = q.record
      · simp [here]
      · simp [here, Ne.symm here]
    | succ j =>
      have inner : rest[j]? = some p := by simpa using found
      have differ : q.record ≠ p.record := fun eq =>
        distinct.1 (eq ▸ List.mem_map_of_mem (List.mem_of_getElem? inner))
      rw [List.set_cons_succ, Table.entry_cons, Table.entry_cons, ih inner distinct.2]
      by_cases here : k = p.record
      · subst here
        rw [if_neg differ, if_pos rfl, if_pos rfl]
      · rw [if_neg here, if_neg here]

theorem pendingOf_some (taken : pendingOf maxPending t k = some (t', j))
    (distinct : (t.map Pending.record).Nodup) :
    ∃ p, t'[j]? = some p ∧ p.record = k ∧
      (t.entry k = some p ∨ (t.entry k = none ∧ p.count = 0)) ∧
      (∀ k', k' ≠ k → Table.entry t' k' = t.entry k') ∧ (t'.map Pending.record).Nodup ∧
      ∀ q ∈ t', q ∈ t ∨ q.record = k := by
  rw [pendingOf] at taken
  split at taken
  · rename_i i position
    cases taken
    obtain ⟨bound, here, first⟩ := List.findIdx?_eq_some_iff_getElem.mp position
    have record : t[j].record = k := by simpa using here
    refine ⟨t[j], List.getElem?_eq_getElem bound, record, .inl ?_, fun _ _ => rfl, distinct,
      fun q mem => .inl mem⟩
    exact List.find?_eq_some_iff_getElem.mpr
      ⟨by simpa using record, j, bound, rfl, fun i before => by simpa using first i before⟩
  · rename_i position
    have absent : k ∉ t.map Pending.record := by
      intro mem
      obtain ⟨p, inside, record⟩ := List.mem_map.mp mem
      have other := List.findIdx?_eq_none_iff.mp position p inside
      simp [record] at other
    split at taken <;> cases taken
    refine ⟨⟨k, 0, 0, 0⟩, by simp, rfl, .inr ⟨Table.entry_eq_none absent, rfl⟩,
      fun k' other => ?_, ?_, fun q mem => ?_⟩
    · simp [Ne.symm other, Table.entry]
    · rw [List.map_append, List.nodup_append]
      refine ⟨distinct, List.nodup_singleton _, ?_⟩
      rintro a inside c last rfl
      obtain rfl : a = k := List.mem_singleton.mp last
      exact absent inside
    · rcases List.mem_append.mp mem with inside | last
      · exact .inl inside
      · exact .inr (by rw [List.mem_singleton.mp last])

end Coact.Pool
