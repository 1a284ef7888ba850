import Mathlib.Algebra.Order.BigOperators.Group.List
import Mathlib.Algebra.Order.Group.Nat
import Mathlib.Data.Multiset.Count

/-! Totals of a weight over a table of entries that changes one entry at a
time. A counter kept elsewhere is related to such a total: every update of one
entry moves the total by exactly the difference of the two weights. -/
namespace Coact.Foundation
open Function

variable {α M : Type}

def tally [AddCommMonoid M] (w : α → M) (entries : List α) : M :=
  (entries.map w).sum

section
variable [AddCommMonoid M] {w : α → M}

@[simp] theorem tally_nil : tally w [] = 0 := rfl

@[simp] theorem tally_cons (entry : α) (rest : List α) :
    tally w (entry :: rest) = w entry + tally w rest := by
  simp [tally]

@[simp] theorem tally_append (first second : List α) :
    tally w (first ++ second) = tally w first + tally w second := by
  simp [tally]

variable {entries : List α}

theorem tally_zero (none : ∀ entry ∈ entries, w entry = 0) : tally w entries = 0 :=
  List.sum_eq_zero (List.forall_mem_map.mpr none)

/-- Replacing one entry exchanges its weight and nothing else. -/
theorem tally_set {before : α} (found : entries[i]? = some before) (after : α) :
    tally w (entries.set i after) + w before = tally w entries + w after := by
  induction entries generalizing i with
  | nil => simp at found
  | cons entry _ ih =>
    cases i with
    | zero =>
      obtain rfl : entry = before := by simpa using found
      simp only [List.set_cons_zero, tally_cons]
      rw [add_right_comm, add_comm (w after), add_right_comm]
    | succ =>
      have inner := ih (by simpa using found)
      simp [tally_cons, add_assoc, inner]

theorem tally_modify {before : α} (change : α → α) (found : entries[i]? = some before) :
    tally w (entries.modify i change) + w before =
      tally w entries + w (change before) := by
  have replaced : entries.modify i change = entries.set i (change before) := by
    apply List.ext_getElem?
    intro j
    rw [List.getElem?_modify, List.getElem?_set]
    by_cases same : i = j
    · subst same
      simp only [found, if_true, (List.getElem?_eq_some_iff.mp found).1, Option.map_eq_map,
        Option.map_some]
    · simp [same]
  rw [replaced]
  exact tally_set found _

end

section
variable {w : α → Nat}

variable {entries : List α}

theorem weight_le_tally {entry : α} (mem : entry ∈ entries) : w entry ≤ tally w entries :=
  List.single_le_sum (fun _ _ => Nat.zero_le _) _ (List.mem_map_of_mem mem)

theorem tally_ones (ones : ∀ entry ∈ entries, w entry = 1) : tally w entries = entries.length := by
  induction entries with
  | nil => rfl
  | cons first _ ih =>
    rw [tally_cons, ones first List.mem_cons_self, List.length_cons,
      ih fun entry mem => ones entry (List.mem_cons_of_mem _ mem), Nat.add_comm]

theorem length_filterMap {β : Type} (f : α → Option β) (entries : List α) :
    (entries.filterMap f).length = tally (fun entry => (f entry).toList.length) entries := by
  induction entries with
  | nil => rfl
  | cons first _ ih =>
    rw [tally_cons, ← ih, List.filterMap_cons]
    cases f first with
    | none => exact (Nat.zero_add _).symm
    | some => exact Nat.add_comm _ 1

/-- A total of at most one is carried by at most one index. -/
theorem tally_unique {i j : Nat} (bound : tally w entries ≤ 1)
    (atI : entries[i]? = some a) (atJ : entries[j]? = some b) (left : 0 < w a) (right : 0 < w b) :
    i = j := by
  induction entries generalizing i j with
  | nil => simp at atI
  | cons first rest ih =>
    simp only [tally_cons] at bound
    cases i with
    | zero =>
      cases j with
      | zero => rfl
      | succ j =>
        obtain rfl : first = a := by simpa using atI
        have := weight_le_tally (w := w) (List.mem_of_getElem? (by simpa using atJ : rest[j]? = some b))
        omega
    | succ i =>
      have inI : rest[i]? = some a := by simpa using atI
      cases j with
      | zero =>
        obtain rfl : first = b := by simpa using atJ
        have := weight_le_tally (w := w) (List.mem_of_getElem? inI)
        omega
      | succ j =>
        rw [ih (by omega) inI (by simpa using atJ)]

end

theorem countP_mono {s : Multiset α} [DecidablePred p] [DecidablePred q]
    (implies : ∀ x ∈ s, p x → q x) : s.countP p ≤ s.countP q := by
  induction s using Multiset.induction with
  | empty => exact le_rfl
  | cons x rest ih =>
    have tail := ih fun y mem => implies y (Multiset.mem_cons_of_mem mem)
    have head := implies x (Multiset.mem_cons_self x rest)
    rw [Multiset.countP_cons, Multiset.countP_cons]
    split
    · rename_i holds
      rw [if_pos (head holds)]
      omega
    · omega

theorem card_le_countP {s : Multiset α} {p q : α → Prop} [DecidablePred p] [DecidablePred q]
    (covers : ∀ x ∈ s, p x ∨ q x) : Multiset.card s ≤ s.countP p + s.countP q := by
  rw [Multiset.card_eq_countP_add_countP p]
  exact Nat.add_le_add_left (countP_mono fun x mem other => (covers x mem).resolve_left other) _

section
variable {w : α → Nat} {entries : List α} {i : Nat}

/-- The weight at one index, zero outside the table. -/
def weightAt (w : α → Nat) (entries : List α) (i : Nat) : Nat := entries[i]?.elim 0 w

theorem weightAt_found {entry : α} (found : entries[i]? = some entry) :
    weightAt w entries i = w entry := by
  rw [weightAt, found, Option.elim_some]

theorem weightAt_set {before after : α} (found : entries[i]? = some before) :
    weightAt w (entries.set i after) j =
      if j = i then w after else weightAt w entries j := by
  have bound := (List.getElem?_eq_some_iff.mp found).1
  by_cases same : j = i
  · subst same
    rw [weightAt, List.getElem?_set_self bound, if_pos rfl, Option.elim_some]
  · rw [weightAt, List.getElem?_set_ne (Ne.symm same), if_neg same, weightAt]

theorem weightAt_append {entry : α} (light : w entry = 0) :
    weightAt w (entries ++ [entry]) i = weightAt w entries i := by
  simp only [weightAt, List.getElem?_append]
  split
  · rfl
  · rename_i outside
    have past : entries[i]? = none := List.getElem?_eq_none (not_lt.mp outside)
    rw [past]
    cases i - entries.length with
    | zero => exact light
    | succ => rfl

end

section
variable {entries : List α} {i j : Nat} {before after entry : α}

section
variable (found : entries[i]? = some before)
include found

theorem getElem?_set_found (after : α) : (entries.set i after)[i]? = some after :=
  List.getElem?_set_self (List.getElem?_eq_some_iff.mp found).1

theorem set_found : entries.set i before = entries := by
  obtain ⟨bound, rfl⟩ := List.getElem?_eq_some_iff.mp found
  exact List.set_getElem_self bound

theorem getElem?_set_other (there : entries[j]? = some entry)
    (differ : entry ≠ before) : (entries.set i after)[j]? = some entry := by
  have apart : i ≠ j := by
    rintro rfl
    exact differ (Option.some.inj (there.symm.trans found))
  rw [List.getElem?_set_ne apart, there]

end

theorem getElem?_of_set (there : (entries.set i after)[j]? = some entry) :
    entry = after ∨ entries[j]? = some entry := by
  rw [List.getElem?_set] at there
  split at there
  · split at there
    · exact .inl (Option.some.inj there).symm
    · cases there
  · exact .inr there

theorem getElem?_set_cases (there : (entries.set i after)[j]? = some entry) :
    (j = i ∧ entry = after) ∨ (j ≠ i ∧ entries[j]? = some entry) := by
  rw [List.getElem?_set] at there
  split at there
  · rename_i same
    split at there
    · exact .inl ⟨same.symm, (Option.some.inj there).symm⟩
    · cases there
  · rename_i apart
    exact .inr ⟨Ne.symm apart, there⟩

theorem getElem?_append_found (last : α) (found : entries[i]? = some entry) :
    (entries ++ [last])[i]? = some entry := by
  rw [List.getElem?_append_left (List.getElem?_eq_some_iff.mp found).1, found]

theorem getElem?_of_append {last : α} (there : (entries ++ [last])[i]? = some entry) :
    (entry = last ∧ i = entries.length) ∨ entries[i]? = some entry := by
  rw [List.getElem?_append] at there
  split at there
  · exact .inr there
  · have bound := (List.getElem?_eq_some_iff.mp there).1
    rw [List.length_singleton] at bound
    exact .inl ⟨List.mem_singleton.mp (List.mem_of_getElem? there), by omega⟩

end

section
variable {β : Type} {read : List α → Nat → Option β} {f : Nat → α → Option β} {entries : List α}
  {i : Nat} {before after : α}

section
variable (reads : ∀ entries i, read entries i = entries[i]?.bind (f i))
include reads

/-- `read` reads a table entry by entry: what it reads changes with the entry. -/
theorem read_set (found : entries[i]? = some before) :
    read (entries.set i after) = update (read entries) i (f i after) := by
  funext j
  by_cases same : j = i
  · rw [same, update_self, reads, getElem?_set_found found, Option.bind_some]
  · rw [update_of_ne same, reads, reads, List.getElem?_set_ne (Ne.symm same)]

theorem read_kept (found : entries[i]? = some before) (same : f i after = f i before) :
    read (entries.set i after) = read entries := by
  have here : read entries i = f i before := by rw [reads, found, Option.bind_some]
  rw [read_set reads found, same, ← here, update_eq_self]

theorem read_beyond (past : entries.length ≤ i) : read entries i = none := by
  rw [reads, List.getElem?_eq_none past, Option.bind_none]

theorem read_append (entries : List α) (last : α) :
    read (entries ++ [last]) =
      update (read entries) entries.length (f entries.length last) := by
  funext j
  rcases Nat.lt_trichotomy j entries.length with below | rfl | past
  · rw [update_of_ne below.ne, reads, reads, List.getElem?_append_left below]
  · rw [update_self, reads, List.getElem?_concat_length, Option.bind_some]
  · have beyond : (entries ++ [last]).length ≤ j := by
      rw [List.length_append]
      exact past
    rw [update_of_ne past.ne', read_beyond reads past.le,
      read_beyond reads beyond]

end

end

end Coact.Foundation
