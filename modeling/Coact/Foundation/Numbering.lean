import Coact.Foundation.Tally

/-! Numbers handed out by a counter. Each party holds at most one number; the
numbers given out so far are 1 to `count`, each to one party. -/
namespace Coact.Foundation

/-- One if a party still waits for its number. -/
def waiting (number : Option Nat) : Nat := if number.isNone then 1 else 0

structure Numbered (numbers : List (Option Nat)) (count : Nat) : Prop where
  range : ∀ i q : Nat, numbers[i]? = some (some q) → 0 < q ∧ q ≤ count
  taken : ∀ q, 0 < q → q ≤ count → ∃ i : Nat, numbers[i]? = some (some q)
  unique : ∀ i j q : Nat, numbers[i]? = some (some q) → numbers[j]? = some (some q) → i = j
  total : count + tally waiting numbers = numbers.length

variable {count : Nat}

theorem Numbered.nil : Numbered [] 0 where
  range _ _ never := by simp at never
  taken q positive never := by omega
  unique _ _ _ never := by simp at never
  total := rfl

theorem Numbered.enter (inv : Numbered numbers count) : Numbered (numbers ++ [none]) count where
  range i q there := by
    rcases getElem?_of_append there with ⟨never, -⟩ | before
    · cases never
    · exact inv.range i q before
  taken q positive below := by
    obtain ⟨i, there⟩ := inv.taken q positive below
    exact ⟨i, getElem?_append_found none there⟩
  unique i j q first second := by
    rcases getElem?_of_append first with ⟨never, -⟩ | before
    · cases never
    · rcases getElem?_of_append second with ⟨never, -⟩ | before'
      · cases never
      · exact inv.unique i j q before before'
  total := by
    rw [tally_append, List.length_append, ← Nat.add_assoc, inv.total]
    rfl

/-- The next number goes to a party that has none. -/
theorem Numbered.assign (inv : Numbered numbers count) (waits : numbers[i]? = some none) :
    Numbered (numbers.set i (some (count + 1))) (count + 1) where
  range j q there := by
    rcases getElem?_of_set there with new | before
    · cases new
      exact ⟨Nat.succ_pos count, le_rfl⟩
    · obtain ⟨positive, below⟩ := inv.range j q before
      exact ⟨positive, Nat.le_succ_of_le below⟩
  taken q positive below := by
    rcases Nat.lt_or_eq_of_le below with earlier | rfl
    · obtain ⟨j, there⟩ := inv.taken q positive (Nat.le_of_lt_succ earlier)
      exact ⟨j, getElem?_set_other waits there (by simp)⟩
    · exact ⟨i, getElem?_set_found waits _⟩
  unique j k q first second := by
    have fresh (l : Nat) : numbers[l]? ≠ some (some (count + 1)) := fun never =>
      Nat.not_succ_le_self count (inv.range l _ never).2
    rcases getElem?_set_cases first with ⟨rfl, new⟩ | ⟨_, before⟩
    · rcases getElem?_set_cases second with ⟨rfl, -⟩ | ⟨_, before'⟩
      · rfl
      · cases new
        exact (fresh k before').elim
    · rcases getElem?_set_cases second with ⟨rfl, new⟩ | ⟨_, before'⟩
      · cases new
        exact (fresh j before).elim
      · exact inv.unique j k q before before'
  total := by
    have total := inv.total
    have exchanged : tally waiting (numbers.set i (some (count + 1))) + 1 = tally waiting numbers + 0 :=
      tally_set waits _
    rw [List.length_set]
    omega

end Coact.Foundation
