import Mathlib.Data.List.Induction
import Coact.Foundation.Transition

/-! Histories of a deterministic machine, read from their end: the state after a list
of inputs, what has happened since the latest input of a kind, streaks, and marks that
a growing quantity leaves when it passes a threshold. -/
namespace Coact.Foundation

variable {S I V : Type}

def after (step : I → S → S) (start : S) (past : List I) : S :=
  past.foldl (fun s i => step i s) start

@[simp] theorem after_snoc (step : I → S → S) (start : S) (past : List I) (i : I) :
    after step start (past ++ [i]) = step i (after step start past) := by
  simp [after]

/-- Every input is `ok` in the state it meets. -/
def Along (ok : I → S → Prop) (step : I → S → S) : S → List I → Prop
  | _, [] => True
  | s, i :: rest => ok i s ∧ Along ok step (step i s) rest

instance (ok : I → S → Prop) [∀ i s, Decidable (ok i s)] (step : I → S → S) :
    ∀ (s : S) (past : List I), Decidable (Along ok step s past)
  | _, [] => isTrue trivial
  | s, i :: rest =>
    have := instDecidableAlong ok step (step i s) rest
    inferInstanceAs (Decidable (_ ∧ _))

theorem along_snoc {ok : I → S → Prop} {step : I → S → S} {past : List I} :
    Along ok step s (past ++ [i]) ↔ Along ok step s past ∧ ok i (after step s past) := by
  induction past generalizing s with
  | nil => exact and_comm
  | cons _ _ ih =>
    rw [List.cons_append, Along, Along, ih, and_assoc]
    rfl

/-- The input `e` at the end of `before` is the latest marked one of `past`; `window`
has come since. -/
structure Since (mark : List I → I → Prop) (past before : List I) (e : I) (window : List I) :
    Prop where
  split : past = before ++ e :: window
  marked : mark before e
  unmarked : ∀ w x rest, window = w ++ x :: rest → ¬ mark (before ++ e :: w) x

/-- `i` is the step into value `v` of an observation of the history. -/
def Enters (level : List I → V) (v : V) (past : List I) (i : I) : Prop :=
  level past ≠ v ∧ level (past ++ [i]) = v

section
variable {mark : List I → I → Prop} {past before window : List I} {e : I}

theorem Since.fresh (marked : mark past i) : Since mark (past ++ [i]) past i [] where
  split := rfl
  marked := marked
  unmarked w x rest never := by simp at never

theorem Since.snoc (since : Since mark past before e window) (quiet : ¬ mark past i) :
    Since mark (past ++ [i]) before e (window ++ [i]) where
  split := by rw [since.split, List.append_assoc, List.cons_append]
  marked := since.marked
  unmarked w x rest split := by
    rcases split_snoc split with ⟨-, rfl, rfl⟩ | ⟨init, -, shorter⟩
    · rw [← since.split]
      exact quiet
    · exact since.unmarked w x init shorter

theorem Since.append (since : Since mark past before e window) (rest : List I) :
    before ++ [e] ++ (window ++ rest) = past ++ rest := by
  rw [since.split]
  simp

/-- The window since the latest marked input, or the whole history. -/
def SinceStart (mark : List I → I → Prop) (past window : List I) : Prop :=
  (∃ before e, Since mark past before e window) ∨
    window = past ∧ ∀ w x rest, past = w ++ x :: rest → ¬ mark w x

theorem SinceStart.snoc (since : SinceStart mark past window) (quiet : ¬ mark past i) :
    SinceStart mark (past ++ [i]) (window ++ [i]) := by
  rcases since with ⟨before, e, since⟩ | ⟨rfl, unmarked⟩
  · exact .inl ⟨before, e, since.snoc quiet⟩
  · refine .inr ⟨rfl, fun w x rest split => ?_⟩
    rcases split_snoc split with ⟨-, rfl, rfl⟩ | ⟨init, -, shorter⟩
    · exact quiet
    · exact unmarked w x init shorter

end

section
variable {hit reset : I → Bool} {window : List I} {i : I}

/-- How often `hit` occurred after the last `reset`. -/
def streak (hit reset : I → Bool) (window : List I) : Nat :=
  (window.reverse.takeWhile fun i => !reset i).countP hit

@[simp] theorem streak_nil : streak hit reset [] = 0 := rfl

theorem streak_reset (resets : reset i = true) : streak hit reset (window ++ [i]) = 0 := by
  simp [streak, resets]

theorem streak_snoc (keeps : reset i = false) :
    streak hit reset (window ++ [i]) = streak hit reset window + if hit i then 1 else 0 := by
  simp [streak, keeps, List.countP_cons]

theorem exists_of_streak_pos (positive : 0 < streak hit reset window) : ∃ i ∈ window, hit i := by
  obtain ⟨i, found, hits⟩ := List.countP_pos_iff.mp positive
  exact ⟨i, List.mem_reverse.mp ((List.takeWhile_sublist _).subset found), hits⟩

end

section
variable {mark : I → Bool} {n stage : Nat} {log : List I}

/-- At most one mark, and none while the quantity is below the threshold. -/
structure Passed (mark : I → Bool) (n stage : Nat) (log : List I) : Prop where
  once : log.countP mark ≤ 1
  below : stage < n → log.countP mark = 0

theorem Passed.nil : Passed mark n stage [] := ⟨Nat.zero_le 1, fun _ => rfl⟩

/-- Only the step across the threshold is marked. -/
theorem Passed.snoc (passed : Passed mark n stage log) (grows : stage ≤ stage')
    (crosses : mark i = true → stage < n ∧ n ≤ stage') : Passed mark n stage' (log ++ [i]) := by
  have counted : (log ++ [i]).countP mark = log.countP mark + if mark i then 1 else 0 := by
    simp [List.countP_append, List.countP_cons]
  by_cases marked : mark i = true
  · obtain ⟨before, after⟩ := crosses marked
    rw [if_pos marked, passed.below before] at counted
    exact ⟨Nat.le_of_eq counted, fun never => (Nat.not_lt_of_ge after never).elim⟩
  · rw [if_neg marked, Nat.add_zero] at counted
    refine ⟨counted ▸ passed.once, fun short => ?_⟩
    rw [counted]
    exact passed.below (Nat.lt_of_le_of_lt grows short)

end

end Coact.Foundation
