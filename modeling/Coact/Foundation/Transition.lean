import Mathlib.Data.List.Infix
import Mathlib.Logic.Relation

/-! Runs of a partial, labelled step function, and the invariant rule. `allowed`
restricts which labels a run may take in which states. -/
namespace Coact.Foundation

variable {S L E : Type} {step : L → S → Except E S} {allowed : L → S → Prop}

def Steps (step : L → S → Except E S) (allowed : L → S → Prop) (s t : S) : Prop :=
  ∃ label, allowed label s ∧ step label s = .ok t

/-- `t` is reached from `s` by a run whose every step is allowed. -/
def Reaches (step : L → S → Except E S) (allowed : L → S → Prop) : S → S → Prop :=
  Relation.ReflTransGen (Steps step allowed)

/-- Every step is allowed. -/
def Always (_ : L) (_ : S) : Prop := True

theorem map_ok {ε α β : Type} {x : Except ε α} {f : α → β} {b : β} (done : x.map f = .ok b) :
    ∃ a, x = .ok a ∧ f a = b := by
  cases x with
  | ok a => exact ⟨a, rfl, Except.ok.inj done⟩
  | error => cases done

theorem map_error {ε α β : Type} {x : Except ε α} {f : α → β} {e : ε}
    (failed : x.map f = .error e) : x = .error e := by
  cases x with
  | ok => cases failed
  | error => cases failed; rfl

/-- A history that grows by one entry: what ends in the new entry, and what did before. -/
theorem snoc_prefix {α : Type} {before log : List α} {x e : α}
    (part : before ++ [x] <+: log ++ [e]) : (before = log ∧ x = e) ∨ before ++ [x] <+: log := by
  rcases List.prefix_concat_iff.mp part with whole | shorter
  · obtain ⟨same, last⟩ := List.append_inj' whole rfl
    exact .inl ⟨same, List.singleton_inj.mp last⟩
  · exact .inr shorter

/-- A position in a history that has grown by one entry. -/
theorem split_snoc {α : Type} {log before after : List α} {x e : α}
    (split : log ++ [e] = before ++ x :: after) :
    (after = [] ∧ before = log ∧ x = e) ∨
      ∃ rest, after = rest ++ [e] ∧ log = before ++ x :: rest := by
  rcases List.eq_nil_or_concat after with rfl | ⟨rest, last, rfl⟩
  · obtain ⟨same, last⟩ := List.append_inj' split rfl
    exact .inl ⟨rfl, same.symm, (List.singleton_inj.mp last).symm⟩
  · rw [List.concat_eq_append, ← List.cons_append, ← List.append_assoc] at split
    obtain ⟨same, ended⟩ := List.append_inj' split rfl
    obtain rfl : e = last := List.singleton_inj.mp ended
    exact .inr ⟨rest, List.concat_eq_append, same⟩

variable {s : S}

theorem Reaches.invariant {P : S → Prop} (run : Reaches step allowed s t) (start : P s)
    (next : ∀ label s t, P s → allowed label s → step label s = .ok t → P t) : P t := by
  induction run with
  | refl => exact start
  | tail _ last ih =>
    obtain ⟨label, permitted, ran⟩ := last
    exact next label _ _ ih permitted ran

/-- Replay a schedule. -/
def replay (step : L → S → Except E S) : List L → S → Option S
  | [], s => some s
  | label :: rest, s =>
    match step label s with
    | .ok t => replay step rest t
    | .error _ => none

variable {schedule : List L}

theorem reaches_replay (done : replay step schedule s = some t) : Reaches step Always s t := by
  induction schedule generalizing s with
  | nil =>
    cases done
    exact .refl
  | cons label rest ih =>
    simp only [replay] at done
    split at done
    · rename_i u ran
      exact .head ⟨label, trivial, ran⟩ (ih done)
    · cases done

/-- The state a schedule ends in, or its start if it cannot be completed. -/
def outcome (step : L → S → Except E S) (schedule : List L) (s : S) : S :=
  (replay step schedule s).getD s

theorem replay_outcome (done : (replay step schedule s).isSome) :
    replay step schedule s = some (outcome step schedule s) := by
  obtain ⟨t, ended⟩ := Option.isSome_iff_exists.mp done
  rw [outcome, ended]
  rfl

theorem reaches_outcome (done : (replay step schedule s).isSome) :
    Reaches step Always s (outcome step schedule s) := reaches_replay (replay_outcome done)

/-- The schedule can be completed and `test` holds before every step of it. -/
def passes (test : L → S → Bool) (step : L → S → Except E S) : List L → S → Bool
  | [], _ => true
  | label :: rest, s =>
    match step label s with
    | .ok t => test label s && passes test step rest t
    | .error _ => false

theorem replay_passes {test : L → S → Bool}
    (sound : ∀ label s, test label s = true → allowed label s)
    (done : passes test step schedule s = true) :
    ∃ t, replay step schedule s = some t ∧ Reaches step allowed s t := by
  induction schedule generalizing s with
  | nil => exact ⟨s, rfl, .refl⟩
  | cons label rest ih =>
    simp only [passes] at done
    split at done
    · rename_i u ran
      rw [Bool.and_eq_true] at done
      obtain ⟨t, ended, run⟩ := ih done.2
      refine ⟨t, ?_, .head ⟨label, sound label s done.1, ran⟩ run⟩
      simp only [replay, ran, ended]
    · cases done

theorem reaches_passes {test : L → S → Bool}
    (sound : ∀ label s, test label s = true → allowed label s)
    (done : passes test step schedule s = true) :
    Reaches step allowed s (outcome step schedule s) := by
  obtain ⟨t, ended, run⟩ := replay_passes sound done
  rw [outcome, ended]
  exact run

theorem reaches_decided [∀ label s, Decidable (allowed label s)]
    (done : passes (fun label s => decide (allowed label s)) step schedule s = true) :
    Reaches step allowed s (outcome step schedule s) :=
  reaches_passes (fun _ _ => of_decide_eq_true) done

end Coact.Foundation
