import Coact.Foundation.Transition

/-! Machines that answer a request at a time, and refinement between them. The
machine below may fault; the one above is total. When every request keeps the
relation between their states and gets the same answer, so does every sequence of
requests. Machines with more than one possible step are compared run by run. -/
namespace Coact.Foundation

variable {S T I O E : Type}

/-- The state after a sequence of requests, and the answers. -/
def responses (step : S → I → Except E (S × O)) : S → List I → Except E (S × List O)
  | s, [] => .ok (s, [])
  | s, input :: rest =>
    match step s input with
    | .ok (t, output) => (responses step t rest).map fun (u, outputs) => (u, output :: outputs)
    | .error e => .error e

def answers (spec : T → I → T × O) : T → List I → T × List O
  | t, [] => (t, [])
  | t, input :: rest =>
    ((answers spec (spec t input).1 rest).1,
      (spec t input).2 :: (answers spec (spec t input).1 rest).2)

section
variable {step : S → I → Except E (S × O)} {s t : S} {inputs : List I} {outputs : List O}

theorem responses_cons {input : I} (stepped : step s input = .ok (t, output)) :
    responses step s (input :: inputs) =
      (responses step t inputs).map fun (u, outputs) => (u, output :: outputs) := by
  simp only [responses, stepped]

variable {P : List (I × O) → S → Prop}

section
variable (next : ∀ past s t input output, P past s → step s input = .ok (t, output) → P (past ++ [(input, output)]) t)
include next

theorem responses_invariant_after {past : List (I × O)}
    (start : P past s) (ran : responses step s inputs = .ok (t, outputs)) :
    P (past ++ inputs.zip outputs) t := by
  induction inputs generalizing past s outputs with
  | nil =>
    cases ran
    rwa [List.zip_nil_left, List.append_nil]
  | cons input rest ih =>
    rw [responses] at ran
    split at ran
    · rename_i u output stepped
      obtain ⟨⟨t', later⟩, ran', same⟩ := map_ok ran
      cases same
      rw [List.zip_cons_cons, List.append_cons]
      exact ih (next past s u input output start stepped) ran'
    · cases ran

/-- What every exchange preserves, with the exchanges so far, holds after a run. -/
theorem responses_invariant (start : P [] s) (ran : responses step s inputs = .ok (t, outputs)) :
    P (inputs.zip outputs) t := responses_invariant_after next start ran

end

theorem responses_length (ran : responses step s inputs = .ok (t, outputs)) :
    outputs.length = inputs.length := by
  induction inputs generalizing s outputs with
  | nil =>
    cases ran
    rfl
  | cons _ _ ih =>
    rw [responses] at ran
    split at ran
    · obtain ⟨_, ran', same⟩ := map_ok ran
      cases same
      rw [List.length_cons, List.length_cons, ih ran']
    · cases ran

end

section
variable {R : S → T → Prop} {step : S → I → Except E (S × O)} {spec : T → I → T × O}

theorem responses_total (spec : T → I → T × O) (t : T) (inputs : List I) :
    responses (fun t input => (.ok (spec t input) : Except E (T × O))) t inputs =
      .ok (answers spec t inputs) := by
  induction inputs generalizing t with
  | nil => rfl
  | cons _ _ ih =>
    rw [responses_cons rfl, ih]
    rfl

/-- The same rule for the machine above. -/
theorem answers_invariant {P : List (I × O) → T → Prop}
    (next : ∀ past t input, P past t → P (past ++ [(input, (spec t input).2)]) (spec t input).1)
    (start : P [] t) (inputs : List I) :
    P (inputs.zip (answers spec t inputs).2) (answers spec t inputs).1 := by
  have ran := responses_total (E := Empty) spec t inputs
  refine responses_invariant ?_ start ran
  intro past t u input output held stepped
  have kept := next past t input held
  rw [Except.ok.inj stepped] at kept
  exact kept

/-- One request: the answers agree, and the relation is kept. -/
def Simulates (R : S → T → Prop) (step : S → I → Except E (S × O)) (spec : T → I → T × O) : Prop :=
  ∀ s t input, R s t → ∃ s', step s input = .ok (s', (spec t input).2) ∧ R s' (spec t input).1

theorem Simulates.run (sim : Simulates R step spec) (related : R s t)
    (inputs : List I) : ∃ s', responses step s inputs = .ok (s', (answers spec t inputs).2) ∧
      R s' (answers spec t inputs).1 := by
  induction inputs generalizing s t with
  | nil => exact ⟨s, rfl, related⟩
  | cons input _ ih =>
    obtain ⟨u, stepped, related'⟩ := sim s t input related
    obtain ⟨s', ran, last⟩ := ih related'
    refine ⟨s', ?_, last⟩
    rw [responses_cons stepped, ran]
    rfl

end

section
variable {R : S → T → Prop} {step : S → I → Except E (S × O)}

/-- Two machines that may fault give the same answer and stay related, or fault alike. -/
inductive Alike (R : S → T → Prop) : Except E (S × O) → Except E (T × O) → Prop where
  | ok {s : S} {t : T} {output : O} : R s t → Alike R (.ok (s, output)) (.ok (t, output))
  | error {e : E} : Alike R (.error e) (.error e)

/-- If every request keeps the two machines in step, so does every sequence of requests. -/
theorem Alike.run (next : ∀ s t input, R s t → Alike R (step s input) (step' t input))
    (related : R s t) (inputs : List I) :
    Alike R (responses step s inputs) (responses step' t inputs) := by
  induction inputs generalizing s t with
  | nil => exact .ok related
  | cons input rest ih =>
    have first := next s t input related
    simp only [responses]
    generalize step s input = left at first
    generalize step' t input = right at first
    cases first with
    | error => exact .error
    | ok related' =>
      have later := ih related'
      dsimp only
      generalize responses step _ rest = left at later
      generalize responses step' _ rest = right at later
      cases later with
      | error => exact .error
      | ok last => exact .ok last

end

section
variable {L : Type} {step : L → S → Except E S} {allowed : L → S → Prop}

/-- A run and the labels it takes. -/
inductive Run (step : L → S → Except E S) (allowed : L → S → Prop) : List L → S → S → Prop where
  | nil (s : S) : Run step allowed [] s s
  | cons {label : L} {labels : List L} {s t u : S} : allowed label s → step label s = .ok t →
      Run step allowed labels t u → Run step allowed (label :: labels) s u

theorem Run.one (permitted : allowed label s)
    (stepped : step label s = .ok t) : Run step allowed [label] s t :=
  .cons permitted stepped (.nil t)

theorem Run.append (first : Run step allowed labels s t)
    (later : Run step allowed more t u) : Run step allowed (labels ++ more) s u := by
  induction first with
  | nil => exact later
  | cons permitted stepped _ ih => exact .cons permitted stepped (ih later)

theorem run_passes {test : L → S → Bool}
    (sound : ∀ label s, test label s = true → allowed label s) {schedule : List L}
    (done : passes test step schedule s = true) :
    Run step allowed schedule s (outcome step schedule s) := by
  induction schedule generalizing s with
  | nil => exact .nil s
  | cons label rest ih =>
    simp only [passes] at done
    split at done
    · rename_i t stepped
      rw [Bool.and_eq_true] at done
      have ended : outcome step (label :: rest) s = outcome step rest t := by
        obtain ⟨u, ended, _⟩ := replay_passes sound done.2
        simp [outcome, replay, stepped, ended]
      rw [ended]
      exact .cons (sound label s done.1) stepped (ih done.2)
    · cases done

/-- When each step of one machine is matched by a run of the other, so is each run. `Q`
relates the labels of the two sides. -/
theorem Run.matched {R : S → T → Prop} {Q : List L → List L → Prop} (empty : Q [] [])
    (append : ∀ {a b c d}, Q a b → Q c d → Q (a ++ c) (b ++ d))
    (next : ∀ {label s s' t}, R s t → allowed label s → step label s = .ok s' →
      ∃ labels t', Q [label] labels ∧ Run step' allowed' labels t t' ∧ R s' t')
    (ran : Run step allowed labels s s') (related : R s t) :
    ∃ labels' t', Q labels labels' ∧ Run step' allowed' labels' t t' ∧ R s' t' := by
  induction ran generalizing t with
  | nil => exact ⟨[], t, empty, .nil t, related⟩
  | cons permitted stepped _ ih =>
    obtain ⟨first, u, same, ran, related'⟩ := next related permitted stepped
    obtain ⟨later, t', same', ran', last⟩ := ih related'
    exact ⟨first ++ later, t', append same same', ran.append ran', last⟩

end

end Coact.Foundation
