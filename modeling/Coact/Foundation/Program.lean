import Mathlib.Init

/-! A program over a shared state, given by its single accesses: each access leads
to a further program point or returns a result. -/
namespace Coact.Foundation

variable {S P R : Type}

/-- Run alone from program point `p`, the program returns with the state and the
result in `out`. -/
inductive Finishes (step : S → P → S × (P ⊕ R)) : S → P → S × R → Prop where
  | last {q p out} : step q p = (out.1, .inr out.2) → Finishes step q p out
  | next {q p q₁ p₁ out} : step q p = (q₁, .inl p₁) → Finishes step q₁ p₁ out →
      Finishes step q p out

end Coact.Foundation
