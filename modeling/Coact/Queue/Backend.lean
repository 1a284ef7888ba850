import Mathlib.Data.Multiset.AddSub

/-! A queue backend as the atomic accesses of its operations, and what the
staging layer relies on. Each operation is a small program over the shared
queue: a start point and one access per step. `Lawful` states that only the
last access of a successful push or pop changes the published contents, that a
`has_ready` scan cannot overlook a payload published before it began, and that
an undisturbed `size` counts everything. -/
namespace Coact
open Function

structure Backend (α : Type) where
  Q : Type
  Push : Type
  Ready : Type
  Size : Type
  Front : Type
  Pop : Type
  empty : (capacity : Nat) → 0 < capacity → Q
  tryPush : Push
  pushStep : α → Q → Push → Q × (Push ⊕ Bool)
  hasReady : Ready
  readyStep : Q → Ready → Ready ⊕ Bool
  size : Size
  sizeStep : Q → Size → Size ⊕ Nat
  front : Front
  frontStep : Q → Front → Front ⊕ Option α
  tryPop : Pop
  popStep : Q → Pop → Q × (Pop ⊕ Option α)

/-- The pushes under way in one queue, by producer. -/
abbrev Backend.Pushes {α : Type} (B : Backend α) := Nat → Option (α × B.Push)

structure Backend.Lawful {α : Type} (B : Backend α) where
  Inv : B.Q → B.Pushes → Option B.Pop → Prop
  resident : B.Q → Multiset α
  sees : B.Q → B.Ready → Prop
  counts : B.Q → B.Size → Nat
  inv_empty : ∀ n (pos : 0 < n), Inv (B.empty n pos) (fun _ => none) none
  resident_empty : ∀ n (pos : 0 < n), resident (B.empty n pos) = 0
  push_start : ∀ {q ps c i v}, Inv q ps c → ps i = none →
    Inv q (update ps i (some (v, B.tryPush))) c
  push_next : ∀ {q ps c i v p q' p'}, Inv q ps c → ps i = some (v, p) →
    B.pushStep v q p = (q', .inl p') →
    Inv q' (update ps i (some (v, p'))) c ∧ resident q' = resident q
  push_fail : ∀ {q ps c i v p q'}, Inv q ps c → ps i = some (v, p) →
    B.pushStep v q p = (q', .inr false) →
    Inv q' (update ps i none) c ∧ resident q' = resident q
  push_done : ∀ {q ps c i v p q'}, Inv q ps c → ps i = some (v, p) →
    B.pushStep v q p = (q', .inr true) →
    Inv q' (update ps i none) c ∧ resident q' = v ::ₘ resident q
  pop_start : ∀ {q ps}, Inv q ps none → Inv q ps (some B.tryPop)
  pop_next : ∀ {q ps c q' c'}, Inv q ps (some c) → B.popStep q c = (q', .inl c') →
    Inv q' ps (some c') ∧ resident q' = resident q
  pop_none : ∀ {q ps c q'}, Inv q ps (some c) → B.popStep q c = (q', .inr none) →
    Inv q' ps none ∧ resident q' = resident q
  pop_some : ∀ {q ps c q' v}, Inv q ps (some c) → B.popStep q c = (q', .inr (some v)) →
    Inv q' ps none ∧ resident q = v ::ₘ resident q'
  sees_start : ∀ {q ps}, Inv q ps none → resident q ≠ 0 → sees q B.hasReady
  sees_next : ∀ {q r r'}, sees q r → B.readyStep q r = .inl r' → sees q r'
  sees_done : ∀ {q r b}, sees q r → B.readyStep q r = .inr b → b = true
  sees_push : ∀ {q ps c i v p r}, Inv q ps c → ps i = some (v, p) → sees q r →
    sees (B.pushStep v q p).1 r
  counts_start : ∀ {q ps}, Inv q ps none → counts q B.size = 0 → resident q = 0
  counts_next : ∀ {q c c'}, B.sizeStep q c = .inl c' → counts q c' = counts q c
  counts_done : ∀ {q c n}, B.sizeStep q c = .inr n → n = counts q c

/-- A backend that never holds more payloads than it has room for. -/
structure Backend.Bounded {α : Type} {B : Backend α} (L : B.Lawful) where
  capacity : B.Q → Nat
  empty : ∀ n (pos : 0 < n), capacity (B.empty n pos) = n
  push : ∀ v q p, capacity (B.pushStep v q p).1 = capacity q
  pop : ∀ q c, capacity (B.popStep q c).1 = capacity q
  card_le : ∀ q, Multiset.card (L.resident q) ≤ capacity q

/-- What a backend stores, probing hints apart. Only a push that has claimed its place
changes it, and such a push succeeds. -/
structure Backend.Store {α : Type} (B : Backend α) where
  Cells : Type
  cells : B.Q → Cells
  unclaimed : B.Push → Bool
  start : unclaimed B.tryPush = true
  push_next : ∀ {v q p q' p'}, B.pushStep v q p = (q', .inl p') → unclaimed p' = true →
    unclaimed p = true ∧ cells q' = cells q
  push_fail : ∀ {v q p q'}, B.pushStep v q p = (q', .inr false) →
    unclaimed p = true ∧ cells q' = cells q

/-- A backend whose published payloads form a queue: a push appends and a pop
takes the oldest, each in one access. -/
structure Backend.Fifo {α : Type} (B : Backend α) where
  contents : B.Q → List α
  empty : ∀ n (pos : 0 < n), contents (B.empty n pos) = []
  push_next : ∀ {v q p q' p'}, B.pushStep v q p = (q', .inl p') → contents q' = contents q
  push_fail : ∀ {v q p q'}, B.pushStep v q p = (q', .inr false) → contents q' = contents q
  push_done : ∀ {v q p q'}, B.pushStep v q p = (q', .inr true) → contents q' = contents q ++ [v]
  pop_next : ∀ {q c q' c'}, B.popStep q c = (q', .inl c') → contents q' = contents q
  pop_none : ∀ {q c q'}, B.popStep q c = (q', .inr none) → contents q' = contents q
  pop_some : ∀ {q c q' v}, B.popStep q c = (q', .inr (some v)) → contents q = v :: contents q'

end Coact
