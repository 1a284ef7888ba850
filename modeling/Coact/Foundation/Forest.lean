import Mathlib.Data.List.Infix
import Mathlib.Data.List.Nodup

/-! Forests given by a parent function. The ancestor chain of a node determines its
place: membership in a chain is the suffix order, and two chains meet in the chain of
their deepest common node. -/
namespace Coact.Foundation

variable {α : Type}

/-- The nodes met by climbing at most `n` times, the start included. -/
def chain (parent : α → Option α) : Nat → Option α → List α
  | 0, _ => []
  | _ + 1, none => []
  | n + 1, some s => s :: chain parent n (parent s)

/-- Climbing leaves the forest within `n` nodes. -/
def Ends (parent : α → Option α) : Nat → Option α → Prop
  | _, none => True
  | 0, some _ => False
  | n + 1, some s => Ends parent n (parent s)

variable {parent : α → Option α} {x : Option α}

theorem Ends.mono {n m : Nat} (ends : Ends parent n x) (more : n ≤ m) : Ends parent m x := by
  induction n generalizing m x with
  | zero =>
    cases x with
    | none => cases m <;> trivial
    | some => exact ends.elim
  | succ n ih =>
    cases x with
    | none => cases m <;> trivial
    | some s =>
      obtain ⟨m, rfl⟩ : ∃ k, m = k + 1 := ⟨m - 1, by omega⟩
      change Ends parent m (parent s)
      exact ih ends (Nat.le_of_succ_le_succ more)

theorem Ends.chain_eq {n m : Nat} (ends : Ends parent n x) (more : n ≤ m) :
    chain parent m x = chain parent n x := by
  induction n generalizing m x with
  | zero =>
    cases x with
    | none => cases m <;> rfl
    | some => exact ends.elim
  | succ n ih =>
    obtain ⟨m, rfl⟩ : ∃ k, m = k + 1 := ⟨m - 1, by omega⟩
    cases x with
    | none => rfl
    | some s => exact congrArg (s :: ·) (ih ends (Nat.le_of_succ_le_succ more))

theorem Ends.length_le {n : Nat} (ends : Ends parent n x) (m : Nat) :
    (chain parent m x).length ≤ n := by
  induction m generalizing n x with
  | zero => exact Nat.zero_le n
  | succ _ ih =>
    cases x with
    | none => exact Nat.zero_le n
    | some =>
      cases n with
      | zero => exact ends.elim
      | succ => exact Nat.succ_le_succ (ih ends)

structure Forest (α : Type) where
  parent : α → Option α
  height : Nat
  ends : ∀ s, Ends parent height (some s)

namespace Forest
variable (F : Forest α)

/-- The chain of ancestors from a node to its root, innermost first. -/
def above (x : Option α) : List α := chain F.parent F.height x

def depth (x : Option α) : Nat := (F.above x).length

@[simp] theorem above_none : F.above none = [] := by
  rw [above]
  cases F.height <;> rfl

theorem above_some (s : α) : F.above (some s) = s :: F.above (F.parent s) := by
  have deeper := (F.ends s).chain_eq (Nat.le_succ F.height)
  rw [above, ← deeper]
  rfl

theorem depth_some (s : α) : F.depth (some s) = F.depth (F.parent s) + 1 := by
  rw [depth, above_some]
  rfl

/-- Induction along the parent links. -/
theorem climb_induction {P : Option α → Prop} (root : P none)
    (child : ∀ s, P (F.parent s) → P (some s)) (x : Option α) : P x := by
  have bounded (n : Nat) (x : Option α) (ends : Ends F.parent n x) : P x := by
    induction n generalizing x with
    | zero =>
      cases x with
      | none => exact root
      | some => exact ends.elim
    | succ _ ih =>
      cases x with
      | none => exact root
      | some s => exact child s (ih _ ends)
  cases x with
  | none => exact root
  | some s => exact bounded F.height (some s) (F.ends s)

variable {F} {x y z : Option α} {s : α}

/-- An ancestor's chain is the rest of the chain. -/
theorem suffix_of_mem (mem : s ∈ F.above x) : F.above (some s) <:+ F.above x := by
  induction x using F.climb_induction with
  | root => simp at mem
  | child t ih =>
    rw [above_some F t] at mem ⊢
    rcases List.mem_cons.mp mem with rfl | higher
    · rw [above_some]
    · exact (ih higher).trans (List.suffix_cons t _)

theorem depth_le_of_mem (mem : s ∈ F.above x) : F.depth (some s) ≤ F.depth x :=
  (suffix_of_mem mem).length_le

theorem not_mem_parent (F : Forest α) (s : α) : s ∉ F.above (F.parent s) := by
  intro mem
  have deeper := depth_le_of_mem mem
  rw [depth_some] at deeper
  omega

theorem above_nodup (F : Forest α) (x : Option α) : (F.above x).Nodup := by
  induction x using F.climb_induction with
  | root => simp
  | child s ih =>
    rw [above_some]
    exact List.nodup_cons.mpr ⟨F.not_mem_parent s, ih⟩

theorem above_injective (same : F.above x = F.above y) : x = y := by
  cases x with
  | none =>
    cases y with
    | none => rfl
    | some => simp [above_some] at same
  | some =>
    cases y with
    | none => simp [above_some] at same
    | some =>
      rw [above_some, above_some] at same
      rw [(List.cons.inj same).1]

/-- Below the root of a chain, a smaller chain hangs on the parent. -/
theorem suffix_parent (part : F.above x <:+ F.above (some s)) (other : x ≠ some s) :
    F.above x <:+ F.above (F.parent s) := by
  rw [above_some] at part
  rcases List.suffix_cons_iff.mp part with whole | smaller
  · rw [← above_some] at whole
    exact (other (above_injective whole)).elim
  · exact smaller

/-- `z` is the deepest node on both chains, none if they are disjoint. -/
structure Meets (F : Forest α) (x y z : Option α) : Prop where
  left : F.above z <:+ F.above x
  right : F.above z <:+ F.above y
  deepest : ∀ s, s ∈ F.above x → s ∈ F.above y → s ∈ F.above z

namespace Meets

theorem refl (F : Forest α) (x : Option α) : Meets F x x x :=
  ⟨List.suffix_rfl, List.suffix_rfl, fun _ mem _ => mem⟩

theorem symm (meets : Meets F x y z) : Meets F y x z :=
  ⟨meets.right, meets.left, fun s left right => meets.deepest s right left⟩

/-- A node that is not on the other chain can be climbed past. -/
theorem climb (meets : Meets F (F.parent s) y z) (off : s ∉ F.above y) : Meets F (some s) y z := by
  constructor
  case left =>
    rw [above_some]
    exact meets.left.trans (List.suffix_cons s _)
  case right => exact meets.right
  case deepest =>
    intro t left right
    rw [above_some] at left
    rcases List.mem_cons.mp left with rfl | higher
    · exact (off right).elim
    · exact meets.deepest t higher right

/-- Leaving out both ends: the deepest common proper ancestor is the meeting point,
or its parent if the meeting point is one of the ends. -/
theorem proper [DecidableEq α] (meets : Meets F (some s) (some t) z) :
    Meets F (F.parent s) (F.parent t)
      (if z = some s ∨ z = some t then z.bind F.parent else z) := by
  by_cases source : z = some s
  · subst source
    rw [if_pos (.inl rfl)]
    refine ⟨List.suffix_rfl, ?_, fun u left _ => left⟩
    change F.above (F.parent s) <:+ _
    by_cases same : s = t
    · rw [same]
    · exact ((above_some F s) ▸ List.suffix_cons s _).trans
        (suffix_parent meets.right fun eq => same (Option.some.inj eq))
  · by_cases target : z = some t
    · subst target
      rw [if_pos (.inr rfl)]
      refine ⟨?_, List.suffix_rfl, fun u _ right => right⟩
      exact ((above_some F t) ▸ List.suffix_cons t _).trans (suffix_parent meets.left source)
    · rw [if_neg (by simp [source, target])]
      refine ⟨suffix_parent meets.left source, suffix_parent meets.right target, ?_⟩
      intro u left right
      refine meets.deepest u ?_ ?_
      · rw [above_some]
        exact List.mem_cons_of_mem s left
      · rw [above_some]
        exact List.mem_cons_of_mem t right

end Meets

end Forest

end Coact.Foundation
