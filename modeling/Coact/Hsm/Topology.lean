import Coact.Foundation.Forest
import Coact.Hsm.Machine

/-! A state table that the constructor accepts is a forest, and the index walks of
`hsm.hpp` compute its depths, ancestors and meeting points. -/
namespace Coact.Hsm
open Foundation
variable {C D : Type} (h : Hsm C D)

section
variable {states : List (StateDef C)}

theorem validateState_of_valid (valid : validateTopology states = true)
    (found : states[s]? = some d) : validateState states s d = true := by
  have all := (of_decide_eq_true valid).2
  exact all (d, s) (List.mem_zipIdx_iff_getElem?.mpr found)

theorem index_natCast (n : Nat) : index (n : Int) = some n := by
  simp [index]

end

theorem ends_of_chain {left : Nat} {state : Int}
    (walked : validateChain h.states left state = true) : Ends h.parentOf left (index state) := by
  induction left generalizing state with
  | zero =>
    have negative : ¬ 0 ≤ state := by
      have := of_decide_eq_true walked
      omega
    rw [index, if_neg negative]
    trivial
  | succ left ih =>
    rw [validateChain, Bool.or_eq_true, decide_eq_true_eq] at walked
    by_cases negative : state < 0
    · rw [index, if_neg (by omega)]
      trivial
    · have further := walked.resolve_left negative
      split at further
      · rename_i d found
        rw [index, if_pos (by omega)]
        change Ends h.parentOf left (h.parentOf state.toNat)
        rw [parentOf, found]
        exact ih further
      · cases further

theorem ends_states (s : Nat) : Ends h.parentOf (h.states.length + 1) (some s) := by
  cases found : h.states[s]? with
  | none =>
    change Ends h.parentOf h.states.length (h.parentOf s)
    rw [parentOf, found]
    cases h.states.length <;> trivial
  | some d =>
    have checked := of_decide_eq_true (validateState_of_valid h.valid found)
    have ends := h.ends_of_chain checked.2.2.2
    exact ends.mono (Nat.le_succ _)

/-- The forest of the state table. -/
def forest : Forest Nat where
  parent := h.parentOf
  height := h.fuel
  ends s := (h.ends_states s).mono (Nat.le_succ _)

/-- The ancestor chain of a state, innermost first. -/
def above (state : Option Nat) : List Nat := h.forest.above state

theorem above_some (s : Nat) : h.above (some s) = s :: h.above (h.parentOf s) :=
  h.forest.above_some s

theorem above_none : h.above none = [] := h.forest.above_none

theorem above_nodup (state : Option Nat) : (h.above state).Nodup := h.forest.above_nodup state

theorem parentOf_initialChild (found : h.initialChild s = some child) :
    child < h.states.length ∧ h.parentOf child = some s := by
  obtain ⟨d, there, childIndex⟩ := Option.bind_eq_some_iff.mp found
  have checked := of_decide_eq_true (validateState_of_valid h.valid there)
  rw [index] at childIndex
  split at childIndex <;> cases childIndex
  rename_i nonneg
  obtain ⟨d', there', parent⟩ := Option.map_eq_some_iff.mp (checked.2.2.1 nonneg)
  refine ⟨(List.getElem?_eq_some_iff.mp there').1, ?_⟩
  rw [parentOf, there', Option.bind_some, parent, index_natCast]

section
variable {h} {n : Nat}

theorem chainDepthFrom_eq (n : Nat) (x : Option Nat) (depth : Nat) :
    h.chainDepthFrom n x depth = depth + (chain h.parentOf n x).length := by
  induction n generalizing x depth with
  | zero => rfl
  | succ n ih =>
    cases x with
    | none => rfl
    | some s =>
      rw [chainDepthFrom, ih, chain, List.length_cons]
      omega

theorem chainDepth_eq (x : Option Nat) : h.chainDepth x = (h.above x).length := by
  rw [chainDepth, chainDepthFrom_eq, Nat.zero_add]
  rfl

theorem above_length_lt (x : Option Nat) : (h.above x).length < h.fuel := by
  cases x with
  | none =>
    exact Nat.succ_pos _
  | some s => exact Nat.lt_succ_of_le ((h.ends_states s).length_le h.fuel)

theorem head_above (x : Option Nat) : (h.above x).head? = x := by
  cases x with
  | none => rw [above_none]; rfl
  | some => rw [above_some]; rfl

theorem above_bind (x : Option Nat) : h.above (x.bind h.parentOf) = (h.above x).tail := by
  cases x with
  | none => rw [Option.bind_none, above_none]; rfl
  | some => rw [above_some]; rfl

theorem above_climb (k : Nat) (x : Option Nat) : h.above (h.climb k x) = (h.above x).drop k := by
  induction k generalizing x with
  | zero => rfl
  | succ _ ih => rw [climb, ih, above_bind, List.drop_tail]

theorem ancestorAtDepth_eq (x : Option Nat) (depth : Nat) :
    h.ancestorAtDepth x depth = (h.above x)[(h.above x).length - depth]? := by
  rw [ancestorAtDepth, chainDepth_eq, ← head_above (h.climb _ x), above_climb, List.head?_drop]

/-- Lifting the deeper of two states does not move their meeting point. -/
theorem meets_of_climb (level : k + (h.above y).length ≤ (h.above x).length)
    (meets : h.forest.Meets (h.climb k x) y z) : h.forest.Meets x y z := by
  induction k generalizing x with
  | zero => exact meets
  | succ k ih =>
    cases x with
    | none =>
      rw [above_none, List.length_nil] at level
      omega
    | some s =>
      rw [above_some, List.length_cons] at level
      have lifted := ih (x := h.parentOf s) (by omega) meets
      refine lifted.climb fun on => ?_
      have deep : (h.above (some s)).length ≤ (h.above y).length := Forest.depth_le_of_mem on
      rw [above_some, List.length_cons] at deep
      omega

theorem meet_meets (level : (h.above x).length = (h.above y).length)
    (enough : (h.above x).length ≤ n) : h.forest.Meets x y (h.meet n x y) := by
  induction n generalizing x y with
  | zero =>
    have left := List.length_eq_zero_iff.mp (Nat.le_zero.mp enough)
    have right := List.length_eq_zero_iff.mp (level ▸ Nat.le_zero.mp enough)
    have same : x = y := Forest.above_injective (F := h.forest) (left.trans right.symm)
    subst same
    exact .refl _ _
  | succ n ih =>
    by_cases same : x = y
    · subst same
      simp only [meet, if_true]
      exact .refl _ _
    · cases x with
      | none =>
        cases y with
        | none => exact (same rfl).elim
        | some => simp [above_none, above_some] at level
      | some s =>
        cases y with
        | none => simp [above_none, above_some] at level
        | some t =>
          have apart : s ≠ t := fun eq => same (congrArg some eq)
          simp only [meet, if_neg same]
          rw [above_some, above_some, List.length_cons, List.length_cons] at level
          rw [above_some, List.length_cons] at enough
          have higher := ih (Nat.succ.inj level) (Nat.le_of_succ_le_succ enough)
          have offRight : t ∉ h.above (h.parentOf s) := by
            intro on
            have deep : (h.above (some t)).length ≤ (h.above (h.parentOf s)).length :=
              Forest.depth_le_of_mem on
            rw [above_some, List.length_cons] at deep
            omega
          have offLeft : s ∉ h.above (some t) := by
            intro on
            rw [above_some] at on
            rcases List.mem_cons.mp on with eq | on
            · exact apart eq
            · have deep : (h.above (some s)).length ≤ (h.above (h.parentOf t)).length :=
                Forest.depth_le_of_mem on
              rw [above_some, List.length_cons] at deep
              omega
          exact (higher.symm.climb offRight).symm.climb offLeft

theorem findLca_meets (x y : Option Nat) : h.forest.Meets x y (h.findLca x y) := by
  have lengthX := congrArg List.length (above_climb (h := h) (h.chainDepth x - h.chainDepth y) x)
  have lengthY := congrArg List.length (above_climb (h := h) (h.chainDepth y - h.chainDepth x) y)
  rw [List.length_drop] at lengthX lengthY
  have met := meet_meets (h := h) (n := h.fuel)
    (x := h.climb (h.chainDepth x - h.chainDepth y) x)
    (y := h.climb (h.chainDepth y - h.chainDepth x) y)
    (by rw [lengthX, lengthY, chainDepth_eq, chainDepth_eq]; omega) (Nat.le_of_lt (above_length_lt _))
  rw [findLca]
  by_cases deeper : h.chainDepth y ≤ h.chainDepth x
  · have still : h.chainDepth y - h.chainDepth x = 0 := by omega
    rw [still] at met ⊢
    have level : h.chainDepth x - h.chainDepth y + (h.above y).length ≤ (h.above x).length := by
      rw [chainDepth_eq, chainDepth_eq] at deeper ⊢
      omega
    exact meets_of_climb level met
  · have still : h.chainDepth x - h.chainDepth y = 0 := by omega
    rw [still] at met ⊢
    have level : h.chainDepth y - h.chainDepth x + (h.above x).length ≤ (h.above y).length := by
      rw [chainDepth_eq, chainDepth_eq] at deeper ⊢
      omega
    exact (meets_of_climb level met.symm).symm

/-- The boundary of an External transition is the deepest common proper ancestor. -/
theorem externalBoundary_meets (source target : Nat) :
    h.forest.Meets (h.parentOf source) (h.parentOf target) (h.externalBoundary source target) :=
  (findLca_meets (some source) (some target)).proper

end

end Coact.Hsm
