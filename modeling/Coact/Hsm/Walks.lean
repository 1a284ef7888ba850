import Coact.Hsm.Resolution
import Mathlib.Data.List.Perm.Subperm

/-! `validate_topology` accepts the tables that describe a forest and no others, and on those the
index walks of `hsm.hpp` end and read the table only where it has an entry. The walks are repeated
here with every read checked and a walk without end as a fault. -/
namespace Coact.Hsm
open Foundation Relation
variable {C D : Type}

section
variable {states : List (StateDef C)} {s : Nat}

/-- `p` is the parent of state `s`. -/
def IsParent (states : List (StateDef C)) (s p : Nat) : Prop :=
  states[s]?.map StateDef.parent = some (p : Int)

/-- `t` is `s` or one of its ancestors. -/
abbrev IsAbove (states : List (StateDef C)) : Nat → Nat → Prop := ReflTransGen (IsParent states)

/-- What `find_lca` is to find: the deepest common ancestor-or-self of `a` and `b`. -/
def DeepestCommon (states : List (StateDef C)) (a b : Nat) : Option Nat → Prop
  | none => ∀ u, IsAbove states a u → ¬ IsAbove states b u
  | some t => IsAbove states a t ∧ IsAbove states b t ∧
      ∀ u, IsAbove states a u → IsAbove states b u → IsAbove states t u

/-- The table describes a forest with initial children. -/
structure IsForest (states : List (StateDef C)) : Prop where
  parents : ∀ d ∈ states, d.parent = -1 ∨ ∃ p : Nat, d.parent = p ∧ p < states.length
  acyclic : ∀ s, ¬ TransGen (IsParent states) s s
  children : ∀ (s : Nat) d, states[s]? = some d →
    d.initialChild = -1 ∨ ∃ c : Nat, d.initialChild = c ∧ IsParent states c s

/-- The walk ends before its bound: it meets every state once, and there are no more states. -/
theorem IsForest.validateChain (formed : IsForest states) {left : Nat} {state : Int}
    {seen : List Nat} (known : state = -1 ∨ ∃ p : Nat, state = p ∧ p < states.length)
    (nodup : seen.Nodup) (inside : seen ⊆ List.range states.length)
    (behind : ∀ t ∈ seen, ∀ p : Nat, state = p → TransGen (IsParent states) t p)
    (count : seen.length + left = states.length) : validateChain states left state = true := by
  rcases known with rfl | ⟨p, rfl, below⟩
  · cases left <;> rfl
  · have fresh : p ∉ seen := fun mem => formed.acyclic p (behind p mem p rfl)
    have nodup' : (p :: seen).Nodup := List.nodup_cons.mpr ⟨fresh, nodup⟩
    have inside' : p :: seen ⊆ List.range states.length :=
      List.cons_subset.mpr ⟨List.mem_range.mpr below, inside⟩
    have bound := (List.subperm_of_subset nodup' inside').length_le
    rw [List.length_cons, List.length_range] at bound
    cases left with
    | zero => omega
    | succ left =>
      have found : states[p]? = some states[p] := List.getElem?_eq_getElem below
      have onward : Coact.validateChain states left states[p].parent = true := by
        refine formed.validateChain (formed.parents _ (List.getElem_mem below)) nodup' inside' ?_
          (by rw [List.length_cons]; omega)
        intro t mem q parent
        have last : IsParent states p q := by
          rw [IsParent, found, Option.map_some, parent]
        rcases List.mem_cons.mp mem with rfl | earlier
        · exact .single last
        · exact (behind t earlier p rfl).tail last
      rw [Coact.validateChain, Int.toNat_natCast, found]
      simp [onward]

theorem IsForest.validateState (formed : IsForest states)
    (found : states[s]? = some d) : validateState states s d = true := by
  refine decide_eq_true ⟨?_, ?_, ?_, ?_⟩
  · rcases formed.parents d (List.mem_of_getElem? found) with none | ⟨p, parent, -⟩ <;> omega
  · rcases formed.children s d found with none | ⟨c, child, -⟩ <;> omega
  · intro nonneg
    rcases formed.children s d found with none | ⟨c, child, parent⟩
    · omega
    · rw [child, Int.toNat_natCast]
      exact parent
  · have below := (List.getElem?_eq_some_iff.mp found).1
    exact formed.validateChain (.inr ⟨s, rfl, below⟩) List.nodup_nil (List.nil_subset _)
      (fun _ never => absurd never List.not_mem_nil) (Nat.zero_add _)

theorem IsForest.validateTopology (formed : IsForest states) (few : states.length ≤ 128) :
    validateTopology states = true :=
  decide_eq_true ⟨few, fun _ mem =>
    formed.validateState (List.mem_zipIdx_iff_getElem?.mp mem)⟩

theorem validateChain_start {left : Nat} {state : Int}
    (walked : validateChain states left state = true) :
    state < 0 ∨ state.toNat < states.length := by
  cases left with
  | zero => exact .inl (of_decide_eq_true walked)
  | succ left =>
    rw [validateChain, Bool.or_eq_true, decide_eq_true_eq] at walked
    rcases walked with negative | further
    · exact .inl negative
    · split at further
      · rename_i found
        exact .inr (List.getElem?_eq_some_iff.mp found).1
      · cases further

end

section
variable {h : Hsm C D} {s t p : Nat}

theorem parentOf_eq_some : h.parentOf s = some p ↔ IsParent h.states s p := by
  rw [parentOf, IsParent]
  cases h.states[s]? with
  | none => simp
  | some d =>
    simp only [Option.bind_some, Option.map_some, index, Option.some.injEq]
    split
    · rw [Option.some.injEq]
      omega
    · simp only [reduceCtorEq, false_iff]
      omega

theorem mem_above : t ∈ h.above (some s) ↔ IsAbove h.states s t := by
  constructor
  · intro mem
    have climbed (x : Option Nat) : ∀ s ∈ x, t ∈ h.above x → IsAbove h.states s t := by
      induction x using h.forest.climb_induction with
      | root => simp
      | child u ih =>
        rintro s ⟨⟩ mem
        rw [above_some] at mem
        rcases List.mem_cons.mp mem with rfl | higher
        · exact .refl
        · cases up : h.parentOf u with
          | none =>
            rw [up, above_none] at higher
            cases higher
          | some p => exact (ih p up higher).head (parentOf_eq_some.mp up)
    exact climbed (some s) s rfl mem
  · intro path
    induction path using ReflTransGen.head_induction_on with
    | refl =>
      rw [above_some]
      exact List.mem_cons_self
    | head up _ ih =>
      rw [above_some, parentOf_eq_some.mpr up]
      exact List.mem_cons_of_mem _ ih

theorem isForest (h : Hsm C D) : IsForest h.states := by
  constructor
  case parents =>
    intro d mem
    obtain ⟨s, found⟩ := List.mem_iff_getElem?.mp mem
    obtain ⟨low, -, -, chain⟩ := of_decide_eq_true (validateState_of_valid h.valid found)
    obtain ⟨left, whole⟩ : ∃ left, h.states.length = left + 1 :=
      Nat.exists_eq_add_one.mpr (List.length_pos_of_mem mem)
    rw [whole, validateChain, Int.toNat_natCast, found, Bool.or_eq_true, decide_eq_true_eq] at chain
    rcases validateChain_start (chain.resolve_left (by omega)) with negative | below
    · exact .inl (by omega)
    · by_cases negative : d.parent < 0
      · exact .inl (by omega)
      · exact .inr ⟨d.parent.toNat, by omega, below⟩
  case acyclic =>
    intro s cycle
    obtain ⟨p, up, path⟩ := TransGen.head'_iff.mp cycle
    have mem : s ∈ h.above (h.parentOf s) := by
      rw [parentOf_eq_some.mpr up]
      exact mem_above.mpr path
    exact h.forest.not_mem_parent s mem
  case children =>
    intro s d found
    obtain ⟨-, low, child, -⟩ := of_decide_eq_true (validateState_of_valid h.valid found)
    by_cases nonneg : 0 ≤ d.initialChild
    · exact .inr ⟨d.initialChild.toNat, by omega, child nonneg⟩
    · exact .inl (by omega)

theorem parentOf_lt (found : h.parentOf s = some p) : p < h.states.length := by
  obtain ⟨d, there, parent⟩ := Option.map_eq_some_iff.mp (parentOf_eq_some.mp found)
  rcases h.isForest.parents d (List.mem_of_getElem? there) with none | ⟨q, same, below⟩ <;> omega

theorem findLca_deepest (a b : Nat) : DeepestCommon h.states a b (h.findLca (some a) (some b)) := by
  have meets := findLca_meets (h := h) (some a) (some b)
  cases found : h.findLca (some a) (some b) with
  | none =>
    intro u left right
    rw [found] at meets
    have mem : u ∈ h.above none := meets.deepest u (mem_above.mpr left) (mem_above.mpr right)
    rw [above_none] at mem
    cases mem
  | some t =>
    simp only [DeepestCommon, ← mem_above (h := h)]
    rw [found] at meets
    have here : t ∈ h.above (some t) := mem_above.mpr .refl
    exact ⟨meets.left.subset here, meets.right.subset here, meets.deepest⟩

end

section
variable (h : Hsm C D)

/-- The entry of the table at an index. -/
def stateAt (state : Option Nat) : Except Fault (StateDef C) :=
  match state.bind (h.states[·]?) with
  | some d => .ok d
  | none => .error .outOfBounds

def parentAt (state : Option Nat) : Except Fault (Option Nat) :=
  (h.stateAt state).map fun d => index d.parent

/-- The exit callback of a state. -/
def leave (state : Option Nat) (m : Machine C D) : Except Fault (Machine C D) := do
  let d ← h.stateAt state
  .ok { m with ctx := called d.exit m.ctx, trace := m.trace ++ (state.map .exit).toList }

/-- The entry callback of a state. -/
def enter (state : Option Nat) (m : Machine C D) : Except Fault (Machine C D) := do
  let d ← h.stateAt state
  .ok { m with ctx := called d.entry m.ctx, trace := m.trace ++ (state.map .enter).toList }

/-- `chain_depth`. -/
def depthWalk : Nat → Option Nat → Nat → Except Fault Nat
  | 0, _, _ => .error .diverges
  | _ + 1, none, depth => .ok depth
  | n + 1, some s, depth => do
    let up ← h.parentAt (some s)
    depthWalk n up (depth + 1)

def climbWalk : Nat → Option Nat → Except Fault (Option Nat)
  | 0, state => .ok state
  | n + 1, state => do
    let up ← h.parentAt state
    climbWalk n up

/-- `ancestor_at_depth`. -/
def ancestorWalk (state : Option Nat) (depth : Nat) : Except Fault (Option Nat) := do
  let deep ← h.depthWalk h.fuel state 0
  h.climbWalk (deep - depth) state

def meetWalk : Nat → Option Nat → Option Nat → Except Fault (Option Nat)
  | 0, _, _ => .error .diverges
  | n + 1, a, b =>
    if a = b then .ok a
    else if a = none ∨ b = none then .ok none
    else do
      let a ← h.parentAt a
      let b ← h.parentAt b
      meetWalk n a b

/-- `find_lca`. -/
def lcaWalk (a b : Option Nat) : Except Fault (Option Nat) := do
  let da ← h.depthWalk h.fuel a 0
  let db ← h.depthWalk h.fuel b 0
  let a ← h.climbWalk (da - db) a
  let b ← h.climbWalk (db - da) b
  h.meetWalk h.fuel a b

/-- `exit_to_lca`. -/
def exitWalk (lca : Option Nat) : Nat → Option Nat → Machine C D → Except Fault (Machine C D)
  | 0, _, _ => .error .diverges
  | n + 1, state, m =>
    if state = lca then .ok m
    else do
      let m ← h.leave state m
      let up ← h.parentAt state
      exitWalk lca n up m

/-- The exit loop of a Self transition. -/
def selfWalk (source : Nat) : Nat → Option Nat → Machine C D → Except Fault (Machine C D)
  | 0, _, _ => .error .diverges
  | n + 1, state, m => do
    let m ← h.leave state m
    if state = some source then .ok m
    else do
      let up ← h.parentAt state
      selfWalk source n up m

def levelsWalk (target : Option Nat) : List Nat → Machine C D → Except Fault (Machine C D)
  | [], m => .ok m
  | level :: rest, m => do
    let state ← h.ancestorWalk target level
    let m ← h.enter state m
    levelsWalk target rest m

/-- `enter_path`. -/
def pathWalk (lca : Option Nat) (target : Nat) (m : Machine C D) : Except Fault (Machine C D) := do
  let lcaDepth ← h.depthWalk h.fuel lca 0
  let targetDepth ← h.depthWalk h.fuel (some target) 0
  h.levelsWalk (some target) (List.range' (lcaDepth + 1) (targetDepth - lcaDepth)) m

/-- `enter_initial_descendants`. -/
def initialWalk : (left : Nat) → (state : Nat) → Machine C D → Except Fault (Machine C D)
  | left, state, m => do
    let d ← h.stateAt (some state)
    match index d.initialChild with
    | none => .ok { m with current := some state }
    | some child =>
      if child < h.states.length then do
        let up ← h.parentAt (some child)
        if up = some state then
          match left with
          | 0 => .error .chainTooLong
          | left + 1 => do
            let m ← h.enter (some child) m
            initialWalk left child m
        else .error .childParent
      else .error .childRange

end

section
variable {h : Hsm C D} {x : Option Nat} {s n : Nat}

/-- The state is an entry of the table, or none. -/
def Known (h : Hsm C D) (x : Option Nat) : Prop := ∀ s, x = some s → s < h.states.length

theorem Known.parentOf (h : Hsm C D) (s : Nat) : h.Known (h.parentOf s) := fun _ => parentOf_lt

section
variable (below : s < h.states.length)
include below

theorem Known.some : h.Known (some s) := by
  rintro _ ⟨⟩
  exact below

theorem stateAt_eq : h.stateAt (some s) = .ok h.states[s] := by
  rw [stateAt, Option.bind_some, List.getElem?_eq_getElem below]

theorem parentAt_eq : h.parentAt (some s) = .ok (h.parentOf s) := by
  rw [parentAt, stateAt_eq below, parentOf, List.getElem?_eq_getElem below]
  rfl

theorem leave_eq : h.leave (some s) m = .ok (h.runExit s m) := by
  rw [leave, stateAt_eq below, runExit, List.getElem?_eq_getElem below]
  rfl

theorem enter_eq : h.enter (some s) m = .ok (h.runEntry s m) := by
  rw [enter, stateAt_eq below, runEntry, List.getElem?_eq_getElem below]
  rfl

end

section
variable (known : h.Known x)
include known

theorem depthWalk_from (ends : Ends h.parentOf n x) :
    h.depthWalk (n + 1) x k = .ok (h.chainDepthFrom (n + 1) x k) := by
  induction n generalizing x k with
  | zero =>
    cases x with
    | none => rfl
    | some => exact ends.elim
  | succ _ ih =>
    cases x with
    | none => rfl
    | some s =>
      rw [depthWalk, parentAt_eq (known s rfl)]
      exact ih (.parentOf h s) ends

theorem depthWalk_eq : h.depthWalk h.fuel x 0 = .ok (h.chainDepth x) := by
  refine depthWalk_from known ?_
  cases x with
  | none => trivial
  | some s => exact h.ends_states s

theorem climbWalk_eq (enough : n ≤ (h.above x).length) :
    h.climbWalk n x = .ok (h.climb n x) ∧ h.Known (h.climb n x) := by
  induction n generalizing x with
  | zero => exact ⟨rfl, known⟩
  | succ _ ih =>
    cases x with
    | none =>
      rw [above_none] at enough
      cases enough
    | some s =>
      rw [above_some] at enough
      rw [climbWalk, parentAt_eq (known s rfl)]
      exact ih (.parentOf h s) (Nat.le_of_succ_le_succ enough)

theorem ancestorWalk_eq (depth : Nat) :
    h.ancestorWalk x depth = .ok (h.ancestorAtDepth x depth) ∧
      h.Known (h.ancestorAtDepth x depth) := by
  rw [ancestorWalk, depthWalk_eq known, ancestorAtDepth]
  exact climbWalk_eq known ((Nat.sub_le ..).trans (chainDepth_eq x).le)

theorem meetWalk_eq (known' : h.Known y) (ends : Ends h.parentOf n x) :
    h.meetWalk (n + 1) x y = .ok (h.meet (n + 1) x y) := by
  induction n generalizing x y with
  | zero =>
    cases x with
    | none => cases y <;> rfl
    | some => exact ends.elim
  | succ _ ih =>
    unfold meetWalk meet
    split
    · rfl
    · cases x with
      | none => rfl
      | some s =>
        cases y with
        | none => rfl
        | some t =>
          rw [if_neg (by simp), parentAt_eq (known s rfl), parentAt_eq (known' t rfl)]
          exact ih (.parentOf h s) (.parentOf h t) ends

theorem lcaWalk_eq (known' : h.Known y) : h.lcaWalk x y = .ok (h.findLca x y) := by
  obtain ⟨left, knownLeft⟩ := climbWalk_eq (n := h.chainDepth x - h.chainDepth y) known
    ((Nat.sub_le ..).trans (chainDepth_eq x).le)
  obtain ⟨right, knownRight⟩ := climbWalk_eq (n := h.chainDepth y - h.chainDepth x) known'
    ((Nat.sub_le ..).trans (chainDepth_eq y).le)
  rw [lcaWalk, depthWalk_eq known, depthWalk_eq known']
  change (do let a ← h.climbWalk _ x; let b ← h.climbWalk _ y; h.meetWalk h.fuel a b) = _
  rw [left, right]
  refine meetWalk_eq knownLeft knownRight ?_
  cases h.climb (h.chainDepth x - h.chainDepth y) x with
  | none => trivial
  | some s => exact h.ends_states s

theorem exitWalk_eq (lca : Option Nat) : h.exitWalk lca n x m = h.exitTo lca n x m := by
  induction n generalizing x m with
  | zero => rfl
  | succ _ ih =>
    unfold exitWalk exitTo
    split
    · rfl
    · cases x with
      | none => rfl
      | some s =>
        rw [leave_eq (known s rfl), parentAt_eq (known s rfl)]
        exact ih (.parentOf h s)

theorem selfWalk_eq (source : Nat) : h.selfWalk source n x m = h.exitThrough source n x m := by
  induction n generalizing x m with
  | zero => rfl
  | succ _ ih =>
    cases x with
    | none => rfl
    | some s =>
      rw [selfWalk, exitThrough, leave_eq (known s rfl), parentAt_eq (known s rfl)]
      change (if some s = some source then _ else _) = _
      by_cases same : s = source
      · rw [if_pos same, if_pos (congrArg some same)]
      · rw [if_neg same, if_neg fun eq => same (Option.some.inj eq)]
        exact ih (.parentOf h s)

theorem levelsWalk_eq (levels : List Nat) : h.levelsWalk x levels m = h.enterLevels x levels m := by
  induction levels generalizing m with
  | nil => rfl
  | cons level rest ih =>
    obtain ⟨walked, inside⟩ := ancestorWalk_eq known level
    rw [levelsWalk, enterLevels, walked]
    cases found : h.ancestorAtDepth x level with
    | none => rfl
    | some s =>
      change (do let m ← h.enter (some s) m; h.levelsWalk x rest m) = _
      rw [enter_eq (inside s found)]
      exact ih

theorem pathWalk_eq {target : Nat} (below : target < h.states.length) :
    h.pathWalk x target m = h.enterPath x target m := by
  rw [pathWalk, depthWalk_eq known, depthWalk_eq (.some below)]
  exact levelsWalk_eq (.some below) _

end

theorem initialChild_eq (below : s < h.states.length) :
    h.initialChild s = index h.states[s].initialChild := by
  rw [initialChild, List.getElem?_eq_getElem below]
  rfl

theorem initialWalk_eq {n s : Nat} {m : Machine C D} (below : s < h.states.length) :
    h.initialWalk n s m = h.enterInitial n s m := by
  rw [initialWalk, enterInitial, stateAt_eq below, initialChild_eq below]
  change (match index _ with | none => _ | some child => _) = _
  cases found : index h.states[s].initialChild with
  | none => rfl
  | some child =>
    obtain ⟨inside, -⟩ := h.parentOf_initialChild ((initialChild_eq below).trans found)
    simp only [if_pos inside, parentAt_eq inside, enter_eq inside]
    cases n with
    | zero => rfl
    | succ n =>
      change (if _ then h.initialWalk n child _ else _) = _
      rw [initialWalk_eq inside]

end

section
variable {h : Hsm C D} {x : Option Nat} {s current source : Nat}

theorem exits_of_ancestor (on : ∀ s, x = some s → IsAbove h.states current s) :
    ∃ exits, h.above (some current) = exits ++ h.above x ∧ exits.length < h.fuel := by
  have bound := above_length_lt (h := h) (some current)
  cases x with
  | none =>
    rw [above_none]
    exact ⟨_, (List.append_nil _).symm, bound⟩
  | some s =>
    obtain ⟨exits, whole⟩ := Forest.suffix_of_mem (F := h.forest) (mem_above.mpr (on s rfl))
    have length := congrArg List.length whole
    rw [List.length_append] at length
    change _ = (h.above (some current)).length at length
    exact ⟨exits, whole.symm, by omega⟩

theorem enterLevels_ok
    (inside : ∀ level ∈ levels, 0 < level ∧ level ≤ (h.above x).length) (m : Machine C D) :
    ∃ m', h.enterLevels x levels m = .ok m' := by
  induction levels generalizing m with
  | nil => exact ⟨m, rfl⟩
  | cons level rest ih =>
    obtain ⟨positive, deep⟩ := inside level List.mem_cons_self
    have found := ancestorAtDepth_eq (h := h) x level
    rw [List.getElem?_eq_getElem (by omega)] at found
    rw [enterLevels, found]
    exact ih (fun l mem => inside l (List.mem_cons_of_mem _ mem)) _

theorem enterPath_ok (lca : Option Nat) (target : Nat) (m : Machine C D) :
    ∃ m', h.enterPath lca target m = .ok m' := by
  refine enterLevels_ok (fun level mem => ?_) m
  have range := List.mem_range'_1.mp mem
  rw [chainDepth_eq (some target)] at range
  omega

/-- The initial descent ends in a state of the table, unless it is longer than `max_depth`. -/
theorem enterInitial_ok (left : Nat) {s : Nat} (below : s < h.states.length) (m : Machine C D) :
    (∃ m', h.enterInitial left s m = .ok m' ∧ ∃ leaf < h.states.length, m'.current = some leaf) ∨
      h.enterInitial left s m = .error .chainTooLong := by
  rw [enterInitial]
  cases found : h.initialChild s with
  | none => exact .inl ⟨_, rfl, s, below, rfl⟩
  | some child =>
    obtain ⟨inside, parent⟩ := h.parentOf_initialChild found
    simp only [if_pos inside, if_pos parent]
    cases left with
    | zero => exact .inr rfl
    | succ left => exact enterInitial_ok left inside _

theorem externalBoundary_ancestor {target b : Nat} (on : IsAbove h.states current source)
    (found : h.externalBoundary source target = some b) :
    IsAbove h.states current b := by
  have meets := externalBoundary_meets (h := h) source target
  rw [found] at meets
  refine on.trans (mem_above.mp ?_)
  rw [above_some]
  exact List.mem_cons_of_mem _ (meets.left.subset (mem_above.mpr .refl))

end

/-- The constructor accepts exactly the tables of a forest with initial children. On an accepted
table `find_lca` is exact, and no walk of a transition runs on for ever or leaves the table: the
exits from any state to one of its ancestors or through it, the entries on the path to any state,
and the initial descent, which may only be stopped by the assertion on its length. -/
theorem topology_validation_exact :
    (∀ states : List (StateDef C), states.length ≤ 128 →
      (validateTopology states = true ↔ IsForest states)) ∧
    ∀ h : Hsm C D,
      (∀ a b, a < h.states.length → b < h.states.length →
        h.lcaWalk (some a) (some b) = .ok (h.findLca (some a) (some b)) ∧
        DeepestCommon h.states a b (h.findLca (some a) (some b))) ∧
      (∀ current source m, current < h.states.length →
        IsAbove h.states current source →
        (∀ lca, (∀ s, lca = some s → IsAbove h.states current s) →
          ∃ m', h.exitWalk lca h.fuel (some current) m = .ok m') ∧
        (∃ m', h.selfWalk source h.fuel (some current) m = .ok m') ∧
        ∀ target b, h.externalBoundary source target = some b →
          IsAbove h.states current b) ∧
      (∀ lca target m, h.Known lca → target < h.states.length →
        ∃ m', h.pathWalk lca target m = .ok m') ∧
      ∀ state m, state < h.states.length →
        (∃ m', h.initialWalk h.maxDepth state m = .ok m' ∧
          ∃ leaf < h.states.length, m'.current = some leaf) ∨
        h.initialWalk h.maxDepth state m = .error .chainTooLong := by
  constructor
  · intro states few
    constructor
    · intro valid
      exact isForest (D := Unit) ⟨states, [], -1, 0, valid⟩
    · intro formed
      exact formed.validateTopology few
  · intro h
    refine ⟨?_, ?_, ?_, ?_⟩
    · intro a b insideA insideB
      exact ⟨lcaWalk_eq (.some insideA) (.some insideB), findLca_deepest a b⟩
    · intro current source m inside on
      refine ⟨?_, ?_, fun target b => externalBoundary_ancestor on⟩
      · intro lca above
        obtain ⟨exits, chain, enough⟩ := exits_of_ancestor above
        exact ⟨_, (exitWalk_eq (.some inside) lca).trans (exitTo_eq chain enough m)⟩
      · obtain ⟨exits, chain, enough⟩ := exits_of_ancestor (x := some source)
          (by rintro _ ⟨⟩; exact on)
        exact ⟨_, (selfWalk_eq (.some inside) source).trans (exitThrough_eq chain enough m)⟩
    · intro lca target m known inside
      obtain ⟨m', entered⟩ := enterPath_ok (h := h) lca target m
      exact ⟨m', (pathWalk_eq known inside).trans entered⟩
    · intro state m inside
      rw [initialWalk_eq inside]
      exact enterInitial_ok h.maxDepth inside m

end Coact.Hsm
