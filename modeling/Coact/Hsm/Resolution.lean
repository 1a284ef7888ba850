import Coact.Hsm.Topology

/-! What one event does. `dispatch` fires the first enabled transition of the innermost
state on the ancestor chain that has one; the boundary of an External transition is the
deepest common proper ancestor of source and target. -/
namespace Coact.Hsm
open Foundation
variable {C D : Type} (h : Hsm C D)

/-- Leave the states in the given order. -/
def exitAll (states : List Nat) (m : Machine C D) : Machine C D :=
  states.foldl (fun m s => h.runExit s m) m

/-- Enter the states in the given order. -/
def enterAll (states : List Nat) (m : Machine C D) : Machine C D :=
  states.foldl (fun m s => h.runEntry s m) m

/-- The initial descent from a state, outermost first, if it takes at most `left` hops. -/
def descent : (left : Nat) → (state : Nat) → Option (List Nat)
  | left, state =>
    match h.initialChild state with
    | none => some []
    | some child =>
      match left with
      | 0 => none
      | left + 1 => (descent left child).map (child :: ·)

/-- Enter the initial descent of `state`, whose last state becomes the current one. -/
def descend (state : Nat) (m : Machine C D) : Except Fault (Machine C D) :=
  match h.descent h.maxDepth state with
  | some path => .ok { h.enterAll path m with current := some (path.getLastD state) }
  | none => .error .chainTooLong

/-- The first enabled transition of the innermost state that has one, among the current
state and its ancestors within `max_depth` hops. -/
def resolve (evt : Event D) (m : Machine C D) : Option (Nat × TransitionDef C D) :=
  ((h.above m.current).take (h.maxDepth + 1)).findSome? fun s =>
    (h.transitions.find? (enabled m.ctx evt s)).map (s, ·)

/-- What firing a transition of `source` means. -/
inductive Fired (evt : Event D) (m : Machine C D) (source : Nat) (tran : TransitionDef C D) :
    Except Fault (Machine C D) → Prop where
  | internal : tran.kind = .Internal → Fired evt m source tran (.ok (runAction evt tran m))
  | self (exits) : tran.kind = .Self →
      h.above m.current = exits ++ h.above (h.parentOf source) →
      Fired evt m source tran
        (h.descend source (h.runEntry source (runAction evt tran (h.exitAll exits m))))
  | external (target boundary exits entries) : tran.kind = .External →
      index tran.target = some target → target < h.states.length →
      h.forest.Meets (h.parentOf source) (h.parentOf target) boundary →
      h.above m.current = exits ++ h.above boundary →
      h.above (some target) = entries.reverse ++ h.above boundary →
      Fired evt m source tran
        (h.descend target (h.enterAll entries (runAction evt tran (h.exitAll exits m))))
  | badTarget : tran.kind = .External →
      (∀ target, index tran.target = some target → ¬ target < h.states.length) →
      Fired evt m source tran (.error .target)

variable {h} {source target : Nat} {m : Machine C D} {evt : Event D}

theorem enterInitial_eq (left state : Nat) (m : Machine C D) :
    h.enterInitial left state m = match h.descent left state with
      | some path => .ok { h.enterAll path m with current := some (path.getLastD state) }
      | none => .error .chainTooLong := by
  induction left generalizing state m with
  | zero =>
    rw [enterInitial, descent]
    cases found : h.initialChild state with
    | none => rfl
    | some =>
      obtain ⟨inside, parent⟩ := h.parentOf_initialChild found
      simp only [if_pos inside, if_pos parent]
  | succ left ih =>
    rw [enterInitial, descent]
    cases found : h.initialChild state with
    | none => rfl
    | some child =>
      obtain ⟨inside, parent⟩ := h.parentOf_initialChild found
      simp only [if_pos inside, if_pos parent, ih]
      cases h.descent left child with
      | none => rfl
      | some => simp only [Option.map_some, List.getLastD_cons, enterAll, List.foldl_cons]

theorem enterInitialDescendants_eq (state : Nat) (m : Machine C D) :
    h.enterInitialDescendants state m = h.descend state m := enterInitial_eq h.maxDepth state m

/-- Below the end of a chain there is a state, and its parent is nearer to the end. -/
theorem above_cons {rest : List Nat} (chain : h.above x = s :: rest ++ h.above z) :
    x = some s ∧ x ≠ z ∧ h.above (h.parentOf s) = rest ++ h.above z := by
  have head := head_above (h := h) x
  rw [chain] at head
  obtain rfl : some s = x := head
  refine ⟨rfl, ?_, ?_⟩
  · rintro rfl
    have lengths := congrArg List.length chain
    rw [List.cons_append, List.length_cons, List.length_append] at lengths
    omega
  · rw [above_some] at chain
    exact (List.cons.inj chain).2

theorem exitTo_eq {exits : List Nat} {n : Nat} (chain : h.above x = exits ++ h.above z)
    (enough : exits.length < n) (m : Machine C D) :
    h.exitTo z n x m = .ok (h.exitAll exits m) := by
  induction exits generalizing x n m with
  | nil =>
    obtain ⟨n, rfl⟩ : ∃ k, n = k + 1 := ⟨n - 1, by omega⟩
    have same : x = z := Forest.above_injective (F := h.forest) chain
    unfold exitTo
    rw [if_pos same]
    rfl
  | cons s rest ih =>
    obtain ⟨n, rfl⟩ : ∃ k, n = k + 1 := ⟨n - 1, by omega⟩
    obtain ⟨rfl, apart, higher⟩ := above_cons chain
    unfold exitTo
    rw [if_neg apart]
    exact ih higher (Nat.lt_of_succ_lt_succ enough) _

theorem exitThrough_eq {before : List Nat} {n : Nat}
    (chain : h.above x = before ++ h.above (some source)) (enough : before.length < n)
    (m : Machine C D) :
    h.exitThrough source n x m = .ok (h.exitAll (before ++ [source]) m) := by
  induction before generalizing x n m with
  | nil =>
    obtain ⟨n, rfl⟩ : ∃ k, n = k + 1 := ⟨n - 1, by omega⟩
    obtain rfl : x = some source := Forest.above_injective (F := h.forest) chain
    rw [exitThrough, if_pos rfl]
    rfl
  | cons s rest ih =>
    obtain ⟨n, rfl⟩ : ∃ k, n = k + 1 := ⟨n - 1, by omega⟩
    obtain ⟨rfl, apart, higher⟩ := above_cons chain
    rw [exitThrough, if_neg fun same => apart (congrArg some same)]
    exact ih higher (Nat.lt_of_succ_lt_succ enough) _

theorem enterLevels_eq {levels states : List Nat}
    (ancestors : levels.map (h.ancestorAtDepth x) = states.map some) (m : Machine C D) :
    h.enterLevels x levels m = .ok (h.enterAll states m) := by
  induction levels generalizing states m with
  | nil =>
    obtain rfl : states = [] := List.map_eq_nil_iff.mp ancestors.symm
    rfl
  | cons _ _ ih =>
    cases states with
    | nil => cases ancestors
    | cons =>
      obtain ⟨here, later⟩ := List.cons.inj ancestors
      rw [enterLevels, here]
      exact ih later _

theorem enterPath_eq {entries : List Nat}
    (chain : h.above (some target) = entries.reverse ++ h.above z) (m : Machine C D) :
    h.enterPath z target m = .ok (h.enterAll entries m) := by
  have lengths := congrArg List.length chain
  rw [List.length_append, List.length_reverse] at lengths
  refine enterLevels_eq (List.ext_getElem ?_ ?_) m
  · rw [List.length_map, List.length_map, List.length_range', chainDepth_eq, chainDepth_eq]
    omega
  · intro i inside inside'
    rw [List.length_map] at inside'
    rw [List.getElem_map, List.getElem_map, List.getElem_range', ancestorAtDepth_eq, chainDepth_eq,
      lengths, chain, List.getElem?_append_left (by rw [List.length_reverse]; omega),
      List.getElem?_reverse (by omega)]
    rw [show entries.length - 1 - (entries.length + (h.above z).length -
      ((h.above z).length + 1 + 1 * i)) = i by omega, List.getElem?_eq_getElem inside']

theorem dispatchFrom_eq (evt : Event D) (m : Machine C D) (left state : Nat) :
    h.dispatchFrom evt m left state =
      match ((h.above (some state)).take (left + 1)).findSome? fun s =>
        (h.findTransition m.ctx evt s).map (s, ·) with
      | some (source, tran) => (h.executeTransition evt source tran m).map (·, true)
      | none => .ok (m, false) := by
  induction left generalizing state with
  | zero =>
    unfold dispatchFrom
    rw [above_some, List.take_succ_cons, List.take_zero, List.findSome?_cons]
    cases h.findTransition m.ctx evt state with
    | some => rfl
    | none => cases h.parentOf state <;> rfl
  | succ _ ih =>
    unfold dispatchFrom
    rw [above_some, List.take_succ_cons, List.findSome?_cons]
    cases h.findTransition m.ctx evt state with
    | some => rfl
    | none =>
      cases parent : h.parentOf state with
      | none =>
        rfl
      | some p => exact ih p

theorem dispatch_eq (evt : Event D) (m : Machine C D) :
    h.dispatch evt m = match h.resolve evt m with
      | some (source, tran) => (h.executeTransition evt source tran m).map (·, true)
      | none => .ok (m, false) := by
  rw [dispatch, resolve]
  cases m.current with
  | none =>
    rfl
  | some state => exact dispatchFrom_eq evt m h.maxDepth state

variable {tran : TransitionDef C D}

theorem resolve_mem (resolved : h.resolve evt m = some (source, tran)) :
    source ∈ h.above m.current ∧ tran ∈ h.transitions := by
  obtain ⟨s, mem, found⟩ := List.exists_of_findSome?_eq_some resolved
  obtain ⟨tran', first, same⟩ := Option.map_eq_some_iff.mp found
  cases same
  exact ⟨List.mem_of_mem_take mem, List.mem_of_find?_eq_some first⟩

theorem exists_split (part : h.above z <:+ h.above x) : ∃ front, h.above x = front ++ h.above z := by
  obtain ⟨front, whole⟩ := part
  exact ⟨front, whole.symm⟩

theorem executeTransition_fires (active : source ∈ h.above m.current) :
    h.Fired evt m source tran (h.executeTransition evt source tran m) := by
  have own : h.above (some source) <:+ h.above m.current := Forest.suffix_of_mem active
  have parents (s : Nat) : h.above (h.parentOf s) <:+ h.above (some s) := by
    rw [above_some]
    exact List.suffix_cons s _
  have short {z : Option Nat} {front : List Nat} (whole : h.above m.current = front ++ h.above z) :
      front.length < h.fuel := by
    have lengths := congrArg List.length whole
    rw [List.length_append] at lengths
    exact Nat.lt_of_le_of_lt (by omega) (above_length_lt (h := h) m.current)
  cases kind : tran.kind with
  | Internal =>
    rw [executeTransition, kind]
    exact .internal kind
  | Self =>
    obtain ⟨before, whole⟩ := exists_split own
    have exited := exitThrough_eq whole (short whole) m
    simp only [executeTransition, kind, exited, enterInitialDescendants_eq]
    refine .self (before ++ [source]) kind ?_
    rw [whole, above_some, List.append_cons]
  | External =>
    simp only [executeTransition, kind]
    cases raw : index tran.target with
    | none => exact .badTarget kind fun target found => by rw [raw] at found; cases found
    | some target =>
      by_cases inside : target < h.states.length
      · have meets := externalBoundary_meets (h := h) source target
        obtain ⟨exits, left⟩ := exists_split ((meets.left.trans (parents source)).trans own)
        obtain ⟨front, right⟩ := exists_split (meets.right.trans (parents target))
        rw [← List.reverse_reverse front] at right
        have exited := exitTo_eq left (short left) m
        simp only [if_pos inside, exited]
        change h.Fired evt m source tran (Except.bind (h.enterPath _ _ _) _)
        rw [enterPath_eq right]
        simp only [Except.bind, enterInitialDescendants_eq]
        exact .external target _ exits front.reverse kind raw inside meets left right
      · simp only [if_neg inside]
        refine .badTarget kind fun target' found => ?_
        rw [raw] at found
        cases found
        exact inside

/-- Resolution of an event, and nothing at all if no transition is enabled. -/
theorem dispatch_fires (h : Hsm C D) (evt : Event D) (m : Machine C D) :
    match h.resolve evt m with
    | some (source, tran) =>
      ∃ out, h.Fired evt m source tran out ∧ h.dispatch evt m = out.map (·, true)
    | none => h.dispatch evt m = .ok (m, false) := by
  have equation := dispatch_eq (h := h) evt m
  cases resolved : h.resolve evt m with
  | none =>
    rw [resolved] at equation
    exact equation
  | some =>
    rw [resolved] at equation
    exact ⟨_, executeTransition_fires (resolve_mem resolved).1, equation⟩

/-- `tran` is the first enabled transition in table order at `source`, and no state on
the way to it, within `max_depth` hops, has an enabled transition. -/
structure Innermost (h : Hsm C D) (evt : Event D) (m : Machine C D) (source : Nat)
    (tran : TransitionDef C D) : Prop where
  innermost : ∃ inner outer, (h.above m.current).take (h.maxDepth + 1) = inner ++ source :: outer ∧
    ∀ s ∈ inner, ∀ tran' ∈ h.transitions, enabled m.ctx evt s tran' = false
  first : ∃ earlier later, h.transitions = earlier ++ tran :: later ∧
    ∀ tran' ∈ earlier, enabled m.ctx evt source tran' = false
  enabled : enabled m.ctx evt source tran = true

theorem resolve_innermost (resolved : h.resolve evt m = some (source, tran)) :
    h.Innermost evt m source tran := by
  obtain ⟨inner, s, outer, whole, found, none⟩ := List.findSome?_eq_some_iff.mp resolved
  obtain ⟨tran', first, same⟩ := Option.map_eq_some_iff.mp found
  cases same
  obtain ⟨holds, earlier, later, table, before⟩ := List.find?_eq_some_iff_append.mp first
  constructor
  case innermost =>
    refine ⟨inner, outer, whole, fun s' mem tran' listed => ?_⟩
    have nothing := List.find?_eq_none.mp (Option.map_eq_none_iff.mp (none s' mem)) tran' listed
    exact Bool.eq_false_iff.mpr nothing
  case first =>
    refine ⟨earlier, later, table, fun tran' listed => ?_⟩
    simpa using before tran' listed
  case enabled => exact holds

theorem resolve_none (unresolved : h.resolve evt m = none) :
    ∀ s ∈ (h.above m.current).take (h.maxDepth + 1), ∀ tran ∈ h.transitions,
      enabled m.ctx evt s tran = false := by
  intro s mem tran listed
  have none := List.findSome?_eq_none_iff.mp unresolved s mem
  exact Bool.eq_false_iff.mpr (List.find?_eq_none.mp (Option.map_eq_none_iff.mp none) tran listed)

theorem event_resolution (h : Hsm C D) (evt : Event D) (m : Machine C D) :
    (∃ source tran out, h.Innermost evt m source tran ∧ h.Fired evt m source tran out ∧
      h.dispatch evt m = out.map (·, true)) ∨
    ((∀ s ∈ (h.above m.current).take (h.maxDepth + 1), ∀ tran ∈ h.transitions,
      enabled m.ctx evt s tran = false) ∧ h.dispatch evt m = .ok (m, false)) := by
  have fires := dispatch_fires h evt m
  cases resolved : h.resolve evt m with
  | some fired =>
    obtain ⟨source, tran⟩ := fired
    rw [resolved] at fires
    obtain ⟨out, outcome, dispatched⟩ := fires
    exact .inl ⟨source, tran, out, resolve_innermost resolved, outcome, dispatched⟩
  | none =>
    rw [resolved] at fires
    exact .inr ⟨resolve_none resolved, fires⟩

end Coact.Hsm
