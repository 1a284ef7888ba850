import Coact.Foundation.Transition
import Coact.Hsm.Resolution

/-! The active configuration over whole runs: what has been entered and not yet exited
is the ancestor chain of the current state, and every transition leaves innermost
first, acts, and enters outermost first. -/
namespace Coact.Hsm
open Foundation
variable {C D : Type}

def Step.effect (active : List Nat) : Step C D → List Nat
  | .exit s => active.erase s
  | .action _ => active
  | .enter s => s :: active

/-- The states entered and not yet exited, the latest first. -/
def active (trace : List (Step C D)) : List Nat := trace.foldl Step.effect []

/-- No state is exited while inactive or entered while active. -/
structure Legal (trace : List (Step C D)) : Prop where
  exits : ∀ before s, before ++ [.exit s] <+: trace → s ∈ active before
  entries : ∀ before s, before ++ [.enter s] <+: trace → s ∉ active before

/-- The active states are the ancestor chain of the current one, a leaf of the initial
descent. -/
structure Configured (h : Hsm C D) (m : Machine C D) : Prop where
  active : active m.trace = h.above m.current
  once : (h.above m.current).Nodup
  legal : Legal m.trace
  leaf : ∀ s, m.current = some s → h.initialChild s = none

/-- Exits innermost first, then the action, then entries outermost first. -/
structure Crossed (h : Hsm C D) (m m' : Machine C D) (tran : TransitionDef C D)
    (exits entries : List Nat) : Prop where
  trace : m'.trace = m.trace ++ (exits.map .exit ++ [.action tran] ++ entries.map .enter)
  inward : exits <+: h.above m.current
  outward : entries.reverse <+: h.above m'.current
  quiet : tran.kind = .Internal → exits = [] ∧ entries = []

section
variable {trace : List (Step C D)}

theorem active_snoc (trace : List (Step C D)) (step : Step C D) :
    active (trace ++ [step]) = step.effect (active trace) := by
  rw [active, List.foldl_append]
  rfl

theorem Legal.exit (legal : Legal trace) (mem : s ∈ active trace) : Legal (trace ++ [.exit s]) := by
  constructor
  case exits =>
    intro before t part
    rcases snoc_prefix part with ⟨rfl, same⟩ | shorter
    · cases same
      exact mem
    · exact legal.exits before t shorter
  case entries =>
    intro before t part
    rcases snoc_prefix part with ⟨-, other⟩ | shorter
    · cases other
    · exact legal.entries before t shorter

theorem Legal.enter (legal : Legal trace) (fresh : s ∉ active trace) :
    Legal (trace ++ [.enter s]) := by
  constructor
  case exits =>
    intro before t part
    rcases snoc_prefix part with ⟨-, other⟩ | shorter
    · cases other
    · exact legal.exits before t shorter
  case entries =>
    intro before t part
    rcases snoc_prefix part with ⟨rfl, same⟩ | shorter
    · cases same
      exact fresh
    · exact legal.entries before t shorter

theorem Legal.action (legal : Legal trace) (tran : TransitionDef C D) :
    Legal (trace ++ [.action tran]) := by
  constructor
  case exits =>
    intro before t part
    rcases snoc_prefix part with ⟨-, other⟩ | shorter
    · cases other
    · exact legal.exits before t shorter
  case entries =>
    intro before t part
    rcases snoc_prefix part with ⟨-, other⟩ | shorter
    · cases other
    · exact legal.entries before t shorter

end

section
variable {h : Hsm C D} {m : Machine C D} {rest : List Nat}

theorem exitAll_active {exits : List Nat} (legal : Legal m.trace)
    (inside : active m.trace = exits ++ rest) :
    Legal (h.exitAll exits m).trace ∧ active (h.exitAll exits m).trace = rest ∧
      (h.exitAll exits m).trace = m.trace ++ exits.map .exit := by
  induction exits generalizing m with
  | nil => exact ⟨legal, inside, (List.append_nil _).symm⟩
  | cons s exits ih =>
    have left : active (h.runExit s m).trace = exits ++ rest := by
      change active (m.trace ++ [.exit s]) = _
      rw [active_snoc, inside]
      exact List.erase_cons_head s (exits ++ rest)
    have mem : s ∈ active m.trace := by
      rw [inside]
      exact List.mem_cons_self
    obtain ⟨legal', active', trace⟩ := ih (m := h.runExit s m) (legal.exit mem) left
    refine ⟨legal', active', trace.trans ?_⟩
    change (m.trace ++ [.exit s]) ++ _ = _
    rw [List.map_cons, List.append_assoc]
    rfl

variable {entries : List Nat}

theorem enterAll_active (legal : Legal m.trace) (inside : active m.trace = rest)
    (fresh : (entries.reverse ++ rest).Nodup) : Legal (h.enterAll entries m).trace ∧
      active (h.enterAll entries m).trace = entries.reverse ++ rest ∧
      (h.enterAll entries m).trace = m.trace ++ entries.map .enter := by
  induction entries generalizing m rest with
  | nil => exact ⟨legal, inside, (List.append_nil _).symm⟩
  | cons s entries ih =>
    rw [List.reverse_cons, List.append_assoc, List.singleton_append] at fresh ⊢
    have added : active (h.runEntry s m).trace = s :: rest := by
      change active (m.trace ++ [.enter s]) = _
      rw [active_snoc, inside]
      rfl
    have outside : s ∉ active m.trace := by
      rw [inside]
      exact (List.nodup_cons.mp (List.nodup_append.mp fresh).2.1).1
    obtain ⟨legal', active', trace⟩ := ih (m := h.runEntry s m) (legal.enter outside) added fresh
    refine ⟨legal', active', trace.trans ?_⟩
    change (m.trace ++ [.enter s]) ++ _ = _
    rw [List.map_cons, List.append_assoc]
    rfl

theorem descent_above {left state : Nat} (found : h.descent left state = some path) :
    h.above (some (path.getLastD state)) = path.reverse ++ h.above (some state) ∧
      h.initialChild (path.getLastD state) = none := by
  induction left generalizing state path with
  | zero =>
    rw [descent] at found
    split at found <;> cases found
    rename_i leaf
    exact ⟨rfl, leaf⟩
  | succ left ih =>
    rw [descent] at found
    split at found
    · rename_i leaf
      cases found
      exact ⟨rfl, leaf⟩
    · rename_i child initial
      obtain ⟨path, below, rfl⟩ := Option.map_eq_some_iff.mp found
      obtain ⟨chain, leaf⟩ := ih below
      rw [List.getLastD_cons]
      refine ⟨?_, leaf⟩
      rw [chain, above_some, (h.parentOf_initialChild initial).2, List.reverse_cons,
        List.append_assoc]
      rfl

theorem configured_enter {leaf : Nat} (legal : Legal m.trace) (inside : active m.trace = rest)
    (chain : h.above (some leaf) = entries.reverse ++ rest) (last : h.initialChild leaf = none) :
    h.Configured { h.enterAll entries m with current := some leaf } ∧
      (h.enterAll entries m).trace = m.trace ++ entries.map .enter := by
  have fresh : (entries.reverse ++ rest).Nodup := chain ▸ h.above_nodup (some leaf)
  obtain ⟨legal', active', trace⟩ := enterAll_active (h := h) legal inside fresh
  refine ⟨⟨active'.trans chain.symm, h.above_nodup _, legal', ?_⟩, trace⟩
  intro s same
  cases same
  exact last

theorem configured_cross (evt : Event D) (tran : TransitionDef C D) {exits : List Nat}
    {base : List Nat} {leaf : Nat} (conf : h.Configured m) (out : h.above m.current = exits ++ base)
    (chain : h.above (some leaf) = entries.reverse ++ base) (last : h.initialChild leaf = none)
    (crosses : tran.kind ≠ .Internal) :
    h.Configured { h.enterAll entries (runAction evt tran (h.exitAll exits m)) with
        current := some leaf } ∧
      h.Crossed m { h.enterAll entries (runAction evt tran (h.exitAll exits m)) with
        current := some leaf } tran exits entries := by
  obtain ⟨legal, left, traceOut⟩ := exitAll_active (h := h) conf.legal (conf.active.trans out)
  have acted : active (runAction evt tran (h.exitAll exits m)).trace = base := by
    change active ((h.exitAll exits m).trace ++ [.action tran]) = base
    rw [active_snoc]
    exact left
  obtain ⟨conf', traceIn⟩ := configured_enter (legal.action tran) acted chain last
  refine ⟨conf', ?_⟩
  constructor
  case trace =>
    refine traceIn.trans ?_
    change ((h.exitAll exits m).trace ++ [.action tran]) ++ _ = _
    rw [traceOut, List.append_assoc, List.append_assoc, List.append_assoc]
  case inward =>
    rw [out]
    exact List.prefix_append exits base
  case outward =>
    change entries.reverse <+: h.above (some leaf)
    rw [chain]
    exact List.prefix_append _ base
  case quiet => exact fun internal => (crosses internal).elim

end

/-- An index of a state of the table. -/
def InRange (h : Hsm C D) (i : Int) : Prop := 0 ≤ i ∧ i < h.states.length

/-- What an application owes: targets inside the table, and initial chains within
`max_depth`. -/
structure WellFormed (h : Hsm C D) : Prop where
  targets : ∀ tran ∈ h.transitions, tran.kind = .External → h.InRange tran.target
  chains : ∀ s, (h.descent h.maxDepth s).isSome

section
variable {h : Hsm C D} {m : Machine C D} {evt : Event D}

theorem InRange.index (inside : h.InRange i) : ∃ n, index i = some n ∧ n < h.states.length := by
  refine ⟨i.toNat, if_pos inside.1, ?_⟩
  have := inside.2
  have := inside.1
  omega

theorem WellFormed.descend (well : h.WellFormed) (state : Nat) (m : Machine C D) :
    ∃ path leaf, h.descend state m = .ok { h.enterAll path m with current := some leaf } ∧
      h.above (some leaf) = path.reverse ++ h.above (some state) ∧
      h.initialChild leaf = none := by
  obtain ⟨path, found⟩ := Option.isSome_iff_exists.mp (well.chains state)
  obtain ⟨chain, leaf⟩ := descent_above found
  refine ⟨path, path.getLastD state, ?_, chain, leaf⟩
  rw [Hsm.descend, found]

theorem enterAll_append (first second : List Nat) (m : Machine C D) :
    h.enterAll second (h.enterAll first m) = h.enterAll (first ++ second) m :=
  (List.foldl_append ..).symm

theorem Fired.configured (well : h.WellFormed) (conf : h.Configured m) {source : Nat}
    (listed : tran ∈ h.transitions)
    {out : Except Fault (Machine C D)} (fired : h.Fired evt m source tran out) :
    ∃ m' exits entries, out = .ok m' ∧ h.Configured m' ∧ h.Crossed m m' tran exits entries := by
  cases fired with
  | internal kind =>
    refine ⟨_, [], [], rfl, ⟨?_, conf.once, conf.legal.action tran, conf.leaf⟩, ?_⟩
    · change active (m.trace ++ [.action tran]) = _
      rw [active_snoc]
      exact conf.active
    · exact ⟨rfl, List.nil_prefix, List.nil_prefix, fun _ => ⟨rfl, rfl⟩⟩
  | self exits kind outward =>
    obtain ⟨path, leaf, done, chain, last⟩ := well.descend source
      (h.runEntry source (runAction evt tran (h.exitAll exits m)))
    have whole : h.above (some leaf) = (source :: path).reverse ++ h.above (h.parentOf source) := by
      rw [chain, h.above_some source, List.reverse_cons, List.append_assoc]
      rfl
    have crossed := configured_cross evt tran conf outward whole last (by rw [kind]; simp)
    exact ⟨_, exits, source :: path, done, crossed.1, crossed.2⟩
  | external target boundary exits entries kind raw inside meets outward inward =>
    obtain ⟨path, leaf, done, chain, last⟩ := well.descend target
      (h.enterAll entries (runAction evt tran (h.exitAll exits m)))
    rw [inward, ← List.append_assoc, ← List.reverse_append] at chain
    rw [enterAll_append] at done
    have crossed := configured_cross evt tran conf outward chain last (by rw [kind]; simp)
    exact ⟨_, exits, entries ++ path, done, crossed.1, crossed.2⟩
  | badTarget kind outside =>
    obtain ⟨n, raw, inside⟩ := (well.targets tran listed kind).index
    exact (outside n raw inside).elim

theorem Configured.dispatch (conf : h.Configured m) (well : h.WellFormed) (evt : Event D) :
    (h.dispatch evt m = .ok (m, false)) ∨
      ∃ m' tran exits entries, h.dispatch evt m = .ok (m', true) ∧ tran ∈ h.transitions ∧
        h.Configured m' ∧ h.Crossed m m' tran exits entries := by
  have fires := dispatch_fires h evt m
  cases resolved : h.resolve evt m with
  | none =>
    rw [resolved] at fires
    exact .inl fires
  | some fired =>
    obtain ⟨source, tran⟩ := fired
    rw [resolved] at fires
    obtain ⟨out, outcome, dispatched⟩ := fires
    have listed := (resolve_mem resolved).2
    obtain ⟨m', exits, entries, rfl, conf', crossed⟩ := outcome.configured well conf listed
    exact .inr ⟨m', tran, exits, entries, dispatched, listed, conf', crossed⟩

theorem configured_idle (h : Hsm C D) (ctx : C) : h.Configured (idle ctx) where
  active := h.above_none.symm
  once := h.above_nodup none
  legal := by
    constructor
    · intro before s part
      simp [idle] at part
    · intro before s part
      simp [idle] at part
  leaf := fun _ never => by cases never

theorem init_configured (well : h.WellFormed) (ctx : C) :
    ∃ m, h.init (idle ctx) = .ok m ∧ h.Configured m := by
  have idled := configured_idle h ctx
  rw [Hsm.init]
  cases raw : index h.initialState with
  | none => exact ⟨idle ctx, rfl, idled⟩
  | some initial =>
    by_cases inside : initial < h.states.length
    · have whole : h.above (some initial) = (h.above (some initial)).reverse.reverse ++ h.above none := by
        rw [List.reverse_reverse, above_none, List.append_nil]
      simp only [if_pos inside]
      change ∃ m, Except.bind (h.enterPath none initial (idle ctx)) _ = .ok m ∧ _
      rw [enterPath_eq whole]
      simp only [Except.bind, enterInitialDescendants_eq]
      obtain ⟨path, leaf, done, chain, last⟩ := well.descend initial
        (h.enterAll (h.above (some initial)).reverse (idle ctx))
      rw [whole, ← List.append_assoc, ← List.reverse_append] at chain
      rw [enterAll_append] at done
      exact ⟨_, done, (configured_enter idled.legal idled.active chain last).1⟩
    · simp only [if_neg inside]
      exact ⟨idle ctx, rfl, idled⟩

theorem dispatchAll_configured (well : h.WellFormed) (events : List (Event D))
    (conf : h.Configured m) : ∃ m', h.dispatchAll events m = .ok m' ∧ h.Configured m' := by
  induction events generalizing m with
  | nil => exact ⟨m, rfl, conf⟩
  | cons evt rest ih =>
    rw [dispatchAll]
    rcases conf.dispatch well evt with ignored | ⟨m', tran, exits, entries, done, -, conf', -⟩
    · rw [ignored]
      exact ih conf
    · rw [done]
      exact ih conf'

theorem configuration_discipline (h : Hsm C D) (well : h.WellFormed) (ctx : C)
    (events : List (Event D)) :
    ∃ m, h.run ctx events = .ok m ∧ h.Configured m ∧ ∀ evt,
      h.dispatch evt m = .ok (m, false) ∨
        ∃ m' tran exits entries, h.dispatch evt m = .ok (m', true) ∧ tran ∈ h.transitions ∧
          h.Configured m' ∧ h.Crossed m m' tran exits entries := by
  obtain ⟨m₀, started, conf₀⟩ := init_configured well ctx
  obtain ⟨m, ran, conf⟩ := dispatchAll_configured well events conf₀
  refine ⟨m, ?_, conf, fun evt => ?_⟩
  · change Except.bind (h.init (idle ctx)) _ = _
    rw [started]
    exact ran
  · exact conf.dispatch well evt

end

/-- A root with two substates, the second of which has a substate of its own; every
entry counts. -/
def nested : Hsm Nat Unit where
  states := [⟨-1, some (· + 1), none, 1⟩, ⟨0, some (· + 1), none, -1⟩, ⟨0, some (· + 1), none, 3⟩,
    ⟨2, some (· + 1), some (· + 10), -1⟩]
  transitions := [⟨1, 5, 2, .External, some fun ctx _ => ctx == 2, none⟩,
    ⟨2, 6, 0, .Self, none, some fun ctx _ => ctx + 100⟩]
  initialState := 0
  maxDepth := 2
  valid := by decide

theorem nested_wellFormed : nested.WellFormed where
  targets := by
    intro tran listed kind
    rcases List.mem_cons.mp listed with rfl | listed
    · exact ⟨by decide, by decide⟩
    · rcases List.mem_singleton.mp listed with rfl
      cases kind
  chains := by
    intro s
    match s with
    | 0 | 1 | 2 | 3 => rfl
    | s + 4 => rfl

theorem configuration_discipline_nested :
    ((nested.run 0 [⟨5, ()⟩, ⟨6, ()⟩]).toOption.map fun m => (m.ctx, m.current)) =
        some (116, some 3) ∧
      ∃ m, nested.run 0 [⟨5, ()⟩, ⟨6, ()⟩] = .ok m ∧ nested.Configured m ∧ ∀ evt,
        nested.dispatch evt m = .ok (m, false) ∨
          ∃ m' tran exits entries, nested.dispatch evt m = .ok (m', true) ∧
            tran ∈ nested.transitions ∧ nested.Configured m' ∧
            nested.Crossed m m' tran exits entries :=
  ⟨by decide +kernel, configuration_discipline nested nested_wellFormed 0 [⟨5, ()⟩, ⟨6, ()⟩]⟩

end Coact.Hsm
