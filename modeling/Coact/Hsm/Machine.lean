import Mathlib.Data.List.Basic

/-! The hierarchical state machine of `hsm.hpp`, function by function. A state index
is an `int8_t` whose value -1 means none; the tables keep it as an integer, the
functions as an optional number. A failed `COACT_ASSERT` is a `Fault`, and so is a
read outside the state table. -/
namespace Coact

inductive TransitionKind where
  | External | Internal | Self

namespace Hsm

structure Event (D : Type) where
  signal : Nat
  body : D

end Hsm

structure StateDef (C : Type) where
  parent : Int
  entry : Option (C → C)
  exit : Option (C → C)
  initialChild : Int := -1

structure TransitionDef (C D : Type) where
  source : Int
  signal : Nat
  target : Int
  kind : TransitionKind
  guard : Option (C → Hsm.Event D → Bool)
  action : Option (C → Hsm.Event D → C)

section
variable {C : Type} (states : List (StateDef C))

/-- The parent walk of `validate_topology`; `left` is how many more hops its assertion
allows. -/
def validateChain : (left : Nat) → (state : Int) → Bool
  | 0, state => decide (state < 0)
  | left + 1, state => decide (state < 0) ||
      match states[state.toNat]? with
      | some d => validateChain left d.parent
      | none => false

def validateState (index : Nat) (d : StateDef C) : Bool :=
  -1 ≤ d.parent ∧ -1 ≤ d.initialChild ∧
    (0 ≤ d.initialChild → states[d.initialChild.toNat]?.map StateDef.parent = some (index : Int)) ∧
    validateChain states states.length index

/-- No assertion of `validate_topology` fires. -/
def validateTopology : Bool :=
  states.length ≤ 128 ∧ ∀ entry ∈ states.zipIdx, validateState states entry.2 entry.1

end

/-- A machine that its constructor has accepted. -/
structure Hsm (C D : Type) where
  states : List (StateDef C)
  transitions : List (TransitionDef C D)
  initialState : Int
  maxDepth : Nat
  valid : validateTopology states = true

namespace Hsm
variable {C D : Type}

inductive Fault where
  | target | childRange | childParent | chainTooLong | outOfBounds | diverges

/-- What an application can observe of a machine at work. -/
inductive Step (C D : Type) where
  | exit (s : Nat)
  | action (tran : TransitionDef C D)
  | enter (s : Nat)

/-- `trace` is a ghost: the states left and entered and the transitions run so far. -/
structure Machine (C D : Type) where
  ctx : C
  current : Option Nat
  trace : List (Step C D)

/-- An `int8_t` state index. -/
def index (i : Int) : Option Nat := if 0 ≤ i then some i.toNat else none

variable (h : Hsm C D)

def parentOf (s : Nat) : Option Nat := h.states[s]?.bind fun d => index d.parent

def initialChild (s : Nat) : Option Nat := h.states[s]?.bind fun d => index d.initialChild

/-- More turns than a parent walk over a valid table can take. -/
def fuel : Nat := h.states.length + 2

def chainDepthFrom : Nat → Option Nat → Nat → Nat
  | 0, _, depth => depth
  | _ + 1, none, depth => depth
  | n + 1, some s, depth => chainDepthFrom n (h.parentOf s) (depth + 1)

def chainDepth (state : Option Nat) : Nat := h.chainDepthFrom h.fuel state 0

/-- `n` turns of `state = parent_of(state)`. -/
def climb : Nat → Option Nat → Option Nat
  | 0, state => state
  | n + 1, state => climb n (state.bind h.parentOf)

def ancestorAtDepth (state : Option Nat) (depth : Nat) : Option Nat :=
  h.climb (h.chainDepth state - depth) state

/-- The last loop of `find_lca`, on two states of the same depth. -/
def meet : Nat → Option Nat → Option Nat → Option Nat
  | 0, a, _ => a
  | n + 1, a, b =>
    if a = b then a
    else
      match a, b with
      | some s, some t => meet n (h.parentOf s) (h.parentOf t)
      | _, _ => none

def findLca (a b : Option Nat) : Option Nat :=
  h.meet h.fuel (h.climb (h.chainDepth a - h.chainDepth b) a)
    (h.climb (h.chainDepth b - h.chainDepth a) b)

/-- A candidate of `find_transition`. -/
def enabled (ctx : C) (evt : Event D) (source : Nat) (tran : TransitionDef C D) : Bool :=
  tran.source = source ∧ tran.signal = evt.signal ∧ tran.guard.all (· ctx evt)

def findTransition (ctx : C) (evt : Event D) (source : Nat) : Option (TransitionDef C D) :=
  h.transitions.find? (enabled ctx evt source)

/-- Call a callback that may be null. -/
def called (callback : Option (C → C)) (ctx : C) : C := callback.elim ctx (· ctx)

def runExit (s : Nat) (m : Machine C D) : Machine C D :=
  { m with
    ctx := called (h.states[s]?.bind StateDef.exit) m.ctx
    trace := m.trace ++ [.exit s] }

def runEntry (s : Nat) (m : Machine C D) : Machine C D :=
  { m with
    ctx := called (h.states[s]?.bind StateDef.entry) m.ctx
    trace := m.trace ++ [.enter s] }

def runAction (evt : Event D) (tran : TransitionDef C D) (m : Machine C D) : Machine C D :=
  { m with
    ctx := called (tran.action.map fun action ctx => action ctx evt) m.ctx
    trace := m.trace ++ [.action tran] }

/-- `exit_to_lca`, from `state` on. -/
def exitTo (lca : Option Nat) : Nat → Option Nat → Machine C D → Except Fault (Machine C D)
  | 0, _, _ => .error .diverges
  | n + 1, state, m =>
    if state = lca then .ok m
    else
      match state with
      | some s => exitTo lca n (h.parentOf s) (h.runExit s m)
      | none => .error .outOfBounds

/-- The exit loop of a Self transition: up to and including the source. -/
def exitThrough (source : Nat) : Nat → Option Nat → Machine C D → Except Fault (Machine C D)
  | 0, _, _ => .error .diverges
  | _ + 1, none, _ => .error .outOfBounds
  | n + 1, some s, m =>
    if s = source then .ok (h.runExit s m)
    else exitThrough source n (h.parentOf s) (h.runExit s m)

/-- `enter_path` over the given levels. -/
def enterLevels (target : Option Nat) : List Nat → Machine C D → Except Fault (Machine C D)
  | [], m => .ok m
  | level :: rest, m =>
    match h.ancestorAtDepth target level with
    | some s => enterLevels target rest (h.runEntry s m)
    | none => .error .outOfBounds

def enterPath (lca : Option Nat) (target : Nat) (m : Machine C D) : Except Fault (Machine C D) :=
  h.enterLevels (some target)
    (List.range' (h.chainDepth lca + 1) (h.chainDepth (some target) - h.chainDepth lca)) m

/-- `enter_initial_descendants`; `left` is how many more hops its assertion allows. The
state reached becomes the current one. -/
def enterInitial : (left : Nat) → (state : Nat) → Machine C D → Except Fault (Machine C D)
  | left, state, m =>
    match h.initialChild state with
    | none => .ok { m with current := some state }
    | some child =>
      if child < h.states.length then
        if h.parentOf child = some state then
          match left with
          | 0 => .error .chainTooLong
          | left + 1 => enterInitial left child (h.runEntry child m)
        else .error .childParent
      else .error .childRange

def enterInitialDescendants (state : Nat) (m : Machine C D) : Except Fault (Machine C D) :=
  h.enterInitial h.maxDepth state m

/-- The boundary of an External transition. -/
def externalBoundary (source target : Nat) : Option Nat :=
  let lca := h.findLca (some source) (some target)
  if lca = some source ∨ lca = some target then lca.bind h.parentOf else lca

def executeTransition (evt : Event D) (source : Nat) (tran : TransitionDef C D)
    (m : Machine C D) : Except Fault (Machine C D) :=
  match tran.kind with
  | .Internal => .ok (runAction evt tran m)
  | .Self => do
    let m ← h.exitThrough source h.fuel m.current m
    h.enterInitialDescendants source (h.runEntry source (runAction evt tran m))
  | .External =>
    match index tran.target with
    | none => .error .target
    | some target =>
      if target < h.states.length then do
        let lca := h.externalBoundary source target
        let m ← h.exitTo lca h.fuel m.current m
        let m ← h.enterPath lca target (runAction evt tran m)
        h.enterInitialDescendants target m
      else .error .target

def init (m : Machine C D) : Except Fault (Machine C D) :=
  match index h.initialState with
  | none => .ok m
  | some initial =>
    if initial < h.states.length then do
      let m ← h.enterPath none initial m
      h.enterInitialDescendants initial m
    else .ok m

/-- The bubbling loop of `dispatch`; `left` is how many more hops it may take. -/
def dispatchFrom (evt : Event D) (m : Machine C D) :
    (left : Nat) → (state : Nat) → Except Fault (Machine C D × Bool)
  | left, state =>
    match h.findTransition m.ctx evt state with
    | some tran => (h.executeTransition evt state tran m).map (·, true)
    | none =>
      match h.parentOf state, left with
      | some parent, left + 1 => dispatchFrom evt m left parent
      | _, _ => .ok (m, false)

def dispatch (evt : Event D) (m : Machine C D) : Except Fault (Machine C D × Bool) :=
  match m.current with
  | none => .ok (m, false)
  | some state => h.dispatchFrom evt m h.maxDepth state

/-- A machine that is not initialized. -/
def idle (ctx : C) : Machine C D := ⟨ctx, none, []⟩

/-- `dispatch` of one event after another. -/
def dispatchAll : List (Event D) → Machine C D → Except Fault (Machine C D)
  | [], m => .ok m
  | evt :: rest, m =>
    match h.dispatch evt m with
    | .ok (m', _) => dispatchAll rest m'
    | .error e => .error e

/-- `init`, then the events in order. -/
def run (ctx : C) (events : List (Event D)) : Except Fault (Machine C D) := do
  let m ← h.init (idle ctx)
  h.dispatchAll events m

end Hsm

end Coact
