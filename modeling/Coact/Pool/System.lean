import Coact.Foundation.Chain
import Coact.Foundation.Transition
import Coact.Pool.Batcher

/-! Clients of the pools: any sequence of initialisations, allocations, reference
increments, releases and flushes, with any number of batchers. Two ghosts go
along: the references the clients hold, by event, and the largest `used` of each
pool so far. -/
namespace Coact.Pool
open Foundation Function

structure State where
  heap : Heap
  tables : Nat → Table
  held : Nat → Nat
  peak : Nat → Nat

inductive Label where
  | init (g : PoolSpec)
  | alloc (k signal margin : Nat)
  | refInc (e : Nat)
  | gc (e : Nat)
  | release (b e : Nat)
  | flush (b : Nat)

def Heap.used (h : Heap) (k : Nat) : Nat :=
  match h.records[k]? with
  | none => 0
  | some r => r.used

namespace State

def initial (m : Mem) : State where
  heap := ⟨m, []⟩
  tables _ := []
  held _ := 0
  peak _ := 0

/-- The state after an operation, with the peak usage kept. -/
def settle (s : State) (h : Heap) (tables : Nat → Table) (held : Nat → Nat) : State :=
  ⟨h, tables, held, fun k => max (s.peak k) (h.used k)⟩

/-- The references held once event `e` has `n`; static events are not counted. -/
def recount (s : State) (e n : Nat) : Nat → Nat :=
  if eventPoolId s.heap.mem e = 0 then s.held else update s.held e n

def step (maxPending : Nat → Nat) : Label → State → Except Fault State
  | .init g, s => .ok (s.settle (s.heap.init g).1 s.tables s.held)
  | .alloc k signal margin, s =>
    match s.heap.allocWithMargin k signal margin with
    | (h, none) => .ok (s.settle h s.tables s.held)
    | (h, some e) => .ok (s.settle h s.tables (update s.held e 1))
  | .refInc e, s =>
    (s.heap.eventRefInc e).map fun h => s.settle h s.tables (s.recount e (s.held e + 1))
  | .gc e, s => (s.heap.eventGc e).map fun h => s.settle h s.tables (s.recount e (s.held e - 1))
  | .release b e, s =>
    (Pool.release (maxPending b) (s.tables b) s.heap e).map fun (t, h) =>
      s.settle h (update s.tables b t) (s.recount e (s.held e - 1))
  | .flush b, s =>
    .ok (s.settle (Pool.flush (s.tables b) s.heap) (update s.tables b []) s.held)

/-- A static event: its pool id is zero and it lies outside all pools. -/
def Static (s : State) (e : Nat) : Prop :=
  eventPoolId s.heap.mem e = 0 ∧
    ∀ r ∈ s.heap.records, e + 4 ≤ r.base ∨ r.base + r.capacity * r.blockSize ≤ e

instance (s : State) (e : Nat) : Decidable (s.Static e) :=
  inferInstanceAs (Decidable (_ ∧ _))

/-- What clients promise: storage is given to one pool only, and references are
used and released only by who holds them. -/
def Permitted : Label → State → Prop
  | .init g, s => ∀ r ∈ s.heap.records,
      g.storage + g.bytes ≤ r.base ∨ r.base + r.capacity * r.blockSize ≤ g.storage
  | .refInc e, s | .gc e, s | .release _ e, s => 0 < s.held e ∨ s.Static e
  | .alloc _ _ _, _ | .flush _, _ => True

instance (l : Label) (s : State) : Decidable (Permitted l s) :=
  match l with
  | .init _ => inferInstanceAs (Decidable (∀ _ ∈ _, _))
  | .refInc _ | .gc _ | .release _ _ => inferInstanceAs (Decidable (_ ∨ _))
  | .alloc _ _ _ | .flush _ => inferInstanceAs (Decidable True)

end State

/-- Reached from pools that are not initialised yet, over any memory. -/
def Reached (maxPending : Nat → Nat) (s : State) : Prop :=
  ∃ m, Reaches (State.step maxPending) State.Permitted (State.initial m) s

/-- The state after a schedule, from zeroed memory. -/
def runOf (maxPending : Nat → Nat) (schedule : List Label) : State :=
  outcome (State.step maxPending) schedule (State.initial fun _ => 0)

theorem reached_runOf {schedule : List Label}
    (done : passes (fun l s => decide (State.Permitted l s)) (State.step maxPending) schedule
      (State.initial fun _ => 0) = true) : Reached maxPending (runOf maxPending schedule) :=
  ⟨_, reaches_decided done⟩

/-- The free list of a pool, as far as the capacity. -/
def freeBlocks (m : Mem) (r : PoolRecord) : Option (List Nat) :=
  walk (r.loadNext m) poolIndexInvalid r.capacity (poolHeadIndex r.freeHead)

/-- The pending chain of pool `k` in a table. -/
def pendingBlocks (m : Mem) (t : Table) (k : Nat) (r : PoolRecord) : List Nat :=
  match t.entry k with
  | none => []
  | some p => follow (r.loadNext m) p.count p.first

end Coact.Pool
