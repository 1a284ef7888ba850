import Coact.Coro.Orderly

/-! `TaskGroup` and `GroupBuilder` (`coro/combinators.hpp`). A group belongs to one thread,
but the two registries are shared: between any two of its accesses to them, other
operations may run. `evaluate` is therefore given by its accesses, one a step. -/
namespace Coact.Coro
open Foundation

/-- Aggregate outcome of a settled group. -/
structure GroupStatus where
  succeeded : UInt16
  failed : UInt16
  firstError : TaskError
  deriving DecidableEq, Repr

inductive GroupMode where
  | kAll | kAny | kSome
  deriving DecidableEq, Repr

inductive GroupError where
  | kOk | kRegistryFull | kTooManyInputs | kZeroCount | kInvalidTask
  deriving DecidableEq, Repr

/-- `Promise`, `bound` to the group registry or moved from. -/
structure Promise where
  bound : Bool := false
  id : TaskId := kInvalidTaskId

def Promise.isValid (p : Promise) : Bool := p.bound && decide (p.id ≠ kInvalidTaskId)

/-- The static assertions on the capacity are fields, and so is what the builder ensures. -/
structure TaskGroup (capacity : Nat) where
  inputs : Fin capacity → TaskId
  groupId : TaskId
  completedMask : BitVec 32 := 0
  successCount : UInt16 := 0
  failureCount : UInt16 := 0
  firstError : TaskError := .kOk
  settled : Bool := false
  liveCount : UInt16
  promise : Promise
  fits : capacity ≤ 32
  live_le : liveCount.toNat ≤ capacity
  promised : groupId ≠ kInvalidTaskId → promise.isValid = true

/-- The policy and the threshold of a call of `evaluate`. -/
structure Call where
  mode : GroupMode
  threshold : UInt16
  deriving DecidableEq, Repr

def GroupStatus.satisfiedCount (status : GroupStatus) : UInt16 := status.succeeded + status.failed

/-- The `switch` of `evaluate`. -/
def Call.satisfied (call : Call) (liveCount : UInt16) (status : GroupStatus) : Bool :=
  match call.mode with
  | .kAll => status.satisfiedCount = liveCount
  | .kAny => 0 ≠ status.satisfiedCount
  | .kSome => call.threshold ≤ status.satisfiedCount

namespace TaskGroup
variable {capacity : Nat}

/-- The loop of `make` over the live inputs. -/
def bindInputs (inputs : Fin capacity → TaskId) :
    List (Fin capacity) → (Fin capacity → TaskId) → Option (Fin capacity → TaskId)
  | [], bound => some bound
  | i :: rest, bound =>
    if kInvalidTaskId = inputs i then none
    else bindInputs inputs rest (Function.update bound i (inputs i))

theorem promised_same {id : TaskId} (valid : id ≠ kInvalidTaskId) :
    (Promise.mk true id).isValid = true := by
  exact decide_eq_true valid

def make {n : Nat} (fits : capacity ≤ 32) (registry : Registry GroupStatus n)
    (inputs : Fin capacity → TaskId) (count : UInt16) (waiter : TargetId) (signal : UInt16) :
    Registry GroupStatus n × Except GroupError (TaskGroup capacity) :=
  if 0 = count then (registry, .error .kZeroCount)
  else if few : count.toNat ≤ capacity then
    match registry.create waiter signal ⟨false, false⟩ with
    | (registry', .error _) => (registry', .error .kRegistryFull)
    | (registry', .ok id) =>
      match bindInputs inputs ((List.finRange capacity).take count.toNat)
          (fun _ => kInvalidTaskId) with
      | none => ((registry'.releaseTask id).1, .error .kInvalidTask)
      | some bound => (registry', .ok
        { inputs := bound
          groupId := id
          liveCount := count
          promise := ⟨true, id⟩
          fits := fits
          live_le := few
          promised := promised_same })
  else (registry, .error .kTooManyInputs)

/-- Nothing has been counted in a new group. -/
structure Fresh (g : TaskGroup capacity) : Prop where
  completedMask : g.completedMask = 0
  successCount : g.successCount = 0
  failureCount : g.failureCount = 0
  firstError : g.firstError = .kOk
  settled : g.settled = false

theorem fresh_make {n : Nat} {fits : capacity ≤ 32} {registry registry' : Registry GroupStatus n}
    {inputs : Fin capacity → TaskId} {count signal : UInt16} {waiter : TargetId}
    (made : make fits registry inputs count waiter signal = (registry', .ok g)) : g.Fresh := by
  unfold make at made
  split at made
  · cases made
  · split at made
    · split at made
      · cases made
      · split at made <;> cases made
        exact ⟨rfl, rfl, rfl, rfl, rfl⟩
    · cases made

variable (g : TaskGroup capacity)

def isValid : Bool := g.groupId ≠ kInvalidTaskId

def status : GroupStatus := ⟨g.successCount, g.failureCount, g.firstError⟩

/-- `completed_mask_ & bit`. -/
def marked (i : Nat) : Bool := g.completedMask &&& (1#32 <<< i) ≠ 0

@[simps] def mark (i : Nat) : TaskGroup capacity :=
  { g with completedMask := g.completedMask ||| (1#32 <<< i) }

@[simps] def countFailure : TaskGroup capacity := { g with failureCount := g.failureCount + 1 }

@[simps] def countSuccess : TaskGroup capacity := { g with successCount := g.successCount + 1 }

@[simps] def blame (err : TaskError) : TaskGroup capacity := { g with firstError := err }

def settle : TaskGroup capacity := { g with settled := true }

theorem unpromised {p : Promise} (never : kInvalidTaskId ≠ kInvalidTaskId) : p.isValid = true :=
  (never rfl).elim

/-- The group after `release`. -/
def released : TaskGroup capacity :=
  { g with groupId := kInvalidTaskId, settled := false, promised := unpromised }

end TaskGroup

namespace Group

/-- Where `evaluate` is: the loop, between marking an input and reading whether it has an
error, before reading that error, past the loop, and about to return. -/
inductive Stage (capacity : Nat) where
  | look (i : Nat)
  | check (i : Fin capacity)
  | blame (i : Fin capacity)
  | judge
  | done (result : Except GroupError Bool)

/-- What the calls on the group report. `completed` comes with the waiter of the aggregate
task, if its handle resolves, and with the delivery of its completion event. -/
inductive Event where
  | observed (call : Call) (status : GroupStatus)
  | completed (status : GroupStatus) (waiter : Option TargetId) (delivery : Delivery)
      (answer : Answer GroupStatus)
  | returned (result : Except GroupError Bool)
  | released (result : Except TaskError Unit)
  deriving DecidableEq, Repr

/-- One group, its two registries, and the call of `evaluate` that is running. -/
structure World (T : Type) (capacity n m : Nat) where
  inputs : Registry T n
  aggregates : Registry GroupStatus m
  group : TaskGroup capacity
  call : Option (Call × Stage capacity)
  log : List Event

inductive Label (T : Type) where
  | evaluate (call : Call)
  | proceed (delivery : Delivery)
  | release
  | input (op : Op T) (delivery : Delivery)
  | aggregate (op : Op GroupStatus) (delivery : Delivery)

/-- The thread of the group is in another call, or in none. -/
inductive Refusal where
  | busy
  | idle

namespace World
variable {T : Type} {capacity n m : Nat}

/-- The group has just been made. -/
def initial (inputs : Registry T n) (aggregates : Registry GroupStatus m)
    (group : TaskGroup capacity) : World T capacity n m := ⟨inputs, aggregates, group, none, []⟩

variable (w : World T capacity n m)

@[simps] def returns (result : Except GroupError Bool) : World T capacity n m :=
  { w with call := none, log := w.log ++ [.returned result] }

def stay (call : Call) (stage : Stage capacity) : World T capacity n m :=
  { w with call := some (call, stage) }

def enter (call : Call) : World T capacity n m :=
  if w.group.isValid = false then w.returns (.error .kInvalidTask)
  else if w.group.settled = true then w.returns (.ok true)
  else w.stay call (.look 0)

/-- An iteration up to `has_error`; past the last one the counts are final. -/
def look (call : Call) (i : Nat) : World T capacity n m :=
  if live : i < w.group.liveCount.toNat then
    if w.group.marked i = true then w.stay call (.look (i + 1))
    else if w.inputs.isReady (w.group.inputs ⟨i, live.trans_le w.group.live_le⟩) = false then
      w.stay call (.look (i + 1))
    else
      { w with
        group := w.group.mark i
        call := some (call, .check ⟨i, live.trans_le w.group.live_le⟩) }
  else { w with call := some (call, .judge), log := w.log ++ [.observed call w.group.status] }

def check (call : Call) (i : Fin capacity) : World T capacity n m :=
  if w.inputs.hasError (w.group.inputs i) = true then
    if w.group.firstError = .kOk then
      { w with group := w.group.countFailure, call := some (call, .blame i) }
    else { w with group := w.group.countFailure, call := some (call, .look (i + 1)) }
  else { w with group := w.group.countSuccess, call := some (call, .look (i + 1)) }

def blame (call : Call) (i : Fin capacity) : World T capacity n m :=
  { w with
    group := w.group.blame (w.inputs.takeError (w.group.inputs i))
    call := some (call, .look (i + 1)) }

/-- The waiter of the aggregate task. -/
def waiter : Option TargetId :=
  (w.aggregates.findLocked w.group.promise.id).map fun i => (w.aggregates.slots i).waiter

/-- `complete` on the promise, with the snapshot of the status. -/
def complete (delivery : Delivery) : Registry GroupStatus m × Answer GroupStatus :=
  w.aggregates.apply (.complete w.group.promise.id w.group.status) delivery

/-- What `evaluate` makes of the result of `settle`. -/
def verdict : Result GroupStatus → Except GroupError Bool
  | .ok _ => .ok true
  | .error _ => .error .kRegistryFull

def judge (call : Call) (delivery : Delivery) : World T capacity n m :=
  if call.satisfied w.group.liveCount w.group.status = true then
    if w.group.settled = true ∨ w.group.isValid = false ∨ w.group.promise.isValid = false then
      w.returns (.ok true)
    else
      { w with
        aggregates := (w.complete delivery).1
        group := w.group.settle
        call := some (call, .done (verdict (w.complete delivery).2.result))
        log := w.log ++ [.completed w.group.status w.waiter delivery (w.complete delivery).2] }
  else w.returns (.ok false)

def advance (call : Call) (delivery : Delivery) : Stage capacity → World T capacity n m
  | .look i => w.look call i
  | .check i => w.check call i
  | .blame i => w.blame call i
  | .judge => w.judge call delivery
  | .done result => w.returns result

def release : World T capacity n m :=
  if w.group.isValid = false then { w with log := w.log ++ [.released (.error .kInvalidId)] }
  else
    { w with
      aggregates := (w.aggregates.releaseTask w.group.groupId).1
      group := w.group.released
      log := w.log ++ [.released (w.aggregates.releaseTask w.group.groupId).2] }

def step : Label T → World T capacity n m → Except Refusal (World T capacity n m)
  | .evaluate call, w =>
    match w.call with
    | some _ => .error .busy
    | none => .ok (w.enter call)
  | .proceed delivery, w =>
    match w.call with
    | none => .error .idle
    | some (call, stage) => .ok (w.advance call delivery stage)
  | .release, w =>
    match w.call with
    | some _ => .error .busy
    | none => .ok w.release
  | .input op delivery, w => .ok { w with inputs := (w.inputs.apply op delivery).1 }
  | .aggregate op delivery, w => .ok { w with aggregates := (w.aggregates.apply op delivery).1 }

end World

end Group

end Coact.Coro
