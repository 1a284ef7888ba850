import Mathlib.Data.List.FinRange
import Coact.Config
import Coact.Coro.TaskId

/-! `TaskRegistry` (`coro/task_registry.hpp`, `coro/detail/task_slot.hpp`). An
operation runs under the registry mutex. The completing ones may submit a completion
event on the way, so they come in two parts: up to the submission, and from its
result on. The static assertions on the capacity are fields of the registry. -/
namespace Coact.Coro
open Function

inductive TaskError where
  | kOk | kSlotsFull | kInvalidId | kAlreadyCompleted | kCancelled | kTargetRejected
  | kPoolExhausted | kResultUnavailable | kResultTaken | kAwaiterBusy
  deriving DecidableEq, Repr

/-- `static_cast<uint32_t>` of an error. -/
def TaskError.code : TaskError → UInt32
  | .kOk => 0
  | .kSlotsFull => 1
  | .kInvalidId => 2
  | .kAlreadyCompleted => 3
  | .kCancelled => 4
  | .kTargetRejected => 5
  | .kPoolExhausted => 6
  | .kResultUnavailable => 7
  | .kResultTaken => 8
  | .kAwaiterBusy => 9

inductive CompletionStatus where
  | kSucceeded | kFailed | kCancelled

def CompletionStatus.code : CompletionStatus → UInt8
  | .kSucceeded => 0
  | .kFailed => 1
  | .kCancelled => 2

structure CompletionPayload where
  taskId : UInt16
  status : UInt8
  reserved : UInt8
  errorCode : UInt32
  deriving DecidableEq, Repr

structure EventQos where
  critical : Bool
  mergeable : Bool
  deriving DecidableEq, Repr

inductive TaskSlotState where
  | kFree | kCreated | kWaiting | kCompleted
  deriving DecidableEq, Repr

theorem unstored {T : Type} {result : Option T} (never : false = true) : result.isSome = true :=
  (Bool.false_ne_true never).elim

/-- `result` is `none` while the storage is wiped; the value is read only under
`hasResult`. -/
structure TaskSlot (T : Type) where
  generation : UInt16 := 1
  state : TaskSlotState := .kFree
  error : TaskError := .kOk
  waiter : TargetId := kInvalidTarget
  waiterSignal : UInt16 := 0
  qos : EventQos := ⟨false, false⟩
  hasResult : Bool := false
  hasError : Bool := false
  result : Option T := none
  stored : hasResult = true → result.isSome = true

namespace TaskSlot
variable {T : Type} (slot : TaskSlot T)

def occupied : Bool := slot.state ≠ .kFree

def release : TaskSlot T :=
  { generation := if slot.generation + 1 = 0 then 1 else slot.generation + 1
    qos := slot.qos
    stored := unstored }

/-- The slot as `create` hands it out. -/
@[simps] def created (waiter : TargetId) (signal : UInt16) (qos : EventQos) : TaskSlot T :=
  { slot with state := .kCreated, waiter := waiter, waiterSignal := signal, qos := qos }

@[simps] def awaited (waiter : TargetId) (signal : UInt16) : TaskSlot T :=
  { slot with state := .kWaiting, waiter := waiter, waiterSignal := signal }

@[simps] def succeeded (value : T) : TaskSlot T :=
  { slot with
    state := .kCompleted, hasResult := true, hasError := false, result := some value
    stored := fun _ => rfl }

@[simps] def failed (err : TaskError) : TaskSlot T :=
  { slot with
    state := .kCompleted, hasResult := false, hasError := true, error := err, stored := unstored }

@[simps] def taken : TaskSlot T := { slot with hasResult := false, stored := unstored }

end TaskSlot

structure Registry (T : Type) (capacity : Nat) where
  slots : Fin capacity → TaskSlot T
  rejectedCount : UInt32
  submitFailures : UInt32
  positive : 0 < capacity
  fits : capacity ≤ 256

/-- What `post_completion_locked` submits. -/
structure Posting where
  target : TargetId
  signal : UInt16
  qos : EventQos
  payload : CompletionPayload
  deriving DecidableEq, Repr

/-- What becomes of it: no block in the pool, or the coordinator's verdict. -/
inductive Delivery where
  | poolExhausted
  | submitted (disposition : SubmitDisposition)
  deriving DecidableEq, Repr

/-- The values the operations return. -/
inductive Value (T : Type) where
  | unit
  | id (id : TaskId)
  | flag (b : Bool)
  | result (value : T)
  | error (err : TaskError)
  | count (n : Nat)
  deriving DecidableEq, Repr

abbrev Result (T : Type) := Except TaskError (Value T)

/-- The first part of an operation ends with its result or with a submission for a slot. -/
inductive Turn (T : Type) (capacity : Nat) where
  | done (result : Result T)
  | post (i : Fin capacity) (posting : Posting)

inductive Op (T : Type) where
  | create (waiter : TargetId) (signal : UInt16) (qos : EventQos)
  | complete (id : TaskId) (value : T)
  | fail (id : TaskId) (err : TaskError)
  | cancel (id : TaskId)
  | setAwaiter (id : TaskId) (waiter : TargetId) (signal : UInt16)
  | isReady (id : TaskId)
  | hasError (id : TaskId)
  | takeResult (id : TaskId)
  | takeError (id : TaskId)
  | releaseTask (id : TaskId)
  | used
  | rejectedCount
  | submitFailures
  deriving DecidableEq, Repr

namespace Registry
variable {T : Type} {capacity : Nat}

def initial (T : Type) {capacity : Nat} (positive : 0 < capacity) (fits : capacity ≤ 256) :
    Registry T capacity where
  slots _ := { stored := unstored }
  rejectedCount := 0
  submitFailures := 0
  positive := positive
  fits := fits

/-- One slot, free, of the given generation. -/
def single (T : Type) (generation : UInt16) : Registry T 1 where
  slots _ := { generation := generation, stored := unstored }
  rejectedCount := 0
  submitFailures := 0
  positive := Nat.one_pos
  fits := by decide

variable (r : Registry T capacity)

@[simps] def set (i : Fin capacity) (slot : TaskSlot T) : Registry T capacity :=
  { r with slots := update r.slots i slot }

@[simps] def reject : Registry T capacity := { r with rejectedCount := r.rejectedCount + 1 }

/-- The handle of the task in slot `i`. -/
def idOf (i : Fin capacity) : TaskId :=
  TaskId.make ⟨UInt16.ofNat i⟩ (r.slots i).generation

def findLocked (id : TaskId) : Option (Fin capacity) :=
  if id = kInvalidTaskId then none
  else if inside : id.slot.raw.toNat < capacity then
    if (r.slots ⟨_, inside⟩).state = .kFree then none
    else if (r.slots ⟨_, inside⟩).generation ≠ id.generation then none
    else some ⟨_, inside⟩
  else none

/-- The slot that the loop of `create` stops at. -/
def firstFree : Option (Fin capacity) :=
  (List.finRange capacity).find? fun i => (r.slots i).state = .kFree

def create (waiter : TargetId) (signal : UInt16) (qos : EventQos) :
    Registry T capacity × Except TaskError TaskId :=
  match r.firstFree with
  | none => (r, .error .kSlotsFull)
  | some i => (r.set i ((r.slots i).created waiter signal qos), .ok (r.idOf i))

/-- `post_completion_locked` up to the submission; a task without waiter posts nothing. -/
def postCompletionLocked (id : TaskId) (i : Fin capacity) (status : CompletionStatus)
    (err : TaskError) : Turn T capacity :=
  if (r.slots i).waiter = kInvalidTarget then .done (.ok .unit)
  else .post i
    { target := (r.slots i).waiter
      signal := (r.slots i).waiterSignal
      qos := (r.slots i).qos
      payload := ⟨id.raw, status.code, 0, err.code⟩ }

def delivered : SubmitDisposition → Bool
  | .Direct | .Queued | .Merged => true
  | _ => false

/-- A delivery failure: counted, and the slot is released. -/
def undelivered (i : Fin capacity) : Registry T capacity :=
  { r.set i (r.slots i).release with submitFailures := r.submitFailures + 1 }

theorem undelivered_slots (i : Fin capacity) (slot : TaskSlot T) :
    ((r.set i slot).undelivered i).slots = update r.slots i slot.release := by
  change update (update r.slots i slot) i
    (update r.slots i slot i).release = _
  rw [update_self, update_idem]

/-- `post_completion_locked` from the submission on. -/
def afterPost (i : Fin capacity) : Delivery → Registry T capacity × Result T
  | .poolExhausted => (r.undelivered i, .error .kPoolExhausted)
  | .submitted disposition =>
    if delivered disposition then (r, .ok .unit) else (r.undelivered i, .error .kTargetRejected)

/-- The common part of `complete`, `fail` and `cancel`. -/
def conclude (id : TaskId) (outcome : TaskSlot T → TaskSlot T) (rejection : TaskSlot T → TaskError)
    (status : CompletionStatus) (err : TaskError) : Registry T capacity × Turn T capacity :=
  match r.findLocked id with
  | none => (r, .done (.error .kInvalidId))
  | some i =>
    if (r.slots i).state = .kCompleted then (r.reject, .done (.error (rejection (r.slots i))))
    else
      let r' := r.set i (outcome (r.slots i))
      (r', r'.postCompletionLocked id i status err)

def complete (id : TaskId) (value : T) : Registry T capacity × Turn T capacity :=
  r.conclude id (·.succeeded value)
    (fun slot => if slot.hasError ∧ slot.error = .kCancelled then .kCancelled else .kAlreadyCompleted)
    .kSucceeded .kOk

def fail (id : TaskId) (err : TaskError) : Registry T capacity × Turn T capacity :=
  r.conclude id (·.failed err) (fun _ => .kAlreadyCompleted) .kFailed err

def cancel (id : TaskId) : Registry T capacity × Turn T capacity :=
  r.conclude id (·.failed .kCancelled) (fun _ => .kAlreadyCompleted) .kCancelled .kCancelled

def setAwaiter (id : TaskId) (waiter : TargetId) (signal : UInt16) :
    Registry T capacity × Except TaskError Unit :=
  match r.findLocked id with
  | none => (r, .error .kInvalidId)
  | some i =>
    if (r.slots i).state = .kWaiting then (r.reject, .error .kAwaiterBusy)
    else if (r.slots i).state = .kCompleted then (r, .error .kAlreadyCompleted)
    else (r.set i ((r.slots i).awaited waiter signal), .ok ())

def isReady (id : TaskId) : Bool :=
  match r.findLocked id with
  | none => false
  | some i => (r.slots i).state = .kCompleted

def hasError (id : TaskId) : Bool :=
  match r.findLocked id with
  | none => false
  | some i => (r.slots i).hasError

def takeResult (id : TaskId) : Registry T capacity × Except TaskError T :=
  match r.findLocked id with
  | none => (r, .error .kInvalidId)
  | some i =>
    if (r.slots i).state ≠ .kCompleted then (r, .error .kResultUnavailable)
    else if (r.slots i).hasError then (r, .error (r.slots i).error)
    else if present : (r.slots i).hasResult then
      (r.set i (r.slots i).taken, .ok ((r.slots i).result.get ((r.slots i).stored present)))
    else (r, .error .kResultTaken)

def takeError (id : TaskId) : TaskError :=
  match r.findLocked id with
  | none => .kOk
  | some i => if (r.slots i).hasError then (r.slots i).error else .kOk

def releaseTask (id : TaskId) : Registry T capacity × Except TaskError Unit :=
  match r.findLocked id with
  | none => (r, .error .kInvalidId)
  | some i => (r.set i (r.slots i).release, .ok ())

def used : Nat := (List.finRange capacity).countP fun i => (r.slots i).occupied

/-- An operation up to its submission, if it has one. -/
def execute : Op T → Registry T capacity × Turn T capacity
  | .create waiter signal qos =>
    let (r', result) := r.create waiter signal qos
    (r', .done (result.map .id))
  | .complete id value => r.complete id value
  | .fail id err => r.fail id err
  | .cancel id => r.cancel id
  | .setAwaiter id waiter signal =>
    let (r', result) := r.setAwaiter id waiter signal
    (r', .done (result.map fun _ => .unit))
  | .isReady id => (r, .done (.ok (.flag (r.isReady id))))
  | .hasError id => (r, .done (.ok (.flag (r.hasError id))))
  | .takeResult id =>
    let (r', result) := r.takeResult id
    (r', .done (result.map .result))
  | .takeError id => (r, .done (.ok (.error (r.takeError id))))
  | .releaseTask id =>
    let (r', result) := r.releaseTask id
    (r', .done (result.map fun _ => .unit))
  | .used => (r, .done (.ok (.count r.used)))
  | .rejectedCount => (r, .done (.ok (.count r.rejectedCount.toNat)))
  | .submitFailures => (r, .done (.ok (.count r.submitFailures.toNat)))

end Registry

/-- What an operation returned and the completion event it submitted. -/
structure Answer (T : Type) where
  result : Result T
  posted : Option Posting := none
  deriving DecidableEq, Repr

/-- An event without a block is not submitted. -/
def Delivery.submission : Delivery → Posting → Option Posting
  | .poolExhausted, _ => none
  | .submitted _, posting => some posting

/-- A whole operation, under the given delivery of its completion event. -/
def Registry.apply {T : Type} {capacity : Nat} (r : Registry T capacity) (op : Op T)
    (delivery : Delivery) : Registry T capacity × Answer T :=
  match r.execute op with
  | (r', .done result) => (r', ⟨result, none⟩)
  | (r', .post i posting) =>
    let (r'', result) := r'.afterPost i delivery
    (r'', ⟨result, delivery.submission posting⟩)

end Coact.Coro
