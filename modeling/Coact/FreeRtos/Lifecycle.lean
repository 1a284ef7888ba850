import Coact.Config
import Coact.Foundation.Transition

/-! Initialisation and start of the FreeRTOS layer (`pal_freertos.cpp`): tasks enter
`initialize` through `ensure_initialized`, from `register_current_task` and from
`start_dispatcher`, one access to the shared fields at a time. A critical section is one step,
and so is the rollback of the workers. -/
namespace Coact.FreeRtos
open Foundation Function

inductive Lifecycle where
  | kUninitialized | kReady | kStarted | kStopped | kInitFailed
  deriving DecidableEq, Repr

inductive InitError where
  | kOk | kSemInitFailed | kThreadInitFailed | kThreadStartFailed | kStackTooLarge
  | kAlreadyInitialized | kAlreadyStarted
  deriving DecidableEq, Repr

def kFreeRtosMinDispatcherStackBytes : Nat := 512

/-- The static resources: what they have room for. -/
structure Resources where
  dispatcherStackBytes : Nat
  dispatcherStackWords : Nat
  wordBytes : Nat
  workerSlotCount : Nat
  slotCount : Nat

/-- The kernel objects on static storage. -/
inductive KernelObject where
  | wake
  | join
  | workerStart (k : Nat)
  | workerJoin (k : Nat)
  | workerTask (k : Nat)
  | dispatcher
  deriving DecidableEq, Repr

/-- A registered task and, once it is stored, its priority. -/
structure ContextSlot (η : Type) where
  task : Option η
  prio : Option Nat

/-- What `ensure_initialized` was called for. -/
inductive Goal where
  | register (prio : Nat)
  | start
  deriving DecidableEq, Repr

/-- What a task has ahead of it in `ensure_initialized`: the two reads there, the reads of
`initialize`, the guard, and with the guard the creation sequence and its two ends. -/
inductive EnsurePc where
  | isUninitialized
  | isInitFailed
  | readReady
  | readInitFailed
  | readStarted
  | readStopped
  | testAndSet
  | clampStack
  | wipeSlots
  | createWake
  | createJoin
  | createWorkerStart (k : Nat)
  | createWorkerJoin (k : Nat) (started : Bool)
  | createWorkerTask (k : Nat)
  | rollback (k : Nat)
  | setError (e : InitError)
  | setInitFailed
  | loadError
  | setReady
  | clearGuard (result : InitError)
  | loadLast
  | returned (result : InitError)
  deriving DecidableEq, Repr

/-- `register_current_task` behind `ensure_initialized` -/
inductive RegisterPc where
  | currentTask
  | claimSlot
  | storeContext (i : Nat)
  deriving DecidableEq, Repr

/-- `start_dispatcher` behind `ensure_initialized` -/
inductive StartPc where
  | readStarted
  | readStopped
  | scheduler
  | stackWords
  | createDispatcher
  | setStarted
  | setError (e : InitError)
  | setInitFailed
  | loadLast
  deriving DecidableEq, Repr

/-- `join_dispatcher` -/
inductive StopPc where
  | readStarted
  | take
  | setStopped
  deriving DecidableEq, Repr

inductive Pc where
  | idle
  | ensure (g : Goal) (pc : EnsurePc)
  | register (prio : Nat) (pc : RegisterPc)
  | start (pc : StartPc)
  | stop (pc : StopPc)
  deriving DecidableEq, Repr

/-- How a call returned. A start is logged with whether it created the dispatcher's task, and
with `state_` as it then was. -/
inductive Return (η : Type) where
  | register (task : η) (accepted : Bool)
  | start (task : η) (status : InitError) (created : Bool) (state : Lifecycle)
  deriving DecidableEq

/-- The fields of the layer; `guard` is the flag with the task that set it. Kept for the
proofs: how often the creation sequence was entered, whether it was completed, the objects
that were created while they existed, and the tasks whose slot was wiped after that. -/
structure Shared (η : Type) where
  state : Lifecycle
  lastError : InitError
  guard : Option η
  dispatcherStackBytes : Nat
  objects : KernelObject → Bool
  slots : List (ContextSlot η)
  sequences : Nat
  completed : Bool
  recreated : List KernelObject
  wiped : List η

structure Layer (η : Type) where
  shared : Shared η
  pc : η → Pc
  returns : List (Return η)

inductive LayerLabel (η : Type) where
  | register (t : η) (prio : Nat)
  | start (t : η)
  | join (t : η)
  | advance (t : η) (ok : Bool)

inductive LayerRefusal where
  | busy | idle

variable {η : Type}

namespace Shared

/-- A `...CreateStatic` call; `ok` is whether it gives a handle. -/
def create (sh : Shared η) (o : KernelObject) (ok : Bool) : Shared η :=
  { sh with
    objects := update sh.objects o ok
    recreated := if ok && sh.objects o then sh.recreated ++ [o] else sh.recreated }

def delete (sh : Shared η) (o : KernelObject) : Shared η :=
  { sh with objects := update sh.objects o false }

/-- The workers up to `k`, then the two semaphores. -/
def rollback (sh : Shared η) (k : Nat) : Shared η :=
  { sh with
    objects := fun o =>
      match o with
      | .wake | .join => false
      | .workerStart i | .workerJoin i | .workerTask i => if i ≤ k then false else sh.objects o
      | .dispatcher => sh.objects o }

def wipe (sh : Shared η) : Shared η :=
  { sh with
    slots := sh.slots.map fun _ => ⟨none, none⟩
    wiped := if sh.completed then sh.wiped ++ sh.slots.filterMap ContextSlot.task else sh.wiped }

/-- The stack as `initialize` clamps it. -/
def clamped (sh : Shared η) : Nat :=
  if sh.dispatcherStackBytes < kFreeRtosMinDispatcherStackBytes then
    kFreeRtosMinDispatcherStackBytes
  else sh.dispatcherStackBytes

/-- The slot that `register_current_task` gets in its critical section. -/
def claim [DecidableEq η] (sh : Shared η) (t : η) : Option Nat :=
  if sh.state = .kStarted ∨ sh.state = .kStopped then none
  else if sh.slots.any fun slot => slot.task = some t then none
  else sh.slots.findIdx? fun slot => slot.task.isNone

end Shared

/-- The words of the dispatcher's stack. -/
def Resources.words (res : Resources) (bytes : Nat) : Nat :=
  (bytes + res.wordBytes - 1) / res.wordBytes

namespace Layer

def init (res : Resources) (stackBytes : Nat) : Layer η where
  shared := ⟨.kUninitialized, .kOk, none, stackBytes, fun _ => false,
    List.replicate res.slotCount ⟨none, none⟩, 0, false, [], []⟩
  pc _ := .idle
  returns := []

/-- An access of `ensure_initialized` or `initialize`: what it leaves in the fields, and where
the task goes; `ok` is the outcome of a kernel call. -/
def ensure (res : Resources) (sh : Shared η) (t : η) (ok : Bool) : EnsurePc → Shared η × EnsurePc
  | .isUninitialized => (sh, if sh.state = .kUninitialized then .readReady else .isInitFailed)
  | .isInitFailed => (sh, if sh.state = .kInitFailed then .loadLast else .returned .kOk)
  | .readReady => (sh, if sh.state = .kReady then .returned .kOk else .readInitFailed)
  | .readInitFailed => (sh, if sh.state = .kInitFailed then .loadLast else .readStarted)
  | .readStarted =>
    (sh, if sh.state = .kStarted then .returned .kAlreadyInitialized else .readStopped)
  | .readStopped =>
    (sh, if sh.state = .kStopped then .returned .kAlreadyInitialized else .testAndSet)
  | .testAndSet =>
    if sh.guard.isSome then (sh, .returned .kAlreadyInitialized)
    else ({ sh with guard := some t, sequences := sh.sequences + 1 }, .clampStack)
  | .clampStack =>
    if res.dispatcherStackBytes < sh.clamped then (sh, .setError .kStackTooLarge)
    else ({ sh with dispatcherStackBytes := sh.clamped }, .wipeSlots)
  | .wipeSlots => (sh.wipe, .createWake)
  | .createWake => (sh.create .wake ok, if ok then .createJoin else .setError .kSemInitFailed)
  | .createJoin =>
    if ok then
      (sh.create .join ok, if 0 < res.workerSlotCount then .createWorkerStart 0 else .setReady)
    else ((sh.create .join ok).delete .wake, .setError .kSemInitFailed)
  | .createWorkerStart k => (sh.create (.workerStart k) ok, .createWorkerJoin k ok)
  | .createWorkerJoin k started =>
    (sh.create (.workerJoin k) ok, if started && ok then .createWorkerTask k else .rollback k)
  | .createWorkerTask k =>
    (sh.create (.workerTask k) ok,
      if ok then
        if k + 1 < res.workerSlotCount then .createWorkerStart (k + 1) else .setReady
      else .rollback k)
  | .rollback k => (sh.rollback k, .setError .kThreadInitFailed)
  | .setError e => ({ sh with lastError := e }, .setInitFailed)
  | .setInitFailed => ({ sh with state := .kInitFailed }, .loadError)
  | .loadError => (sh, .clearGuard sh.lastError)
  | .setReady => ({ sh with state := .kReady, completed := true }, .clearGuard .kOk)
  | .clearGuard result => ({ sh with guard := none }, .returned result)
  | .loadLast => (sh, .returned sh.lastError)
  | .returned result => (sh, .returned result)

/-- What the caller of `ensure_initialized` does with its result. -/
def proceed (t : η) : Goal → InitError → Pc × List (Return η)
  | .register prio, .kOk => (.register prio .currentTask, [])
  | .register _, _ => (.idle, [.register t false])
  | .start, .kOk => (.start .readStarted, [])
  | .start, _ => (.start .loadLast, [])

/-- An access of `register_current_task`; `ok` tells whether the scheduler runs a task. -/
def register [DecidableEq η] (sh : Shared η) (t : η) (ok : Bool) (prio : Nat) :
    RegisterPc → Shared η × Pc × List (Return η)
  | .currentTask =>
    if ok then (sh, .register prio .claimSlot, []) else (sh, .idle, [.register t false])
  | .claimSlot =>
    match sh.claim t with
    | some i => ({ sh with slots := sh.slots.set i ⟨some t, none⟩ }, .register prio (.storeContext i), [])
    | none => (sh, .idle, [.register t false])
  | .storeContext i =>
    ({ sh with slots := sh.slots.modify i fun slot => { slot with prio := some prio } }, .idle,
      [.register t true])

/-- An access of `start_dispatcher`; `ok` is the outcome of a kernel call. -/
def start (res : Resources) (sh : Shared η) (t : η) (ok : Bool) :
    StartPc → Shared η × Pc × List (Return η)
  | .readStarted =>
    if sh.state = .kStarted then (sh, .idle, [.start t .kAlreadyStarted false sh.state])
    else (sh, .start .readStopped, [])
  | .readStopped =>
    if sh.state = .kStopped then (sh, .idle, [.start t .kAlreadyStarted false sh.state])
    else (sh, .start .scheduler, [])
  | .scheduler =>
    if ok then (sh, .start .stackWords, []) else (sh, .start (.setError .kThreadStartFailed), [])
  | .stackWords =>
    if res.dispatcherStackWords < res.words sh.dispatcherStackBytes then
      (sh, .start (.setError .kStackTooLarge), [])
    else (sh, .start .createDispatcher, [])
  | .createDispatcher =>
    (sh.create .dispatcher ok,
      .start (if ok then .setStarted else .setError .kThreadStartFailed), [])
  | .setStarted =>
    ({ sh with state := .kStarted }, .idle, [.start t .kOk true .kStarted])
  | .setError e => ({ sh with lastError := e }, .start .setInitFailed, [])
  | .setInitFailed => ({ sh with state := .kInitFailed }, .start .loadLast, [])
  | .loadLast => (sh, .idle, [.start t sh.lastError false sh.state])

/-- An access of `join_dispatcher`; it waits for the dispatcher's token as long as it must. -/
def stop (sh : Shared η) : StopPc → Shared η × Pc × List (Return η)
  | .readStarted => (sh, if sh.state = .kStarted then .stop .take else .idle, [])
  | .take => (sh, .stop .setStopped, [])
  | .setStopped => ({ sh with state := .kStopped }, .idle, [])

/-- One access of a task. -/
def access [DecidableEq η] (res : Resources) (sh : Shared η) (t : η) (ok : Bool) :
    Pc → Shared η × Pc × List (Return η)
  | .idle => (sh, .idle, [])
  | .ensure g (.returned result) => (sh, proceed t g result)
  | .ensure g pc => ((ensure res sh t ok pc).1, .ensure g (ensure res sh t ok pc).2, [])
  | .register prio pc => register sh t ok prio pc
  | .start pc => start res sh t ok pc
  | .stop pc => stop sh pc

def step [DecidableEq η] (res : Resources) :
    LayerLabel η → Layer η → Except LayerRefusal (Layer η)
  | .register t prio, s =>
    if s.pc t ≠ .idle then .error .busy
    else if prio = kInvalidPrio ∨ kMaxPrio < prio then
      .ok { s with returns := s.returns ++ [Return.register t false] }
    else .ok { s with pc := update s.pc t (.ensure (.register prio) .isUninitialized) }
  | .start t, s =>
    if s.pc t ≠ .idle then .error .busy
    else .ok { s with pc := update s.pc t (.ensure .start .isUninitialized) }
  | .join t, s =>
    if s.pc t ≠ .idle then .error .busy
    else .ok { s with pc := update s.pc t (.stop .readStarted) }
  | .advance t ok, s =>
    if s.pc t = .idle then .error .idle
    else .ok
      { shared := (access res s.shared t ok (s.pc t)).1
        pc := update s.pc t (access res s.shared t ok (s.pc t)).2.1
        returns := s.returns ++ (access res s.shared t ok (s.pc t)).2.2 }

end Layer

/-- Room for one worker and two registered tasks. -/
def smallResources : Resources := ⟨1024, 256, 4, 1, 2⟩

end Coact.FreeRtos
