import Coact.Foundation.Transition
import Mathlib.Data.List.FinRange

/-! Worker hand-over of the FreeRTOS layer (`pal_freertos.cpp`): `thread_create` hands a slot's
resident worker its work through a binary semaphore and `thread_join` gets it back through
another, one access at a time. A critical section is one step. A handle is a plain object: its
creates do not overlap each other, and neither do its joins. -/
namespace Coact.FreeRtos
open Foundation

/-- What a create hands over, and the handle it is recorded in. -/
structure Work (η E C : Type) where
  handle : η
  entry : E
  context : Option C
  deriving DecidableEq

inductive SlotEvent (η E C : Type) where
  | created (work : Work η E C)
  | started (entry : E) (context : Option C)
  | finished
  | freed (handle : η)
  deriving DecidableEq

/-- What a worker has ahead of it: the take of the start token, the loads of the slot's entry
and context, the call, its return, the give of the join token. -/
inductive WorkerPc (E C : Type) where
  | wait
  | loadEntry
  | loadContext (entry : Option E)
  | call (entry : Option E) (context : Option C)
  | running
  | give

/-- `WorkerSlot` with the tokens of its two semaphores and the place of its worker. The events
of the slot are kept for the proofs. -/
structure WorkerSlot (η E C : Type) where
  entry : Option E
  context : Option C
  busy : Bool
  start : Bool
  join : Bool
  worker : WorkerPc E C
  events : List (SlotEvent η E C)

/-- What a `thread_create` has ahead of it: the critical section, the stores to the handle, the
store of `valid`, the give of the start token. -/
inductive CreatePc (n : Nat) (E C : Type) where
  | idle
  | claim (entry : E) (context : Option C)
  | record (i : Fin n)
  | publish (i : Fin n)
  | give (i : Fin n)

/-- What a `thread_join` has ahead of it: the take of the join token, the critical section, the
store of `valid`. -/
inductive JoinPc (n : Nat) where
  | idle
  | take (i : Fin n)
  | clear (i : Fin n)
  | invalidate (i : Fin n)
  deriving DecidableEq

/-- `ThreadHandle` with the calls it is in. `pal` tells whether this layer was recorded. -/
structure ThreadHandle (n : Nat) (E C : Type) where
  pal : Bool
  slotIdx : Nat
  valid : Bool
  creator : CreatePc n E C
  joiner : JoinPc n

structure Workers (n : Nat) (η E C : Type) where
  handles : η → ThreadHandle n E C
  slots : Fin n → WorkerSlot η E C

inductive WorkersLabel (n : Nat) (η E C : Type) where
  | create (h : η) (entry : Option E) (context : Option C)
  | creator (h : η)
  | join (h : η)
  | joiner (h : η)
  | worker (i : Fin n)

inductive WorkersRefusal where
  | busy | idle | blocked

variable {n : Nat} {η E C : Type}

namespace Workers

/-- After `initialize`. -/
def init : Workers n η E C :=
  ⟨fun _ => ⟨false, 0, false, .idle, .idle⟩, fun _ => ⟨none, none, false, false, false, .wait, []⟩⟩

section
variable [DecidableEq η]

def setHandle (s : Workers n η E C) (h : η) (k : ThreadHandle n E C) : Workers n η E C :=
  { s with handles := Function.update s.handles h k }

def setSlot (s : Workers n η E C) (i : Fin n) (w : WorkerSlot η E C) : Workers n η E C :=
  { s with slots := Function.update s.slots i w }

/-- The first slot that is not busy and has its semaphores; `made` tells which have. -/
def freeSlot (made : Fin n → Bool) (s : Workers n η E C) : Option (Fin n) :=
  (List.finRange n).find? fun i => !(s.slots i).busy && made i

/-- The checks of `thread_create`. -/
def create (s : Workers n η E C) (h : η) (entry : Option E) (context : Option C) :
    Except WorkersRefusal (Workers n η E C) :=
  match (s.handles h).creator, entry with
  | .idle, some entry =>
    if (s.handles h).valid then .ok s
    else .ok (s.setHandle h { s.handles h with creator := .claim entry context })
  | .idle, none => .ok s
  | _, _ => .error .busy

def creator (made : Fin n → Bool) (s : Workers n η E C) (h : η) :
    Except WorkersRefusal (Workers n η E C) :=
  match (s.handles h).creator with
  | .idle => .error .idle
  | .claim entry context =>
    match s.freeSlot made with
    | none => .ok (s.setHandle h { s.handles h with creator := .idle })
    | some i => .ok ((s.setHandle h { s.handles h with creator := .record i }).setSlot i
        { s.slots i with
          entry := some entry
          context := context
          busy := true
          events := (s.slots i).events ++ [SlotEvent.created ⟨h, entry, context⟩] })
  | .record i => .ok (s.setHandle h
      { s.handles h with pal := true, slotIdx := i, creator := .publish i })
  | .publish i => .ok (s.setHandle h { s.handles h with valid := true, creator := .give i })
  | .give i => .ok ((s.setHandle h { s.handles h with creator := .idle }).setSlot i
      { s.slots i with start := true })

/-- The checks of `thread_join`. -/
def join (s : Workers n η E C) (h : η) : Except WorkersRefusal (Workers n η E C) :=
  match (s.handles h).joiner with
  | .idle =>
    if (s.handles h).valid && (s.handles h).pal then
      if inside : (s.handles h).slotIdx < n then
        .ok (s.setHandle h { s.handles h with joiner := .take ⟨(s.handles h).slotIdx, inside⟩ })
      else .ok s
    else .ok s
  | _ => .error .busy

def joiner (s : Workers n η E C) (h : η) : Except WorkersRefusal (Workers n η E C) :=
  match (s.handles h).joiner with
  | .idle => .error .idle
  | .take i =>
    if (s.slots i).join then
      .ok ((s.setHandle h { s.handles h with joiner := .clear i }).setSlot i
        { s.slots i with join := false })
    else .error .blocked
  | .clear i => .ok ((s.setHandle h { s.handles h with joiner := .invalidate i }).setSlot i
      { s.slots i with
        entry := none
        context := none
        busy := false
        events := (s.slots i).events ++ [SlotEvent.freed h] })
  | .invalidate _ => .ok (s.setHandle h { s.handles h with valid := false, joiner := .idle })

/-- `worker_thread_entry` -/
def worker (s : Workers n η E C) (i : Fin n) : Except WorkersRefusal (Workers n η E C) :=
  let slot := s.slots i
  match slot.worker with
  | .wait =>
    if slot.start then .ok (s.setSlot i { slot with start := false, worker := .loadEntry })
    else .error .blocked
  | .loadEntry => .ok (s.setSlot i { slot with worker := .loadContext slot.entry })
  | .loadContext entry => .ok (s.setSlot i { slot with worker := .call entry slot.context })
  | .call none _ => .ok (s.setSlot i { slot with worker := .give })
  | .call (some entry) context => .ok (s.setSlot i { slot with
      worker := .running
      events := slot.events ++ [SlotEvent.started entry context] })
  | .running => .ok (s.setSlot i { slot with
      worker := .give
      events := slot.events ++ [SlotEvent.finished] })
  | .give => .ok (s.setSlot i { slot with join := true, worker := .wait })

def step (made : Fin n → Bool) :
    WorkersLabel n η E C → Workers n η E C → Except WorkersRefusal (Workers n η E C)
  | .create h entry context, s => s.create h entry context
  | .creator h, s => s.creator made h
  | .join h, s => s.join h
  | .joiner h, s => s.joiner h
  | .worker i, s => s.worker i

end

end Workers

end Coact.FreeRtos
