import Coact.Coro.Registry
import Coact.Foundation.Transition

/-! `TimerScheduler` (`timer.hpp`). `schedule` and `cancel` run under the mutex, and so
does the collecting half of a poll; the firings it collected are submitted one by one
outside, where other threads get in between. Times are nanoseconds in 64 bits and ids
have 32. -/
namespace Coact.Timer
open Coro (EventQos)
open Function
open Foundation

inductive TimerError where
  | kInvalidPeriod | kSlotsFull | kNotFound | kAlreadyRunning | kThreadStartFailed
  deriving DecidableEq, Repr

def kInvalidTimerTaskId : Nat := 0

def kNsPerMs : Nat := 1000000

structure TaskSlot where
  target : TargetId
  signal : UInt16
  qos : EventQos
  periodNs : Nat
  nextFireNs : Nat
  id : Nat
  active : Bool
  oneShot : Bool

def TaskSlot.empty : TaskSlot := ⟨kInvalidTarget, 0, ⟨false, false⟩, 0, 0, 0, false, false⟩

/-- One expired task, as collected under the mutex. -/
structure PendingFire where
  target : TargetId
  signal : UInt16
  qos : EventQos
  deriving DecidableEq, Repr

/-- The arguments of `schedule_periodic` and `schedule_once`. -/
structure Request where
  target : TargetId
  signal : UInt16
  intervalMs : UInt32
  qos : EventQos
  oneShot : Bool

def Request.intervalNs (request : Request) : Nat := request.intervalMs.toNat * kNsPerMs

structure TimerScheduler (maxTasks : Nat) where
  slots : Fin maxTasks → TaskSlot
  nextId : Nat
  fired : Nat
  skipped : Nat

/-- `while (next_fire_ns <= now) next_fire_ns += period_ns`. The values repeat after
2 ^ 64 rounds, so a loop that is given that many and has not ended never does. -/
def catchUp (now period : Nat) : Nat → Nat → Option Nat
  | 0, _ => none
  | rounds + 1, next =>
    if next ≤ now then catchUp now period rounds ((next + period) % 2 ^ 64) else some next

namespace TaskSlot

def due (now : Nat) (slot : TaskSlot) : Bool := slot.active && decide (slot.nextFireNs ≤ now)

def pendingFire (slot : TaskSlot) : PendingFire := ⟨slot.target, slot.signal, slot.qos⟩

/-- What a poll makes of an expired slot; `none` if it never leaves the loop. -/
def expire (now : Nat) (slot : TaskSlot) : Option TaskSlot :=
  if slot.oneShot then some { slot with active := false }
  else (catchUp now slot.periodNs (2 ^ 64) ((slot.nextFireNs + slot.periodNs) % 2 ^ 64)).map
    fun next => { slot with nextFireNs := next }

/-- What a poll makes of a slot. -/
def scan (now : Nat) (slot : TaskSlot) : Option TaskSlot :=
  if slot.due now then slot.expire now else some slot

end TaskSlot

variable {maxTasks : Nat}

namespace TimerScheduler

def initial (maxTasks : Nat) : TimerScheduler maxTasks := ⟨fun _ => .empty, 1, 0, 0⟩

def set (timer : TimerScheduler maxTasks) (i : Fin maxTasks) (slot : TaskSlot) :
    TimerScheduler maxTasks :=
  { timer with slots := update timer.slots i slot }

def firstInactive (timer : TimerScheduler maxTasks) : Option (Fin maxTasks) :=
  (List.finRange maxTasks).find? fun i => !(timer.slots i).active

def armed (timer : TimerScheduler maxTasks) (request : Request) (now : Nat) : TaskSlot where
  target := request.target
  signal := request.signal
  qos := request.qos
  periodNs := request.intervalNs
  nextFireNs := (now + request.intervalNs) % 2 ^ 64
  id := timer.nextId
  active := true
  oneShot := request.oneShot

/-- The id that is returned is that of the slot. -/
def schedule (timer : TimerScheduler maxTasks) (request : Request) (now : Nat) :
    Except TimerError (Fin maxTasks × TimerScheduler maxTasks) :=
  if request.intervalMs = 0 then .error .kInvalidPeriod
  else
    match timer.firstInactive with
    | none => .error .kSlotsFull
    | some i =>
      .ok (i, { timer.set i (timer.armed request now) with nextId := (timer.nextId + 1) % 2 ^ 32 })

def find (timer : TimerScheduler maxTasks) (id : Nat) : Option (Fin maxTasks) :=
  (List.finRange maxTasks).find? fun i => (timer.slots i).active && decide ((timer.slots i).id = id)

def disarm (timer : TimerScheduler maxTasks) (i : Fin maxTasks) : TimerScheduler maxTasks :=
  timer.set i { timer.slots i with active := false }

def cancel (timer : TimerScheduler maxTasks) (id : Nat) :
    Except TimerError (Fin maxTasks × TimerScheduler maxTasks) :=
  match timer.find id with
  | none => .error .kNotFound
  | some i => .ok (i, timer.disarm i)

/-- The firings come with the slot they are from, which the source does not keep. -/
abbrev Collected (maxTasks : Nat) := TimerScheduler maxTasks × List (Fin maxTasks × PendingFire)

/-- One round of the collecting loop. -/
def collectSlot (now : Nat) (collected : Collected maxTasks) (i : Fin maxTasks) :
    Option (Collected maxTasks) :=
  let slot := collected.1.slots i
  if slot.due now then
    (slot.expire now).map fun slot' =>
      (collected.1.set i slot', collected.2 ++ [(i, slot.pendingFire)])
  else some collected

/-- `fire_expired` up to the release of the mutex. -/
def collect (timer : TimerScheduler maxTasks) (now : Nat) : Option (Collected maxTasks) :=
  (List.finRange maxTasks).foldlM (collectSlot now) (timer, [])

/-- One firing: the pool has a block, and the event is submitted, or it has none. -/
def fire (timer : TimerScheduler maxTasks) (allocated : Bool) : TimerScheduler maxTasks :=
  if allocated then { timer with fired := (timer.fired + 1) % 2 ^ 32 }
  else { timer with skipped := (timer.skipped + 1) % 2 ^ 32 }

end TimerScheduler

/-- Tasks are numbered in the order in which they are scheduled. -/
inductive Event where
  | scheduled (task id now periodNs : Nat) (oneShot : Bool)
  | cancelled (task : Nat)
  | refused (error : TimerError)
  | polled (now : Nat) (tasks : List Nat)
  | submitted (task : Nat) (fire : PendingFire)
  | skipped (task : Nat)
  deriving DecidableEq, Repr

/-- The scheduler, the firings its running poll still has to submit, and what is kept for
the proofs: the latest time that was read, the task in each slot, the number of tasks
and the history. -/
structure World (maxTasks : Nat) where
  timer : TimerScheduler maxTasks
  pending : List (Nat × PendingFire)
  clock : Nat
  owner : Fin maxTasks → Nat
  tasks : Nat
  log : List Event

inductive Label where
  | schedule (request : Request) (now : Nat)
  | cancel (id : Nat)
  | poll (now : Nat)
  | submit (allocated : Bool)

/-- There is one polling thread, and it may be caught in the loop of a slot. -/
inductive Stuck where
  | polling | idle | endless

namespace World

def initial (maxTasks : Nat) : World maxTasks where
  timer := .initial maxTasks
  pending := []
  clock := 0
  owner _ := 0
  tasks := 0
  log := []

def record (s : World maxTasks) (e : Event) : World maxTasks := { s with log := s.log ++ [e] }

def enroll (s : World maxTasks) (request : Request) (now : Nat) (i : Fin maxTasks)
    (timer : TimerScheduler maxTasks) : World maxTasks where
  timer := timer
  pending := s.pending
  clock := now
  owner := update s.owner i s.tasks
  tasks := s.tasks + 1
  log := s.log ++
    [.scheduled s.tasks s.timer.nextId now request.intervalNs request.oneShot]

def gather (s : World maxTasks) (now : Nat) (collected : TimerScheduler.Collected maxTasks) :
    World maxTasks where
  timer := collected.1
  pending := collected.2.map fun firing => (s.owner firing.1, firing.2)
  clock := now
  owner := s.owner
  tasks := s.tasks
  log := s.log ++ [.polled now (collected.2.map fun firing => s.owner firing.1)]

def step : Label → World maxTasks → Except Stuck (World maxTasks)
  | .schedule request now, s =>
    match s.timer.schedule request now with
    | .error e => .ok (s.record (.refused e))
    | .ok (i, timer) => .ok (s.enroll request now i timer)
  | .cancel id, s =>
    match s.timer.cancel id with
    | .error e => .ok (s.record (.refused e))
    | .ok (i, timer) => .ok { s with timer := timer, log := s.log ++ [.cancelled (s.owner i)] }
  | .poll now, s =>
    if s.pending ≠ [] then .error .polling
    else
      match s.timer.collect now with
      | none => .error .endless
      | some collected => .ok (s.gather now collected)
  | .submit allocated, s =>
    match s.pending with
    | [] => .error .idle
    | (task, fire) :: rest => .ok { s with
        timer := s.timer.fire allocated
        pending := rest
        log := s.log ++ [if allocated then .submitted task fire else .skipped task] }

/-- What a step does. -/
inductive Effect (s : World maxTasks) : Label → World maxTasks → Prop where
  | refused {label : Label} (e : TimerError) : Effect s label (s.record (.refused e))
  | scheduled {request : Request} {now : Nat} {i : Fin maxTasks} : request.intervalMs ≠ 0 →
      (s.timer.slots i).active = false →
      Effect s (.schedule request now) (s.enroll request now i
        { s.timer.set i (s.timer.armed request now) with
          nextId := (s.timer.nextId + 1) % 2 ^ 32 })
  | cancelled {id : Nat} {i : Fin maxTasks} : (s.timer.slots i).active = true →
      (s.timer.slots i).id = id →
      Effect s (.cancel id)
        { s with timer := s.timer.disarm i, log := s.log ++ [.cancelled (s.owner i)] }
  | polled {now : Nat} {collected : TimerScheduler.Collected maxTasks} : s.pending = [] →
      s.timer.collect now = some collected → Effect s (.poll now) (s.gather now collected)
  | submitted {allocated : Bool} {task : Nat} {fire : PendingFire}
      {rest : List (Nat × PendingFire)} : s.pending = (task, fire) :: rest →
      Effect s (.submit allocated) { s with
        timer := s.timer.fire allocated
        pending := rest
        log := s.log ++ [if allocated then .submitted task fire else .skipped task] }

end World

namespace TimerScheduler
variable {timer : TimerScheduler maxTasks} {i j : Fin maxTasks} {slot : TaskSlot} {id : Nat}

@[simp] theorem set_same : (timer.set i slot).slots i = slot := update_self ..

theorem set_other (other : j ≠ i) : (timer.set i slot).slots j = timer.slots j :=
  update_of_ne other ..

@[simp] theorem fire_slots : (timer.fire allocated).slots = timer.slots := by
  cases allocated <;> rfl

@[simp] theorem fire_nextId : (timer.fire allocated).nextId = timer.nextId := by
  cases allocated <;> rfl

theorem inactive_of_first (first : timer.firstInactive = some i) :
    (timer.slots i).active = false := by
  have test := List.find?_some first
  rwa [Bool.not_eq_true'] at test

theorem active_of_find (found : timer.find id = some i) :
    (timer.slots i).active = true ∧ (timer.slots i).id = id := by
  have test := List.find?_some found
  rwa [Bool.and_eq_true, decide_eq_true_eq] at test

theorem disarm_active : ((timer.disarm i).slots j).active = true ↔
    j ≠ i ∧ (timer.slots j).active = true := by
  rw [disarm]
  by_cases here : j = i
  · simp [here]
  · simp [set_other here, here]

theorem disarm_id : ((timer.disarm i).slots j).id = (timer.slots j).id := by
  rw [disarm]
  by_cases here : j = i
  · rw [here, set_same]
  · rw [set_other here]

theorem disarm_same (active : ((timer.disarm i).slots j).active = true) :
    (timer.disarm i).slots j = timer.slots j := set_other (disarm_active.mp active).1

/-- What the loop has done to the slots `indices` in front of it. -/
structure Scanned (now : Nat) (indices : List (Fin maxTasks)) (before after : Collected maxTasks) :
    Prop where
  scanned : ∀ i ∈ indices, (before.1.slots i).scan now = some (after.1.slots i)
  kept : ∀ i, i ∉ indices → after.1.slots i = before.1.slots i
  nextId : after.1.nextId = before.1.nextId
  counters : after.1.fired = before.1.fired ∧ after.1.skipped = before.1.skipped
  firings : after.2 = before.2 ++ (indices.filter fun i => (before.1.slots i).due now).map
    fun i => (i, (before.1.slots i).pendingFire)

variable {now : Nat} {before middle after : Collected maxTasks} {indices : List (Fin maxTasks)}

theorem collectSlot_scanned (done : collectSlot now before i = some after) :
    Scanned now [i] before after := by
  unfold collectSlot at done
  by_cases due : (before.1.slots i).due now = true
  · rw [if_pos due] at done
    obtain ⟨slot, expired, rfl⟩ := Option.map_eq_some_iff.mp done
    constructor
    · intro j mem
      obtain rfl := List.mem_singleton.mp mem
      rw [TaskSlot.scan, if_pos due, expired, set_same]
    · intro j outside
      exact set_other fun same => outside (List.mem_singleton.mpr same)
    · rfl
    · exact ⟨rfl, rfl⟩
    · simp [due]
  · rw [if_neg due] at done
    cases done
    constructor
    · intro j mem
      obtain rfl := List.mem_singleton.mp mem
      rw [TaskSlot.scan, if_neg due]
    · exact fun _ _ => rfl
    · rfl
    · exact ⟨rfl, rfl⟩
    · simp [due]

theorem Scanned.cons (first : Scanned now [i] before middle)
    (others : Scanned now indices middle after) (fresh : i ∉ indices) :
    Scanned now (i :: indices) before after := by
  have same : ∀ j ∈ indices, middle.1.slots j = before.1.slots j := by
    intro j mem
    apply first.kept
    rintro inside
    exact fresh (List.mem_singleton.mp inside ▸ mem)
  constructor
  · intro j mem
    rcases List.mem_cons.mp mem with rfl | later
    · rw [others.kept j fresh]
      exact first.scanned j (List.mem_singleton_self j)
    · rw [← same j later]
      exact others.scanned j later
  · intro j outside
    obtain ⟨apart, away⟩ := not_or.mp (mt List.mem_cons.mpr outside)
    rw [others.kept j away]
    exact first.kept j (mt List.mem_singleton.mp apart)
  · rw [others.nextId, first.nextId]
  · exact ⟨others.counters.1.trans first.counters.1, others.counters.2.trans first.counters.2⟩
  · have filters : (indices.filter fun j => (middle.1.slots j).due now) =
        indices.filter fun j => (before.1.slots j).due now :=
      List.filter_congr fun j mem => by rw [same j mem]
    have fires : ((indices.filter fun j => (before.1.slots j).due now).map
        fun j => (j, (middle.1.slots j).pendingFire)) =
        (indices.filter fun j => (before.1.slots j).due now).map
          fun j => (j, (before.1.slots j).pendingFire) :=
      List.map_congr_left fun j mem => by rw [same j (List.mem_filter.mp mem).1]
    rw [others.firings, first.firings, filters, fires, List.append_assoc, ← List.map_append,
      ← List.filter_append, List.singleton_append]

theorem foldlM_scanned (once : indices.Nodup)
    (done : indices.foldlM (collectSlot now) before = some after) :
    Scanned now indices before after := by
  induction indices generalizing before with
  | nil =>
    cases done
    constructor
    · intro i mem
      cases mem
    · exact fun _ _ => rfl
    · rfl
    · exact ⟨rfl, rfl⟩
    · exact (List.append_nil _).symm
  | cons _ _ ih =>
    obtain ⟨fresh, once⟩ := List.nodup_cons.mp once
    obtain ⟨middle, first, others⟩ := Option.bind_eq_some_iff.mp done
    exact (collectSlot_scanned first).cons (ih once others) fresh

theorem foldlM_ends (once : indices.Nodup)
    (ends : ∀ i ∈ indices, ((before.1.slots i).scan now).isSome = true) :
    ∃ after, indices.foldlM (collectSlot now) before = some after := by
  induction indices generalizing before with
  | nil => exact ⟨before, rfl⟩
  | cons i rest ih =>
    obtain ⟨fresh, once⟩ := List.nodup_cons.mp once
    have first : ∃ middle, collectSlot now before i = some middle := by
      have leaves := ends i List.mem_cons_self
      unfold TaskSlot.scan at leaves
      unfold collectSlot
      by_cases due : (before.1.slots i).due now = true
      · rw [if_pos due] at leaves ⊢
        obtain ⟨slot, expired⟩ := Option.isSome_iff_exists.mp leaves
        exact ⟨_, Option.map_eq_some_iff.mpr ⟨slot, expired, rfl⟩⟩
      · exact ⟨before, if_neg due⟩
    obtain ⟨middle, first⟩ := first
    have kept := (collectSlot_scanned first).kept
    have later : ∀ j ∈ rest, ((middle.1.slots j).scan now).isSome = true := by
      intro j mem
      rw [kept j fun inside => fresh (List.mem_singleton.mp inside ▸ mem)]
      exact ends j (List.mem_cons_of_mem i mem)
    obtain ⟨after, done⟩ := ih once later
    refine ⟨after, ?_⟩
    exact Option.bind_eq_some_iff.mpr ⟨middle, first, done⟩

theorem collect_scanned (done : timer.collect now = some after) :
    Scanned now (List.finRange maxTasks) (timer, []) after :=
  foldlM_scanned (List.nodup_finRange maxTasks) done

theorem collect_ends (ends : ∀ i, ((timer.slots i).scan now).isSome = true) :
    ∃ after, timer.collect now = some after := by
  exact foldlM_ends (List.nodup_finRange maxTasks) fun i _ => ends i

end TimerScheduler

namespace World
theorem step_effect (ran : step label s = .ok t) : Effect s label t := by
  cases label with
  | schedule request =>
    simp only [step, TimerScheduler.schedule] at ran
    by_cases zero : request.intervalMs = 0
    · rw [if_pos zero] at ran
      cases ran
      exact .refused _
    · rw [if_neg zero] at ran
      cases first : s.timer.firstInactive with
      | none =>
        rw [first] at ran
        cases ran
        exact .refused _
      | some =>
        rw [first] at ran
        cases ran
        exact .scheduled zero (TimerScheduler.inactive_of_first first)
  | cancel id =>
    simp only [step, TimerScheduler.cancel] at ran
    cases found : s.timer.find id with
    | none =>
      rw [found] at ran
      cases ran
      exact .refused _
    | some =>
      rw [found] at ran
      cases ran
      obtain ⟨active, same⟩ := TimerScheduler.active_of_find found
      exact .cancelled active same
  | poll =>
    simp only [step] at ran
    (repeat' split at ran) <;> cases ran
    exact .polled (not_not.mp ‹_›) ‹_›
  | submit =>
    simp only [step] at ran
    split at ran <;> cases ran
    exact .submitted ‹_›

end World

end Coact.Timer
