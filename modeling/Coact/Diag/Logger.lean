import Mathlib.Data.Nat.Bitwise
import Coact.Queue.Ring

/-! `Logger` (`diag/log.hpp`). Recording and popping are one critical section each; what
lies outside of it is the reading of the counter, which comes with the record, and the
signal to the writer. -/
namespace Coact.Diag
open Function

inductive LogLevel where
  | kDebug | kInfo | kWarn | kError
  deriving DecidableEq, Repr

def LogLevel.code : LogLevel → Nat
  | .kDebug => 0
  | .kInfo => 1
  | .kWarn => 2
  | .kError => 3

inductive LogLane where
  | kCritical | kNormal
  deriving DecidableEq, Repr

def laneOf : LogLevel → LogLane
  | .kError => .kCritical
  | .kDebug | .kInfo | .kWarn => .kNormal

structure LogRecord where
  counter : UInt32
  eventId : UInt16
  sourceId : UInt16
  arg0 : UInt32
  arg1 : UInt32
  arg2 : UInt32
  arg3 : UInt32
  deriving DecidableEq, Repr

/-- `DiagRing` has the cells and the indices of `SingleCoreCriticalRing`. -/
abbrev DiagRing (α : Type) := Ring α

namespace DiagRing
variable {α : Type}

def tryPush (q : DiagRing α) (v : α) : DiagRing α × Bool := q.pushObserved v

/-- A cell that was popped keeps its record until it is written again. -/
def popped (q : DiagRing α) : DiagRing α where
  capacity := q.capacity
  cells := q.cells
  writeIndex := (q.writeIndex + 1) % q.capacity
  count := q.count - 1
  write_lt := Nat.mod_lt _ (Nat.zero_lt_of_lt q.write_lt)
  count_le := (Nat.sub_le _ _).trans q.count_le
  live := by
    intro i below
    rw [Ring.next_position]
    exact q.live (i + 1) (by omega)

def tryPop (q : DiagRing α) : DiagRing α × Option α :=
  if q.count = 0 then (q, none) else (popped q, q.cells q.writeIndex)

theorem tryPush_cases (q : DiagRing α) (v : α) :
    (∃ q', tryPush q v = (q', true) ∧ q'.toList = q.toList ++ [v] ∧ q'.capacity = q.capacity ∧
      q.count < q.capacity) ∨
    (q.count = q.capacity ∧ tryPush q v = (q, false)) := by
  by_cases room : q.count < q.capacity
  · refine .inl ⟨q.pushed v room, ?_, Ring.toList_pushed q v room, rfl, room⟩
    rw [tryPush, Ring.pushObserved, dif_pos room]
  · refine .inr ⟨Nat.le_antisymm q.count_le (not_lt.mp room), ?_⟩
    rw [tryPush, Ring.pushObserved, dif_neg room]

theorem toList_popped (q : DiagRing α) (filled : q.count ≠ 0) :
    ∃ v, q.cells q.writeIndex = some v ∧ q.toList = v :: (popped q).toList := by
  obtain ⟨n, count⟩ := Nat.exists_eq_succ_of_ne_zero filled
  obtain ⟨v, stored⟩ := Option.isSome_iff_exists.mp (q.live 0 (Nat.pos_of_ne_zero filled))
  rw [Nat.add_zero, Nat.mod_eq_of_lt q.write_lt] at stored
  refine ⟨v, stored, ?_⟩
  simp only [popped, Ring.toList, count, Nat.succ_sub_one]
  rw [List.range_succ_eq_map, List.filterMap_cons, List.filterMap_map]
  simp only [Nat.add_zero, Nat.mod_eq_of_lt q.write_lt, stored, List.cons.injEq, true_and]
  apply List.filterMap_congr
  intro i mem
  rw [Ring.next_position]
  rfl

theorem tryPop_cases (q : DiagRing α) :
    (∃ q' v, tryPop q = (q', some v) ∧ q.toList = v :: q'.toList ∧ q'.capacity = q.capacity) ∨
    (q.toList = [] ∧ tryPop q = (q, none)) := by
  by_cases empty : q.count = 0
  · exact .inr ⟨Ring.toList_eq_nil.mpr empty, if_pos empty⟩
  · obtain ⟨v, stored, split⟩ := toList_popped q empty
    refine .inl ⟨popped q, v, ?_, split, rfl⟩
    rw [tryPop, if_neg empty, stored]

end DiagRing

/-- The template parameters, with their static assertions, and `CMDFW_LOG_MIN_LEVEL`. -/
structure LoggerConfig where
  normalCapacity : Nat
  criticalCapacity : Nat
  normalDebugWatermarkPercent : Nat
  normalInfoWatermarkPercent : Nat
  minLevel : Nat
  normal_pos : 0 < normalCapacity
  critical_pos : 0 < criticalCapacity
  normal_fits : normalCapacity < 65536
  critical_fits : criticalCapacity < 65536
  debug_le : normalDebugWatermarkPercent ≤ 100
  info_le : normalInfoWatermarkPercent ≤ 100

def kPercentFull : Nat := 100

namespace LoggerConfig

def capacity (cfg : LoggerConfig) : LogLane → Nat
  | .kCritical => cfg.criticalCapacity
  | .kNormal => cfg.normalCapacity

def watermark (cfg : LoggerConfig) : LogLevel → Nat
  | .kDebug => cfg.normalDebugWatermarkPercent
  | .kInfo => cfg.normalInfoWatermarkPercent
  | .kWarn | .kError => kPercentFull

def threshold (cfg : LoggerConfig) (level : LogLevel) : Nat :=
  cfg.watermark level * cfg.capacity (laneOf level) / kPercentFull % 65536

/-- `CMDFW_DIAG_GATE` -/
def gate (cfg : LoggerConfig) (level : LogLevel) : Bool := decide (cfg.minLevel ≤ level.code)

section
variable (cfg : LoggerConfig)
include cfg

theorem capacity_pos (lane : LogLane) : 0 < cfg.capacity lane := by
  cases lane
  · exact cfg.critical_pos
  · exact cfg.normal_pos

theorem capacity_fits (lane : LogLane) : cfg.capacity lane < 65536 := by
  cases lane
  · exact cfg.critical_fits
  · exact cfg.normal_fits

theorem watermark_le (level : LogLevel) : cfg.watermark level ≤ kPercentFull := by
  cases level
  · exact cfg.debug_le
  · exact cfg.info_le
  · exact le_rfl
  · exact le_rfl

theorem share_le (level : LogLevel) :
    cfg.watermark level * cfg.capacity (laneOf level) / kPercentFull ≤
      cfg.capacity (laneOf level) := by
  apply Nat.div_le_of_le_mul
  exact Nat.mul_le_mul_right _ (cfg.watermark_le level)

theorem threshold_eq (level : LogLevel) : cfg.threshold level =
    cfg.watermark level * cfg.capacity (laneOf level) / kPercentFull :=
  Nat.mod_eq_of_lt (Nat.lt_of_le_of_lt (cfg.share_le level) (cfg.capacity_fits _))

end

end LoggerConfig

/-- A ring with its part of `LogStats` and its high-water mark. -/
structure Lane where
  ring : DiagRing LogRecord
  accepted : Nat
  droppedAtEnqueue : Nat
  drained : Nat
  highWatermark : Nat

/-- Which of the hooks given to `bind` are there. -/
structure Hooks where
  save : Bool
  restore : Bool
  signalFromTask : Bool
  signalFromIsr : Bool

structure Logger where
  hooks : Hooks
  lanes : LogLane → Lane
  wakeSignal : Nat

def saturatingIncrement (value : Nat) : Nat := if value < 0xFFFFFFFF then value + 1 else value

/-- `push_lane` -/
def Lane.push (lane : Lane) (r : LogRecord) (threshold : Nat) : Lane × Bool :=
  if threshold ≤ lane.ring.count then
    ({ lane with droppedAtEnqueue := (lane.droppedAtEnqueue + 1) % 2 ^ 32 }, false)
  else
    match DiagRing.tryPush lane.ring r with
    | (ring, true) => ({ lane with
        ring := ring
        accepted := (lane.accepted + 1) % 2 ^ 32
        highWatermark := if lane.highWatermark < ring.count then ring.count else lane.highWatermark },
        true)
    | (_, false) =>
      ({ lane with droppedAtEnqueue := (lane.droppedAtEnqueue + 1) % 2 ^ 32 }, false)

def Lane.pop (lane : Lane) : Lane × Option LogRecord :=
  match DiagRing.tryPop lane.ring with
  | (ring, some r) => ({ lane with ring := ring, drained := (lane.drained + 1) % 2 ^ 32 }, some r)
  | (_, none) => (lane, none)

namespace Logger
variable {cfg : LoggerConfig}

def fresh (cfg : LoggerConfig) : Logger where
  hooks := ⟨false, false, false, false⟩
  lanes lane := ⟨Ring.empty (cfg.capacity lane) (cfg.capacity_pos lane), 0, 0, 0, 0⟩
  wakeSignal := 0

def bound (l : Logger) : Bool := l.hooks.save

def bind (l : Logger) (hooks : Hooks) : Option Logger :=
  if l.bound then none
  else if !hooks.save || !hooks.restore then none
  else if !hooks.signalFromTask then none
  else some { l with hooks := hooks }

def canSignal (l : Logger) (isr : Bool) : Bool :=
  if isr then l.hooks.signalFromIsr else l.hooks.signalFromTask

/-- `record_impl` up to the signal, with whether the record is accepted. -/
def recordImpl (cfg : LoggerConfig) (l : Logger) (isr : Bool) (level : LogLevel) (r : LogRecord) :
    Logger × Bool :=
  if l.bound then
    let pushed := (l.lanes (laneOf level)).push r (cfg.threshold level)
    ({ l with
        lanes := update l.lanes (laneOf level) pushed.1
        wakeSignal :=
          if pushed.2 && l.canSignal isr then saturatingIncrement l.wakeSignal else l.wakeSignal },
      pushed.2)
  else (l, false)

def popFromLane (l : Logger) (lane : LogLane) : Logger × Option LogRecord :=
  if l.bound then
    ({ l with lanes := update l.lanes lane (l.lanes lane).pop.1 }, (l.lanes lane).pop.2)
  else (l, none)

def size (l : Logger) (lane : LogLane) : Nat := if l.bound then (l.lanes lane).ring.count else 0

/-- The records of a lane, the oldest first. -/
def contents (l : Logger) (lane : LogLane) : List LogRecord := (l.lanes lane).ring.toList

theorem length_contents (l : Logger) (lane : LogLane) :
    (l.contents lane).length = (l.lanes lane).ring.count := Ring.toList_length _

theorem size_eq {l : Logger} {lane : LogLane} (bound : l.bound = true) :
    l.size lane = (l.contents lane).length := by
  rw [size, if_pos bound, length_contents]

variable {l : Logger} {isr : Bool} {level : LogLevel} {r : LogRecord} {lane : LogLane}

theorem recordImpl_hooks : (l.recordImpl cfg isr level r).1.hooks = l.hooks := by
  unfold recordImpl
  split <;> rfl

theorem recordImpl_accepted (bound : l.bound = true) : (l.recordImpl cfg isr level r).2 =
    ((l.lanes (laneOf level)).push r (cfg.threshold level)).2 := by
  rw [recordImpl, if_pos bound]

theorem recordImpl_same (bound : l.bound = true) :
    (l.recordImpl cfg isr level r).1.lanes (laneOf level) =
      ((l.lanes (laneOf level)).push r (cfg.threshold level)).1 := by
  rw [recordImpl, if_pos bound]
  exact update_self ..

theorem recordImpl_other (other : lane ≠ laneOf level) :
    (l.recordImpl cfg isr level r).1.lanes lane = l.lanes lane := by
  unfold recordImpl
  split
  · exact update_of_ne other ..
  · rfl

theorem popFromLane_hooks : (l.popFromLane lane).1.hooks = l.hooks := by
  unfold popFromLane
  split <;> rfl

theorem popFromLane_popped (bound : l.bound = true) :
    (l.popFromLane lane).2 = (l.lanes lane).pop.2 := by
  rw [popFromLane, if_pos bound]

theorem popFromLane_same (bound : l.bound = true) :
    (l.popFromLane lane).1.lanes lane = (l.lanes lane).pop.1 := by
  rw [popFromLane, if_pos bound]
  exact update_self ..

theorem popFromLane_other (other : lane' ≠ lane) :
    (l.popFromLane lane).1.lanes lane' = l.lanes lane' := by
  unfold popFromLane
  split
  · exact update_of_ne other ..
  · rfl

end Logger

/-- What a push does to a lane of the given capacity. -/
inductive Lane.Pushed (capacity threshold : Nat) (r : LogRecord) (lane : Lane) :
    Lane × Bool → Prop where
  | accepted {ring : DiagRing LogRecord} : lane.ring.count < threshold →
      lane.ring.count < capacity → ring.toList = lane.ring.toList ++ [r] →
      ring.capacity = capacity →
      Pushed capacity threshold r lane ({ lane with
        ring := ring
        accepted := (lane.accepted + 1) % 2 ^ 32
        highWatermark := max lane.highWatermark (lane.ring.count + 1) }, true)
  | dropped : ¬ (lane.ring.count < threshold ∧ lane.ring.count < capacity) →
      Pushed capacity threshold r lane
        ({ lane with droppedAtEnqueue := (lane.droppedAtEnqueue + 1) % 2 ^ 32 }, false)

inductive Lane.Popped (capacity : Nat) (lane : Lane) : Lane × Option LogRecord → Prop where
  | some {ring : DiagRing LogRecord} {r : LogRecord} : lane.ring.toList = r :: ring.toList →
      ring.capacity = capacity → Popped capacity lane
        ({ lane with ring := ring, drained := (lane.drained + 1) % 2 ^ 32 }, some r)
  | none : lane.ring.toList = [] → Popped capacity lane (lane, none)

section
variable {lane : Lane} {capacity threshold : Nat}

theorem Lane.push_pushed (sized : lane.ring.capacity = capacity) :
    lane.Pushed capacity threshold r (lane.push r threshold) := by
  unfold push
  by_cases past : threshold ≤ lane.ring.count
  · rw [if_pos past]
    exact .dropped fun below => Nat.not_lt_of_ge past below.1
  · rw [if_neg past]
    rcases DiagRing.tryPush_cases lane.ring r with ⟨ring, done, appended, kept, room⟩ | ⟨full, done⟩
    · have count : ring.count = lane.ring.count + 1 := by
        rw [← Ring.toList_length ring, appended, List.length_append, Ring.toList_length]
        rfl
      have mark : (if lane.highWatermark < ring.count then ring.count else lane.highWatermark) =
          max lane.highWatermark (lane.ring.count + 1) := by
        split <;> omega
      rw [done]
      dsimp only
      rw [mark]
      exact .accepted (not_le.mp past) (sized ▸ room) appended (kept.trans sized)
    · rw [done]
      exact .dropped fun below => Nat.ne_of_lt below.2 (full.trans sized)

theorem Lane.pop_popped (sized : lane.ring.capacity = capacity) :
    lane.Popped capacity lane.pop := by
  unfold pop
  rcases DiagRing.tryPop_cases lane.ring with ⟨ring, r, done, split, kept⟩ | ⟨empty, done⟩
  · rw [done]
    exact .some split (kept.trans sized)
  · rw [done]
    exact .none empty

end

namespace Logger
variable {cfg : LoggerConfig} {l : Logger} {isr : Bool} {level : LogLevel} {r : LogRecord}
  {lane : LogLane}

/-- The rings have the capacities of the configuration and the hooks are set. -/
structure Ready (cfg : LoggerConfig) (l : Logger) : Prop where
  bound : l.bound = true
  sized : ∀ lane, (l.lanes lane).ring.capacity = cfg.capacity lane

theorem Ready.recordImpl (ready : Ready cfg l) : Ready cfg (l.recordImpl cfg isr level r).1 := by
  refine ⟨(congrArg Hooks.save recordImpl_hooks).trans ready.bound, fun lane => ?_⟩
  by_cases here : lane = laneOf level
  · subst here
    have done : Lane.Pushed _ (cfg.threshold level) r _ _ :=
      Lane.push_pushed (ready.sized (laneOf level))
    rw [recordImpl_same ready.bound]
    generalize (l.lanes (laneOf level)).push r (cfg.threshold level) = pushed at done
    cases done with
    | accepted _ _ _ sized => exact sized
    | dropped => exact ready.sized _
  · rw [recordImpl_other here]
    exact ready.sized lane

/-- A record that is accepted is the last of its lane; otherwise the lanes keep theirs. -/
theorem Ready.contents_recordImpl (ready : Ready cfg l) :
    (l.recordImpl cfg isr level r).1.contents lane = l.contents lane ++
      if (l.recordImpl cfg isr level r).2 = true ∧ lane = laneOf level then [r] else [] := by
  rw [recordImpl_accepted ready.bound]
  by_cases here : lane = laneOf level
  · subst here
    have done : Lane.Pushed _ (cfg.threshold level) r _ _ :=
      Lane.push_pushed (ready.sized (laneOf level))
    rw [contents, recordImpl_same ready.bound]
    generalize (l.lanes (laneOf level)).push r (cfg.threshold level) = pushed at done
    cases done with
    | accepted _ _ appended =>
      rw [if_pos ⟨rfl, rfl⟩]
      exact appended
    | dropped =>
      rw [if_neg fun both => Bool.false_ne_true both.1, List.append_nil]
      rfl
  · rw [contents, recordImpl_other here, if_neg fun both => here both.2, List.append_nil]
    rfl

theorem Ready.popFromLane_cases (ready : Ready cfg l) (lane : LogLane) :
    (∃ l' r, l.popFromLane lane = (l', some r) ∧ l.contents lane = r :: l'.contents lane ∧
      (∀ lane', lane' ≠ lane → l'.contents lane' = l.contents lane') ∧ Ready cfg l') ∨
    (l.contents lane = [] ∧ l.popFromLane lane = (l, none)) := by
  have done := Lane.pop_popped (ready.sized lane)
  have answer : (l.popFromLane lane).2 = _ := popFromLane_popped ready.bound
  have here : (l.popFromLane lane).1.lanes lane = _ := popFromLane_same ready.bound
  have away : ∀ lane', lane' ≠ lane → (l.popFromLane lane).1.lanes lane' = l.lanes lane' :=
    fun lane' => popFromLane_other
  generalize popping : (l.lanes lane).pop = popped at done answer here
  cases done with
  | @some _ r split sized =>
    refine .inl ⟨(l.popFromLane lane).1, r, Prod.ext rfl answer, ?_, ?_, ?_, ?_⟩
    · rw [contents, contents, here]
      exact split
    · intro lane' other
      rw [contents, contents, away lane' other]
    · exact (congrArg Hooks.save popFromLane_hooks).trans ready.bound
    · intro lane'
      by_cases same : lane' = lane
      · subst same
        rw [here]
        exact sized
      · rw [away lane' same]
        exact ready.sized lane'
  | none empty =>
    refine .inr ⟨empty, ?_⟩
    rw [popFromLane, if_pos ready.bound, popping, update_eq_self]

end Logger

end Coact.Diag
