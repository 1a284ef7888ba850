import Coact.Diag.Logger
import Coact.Foundation.Transition

/-! The two lanes of the logger, over all sequences of records and pops. Every record
offered at an enabled level is either accepted, and then popped in its turn, or counted
as dropped, and neither lane notices the other. -/
namespace Coact.Diag
open Foundation

inductive Event where
  | attempt (lane : LogLane) (r : LogRecord) (accepted : Bool)
  | popped (lane : LogLane) (r : LogRecord)

def Event.isAttempt (lane : LogLane) : Event → Bool
  | .attempt lane' _ _ => lane' = lane
  | .popped _ _ => false

def Event.accepted (lane : LogLane) : Event → Option LogRecord
  | .attempt lane' r true => if lane' = lane then some r else none
  | .attempt _ _ false | .popped _ _ => none

def Event.drained (lane : LogLane) : Event → Option LogRecord
  | .popped lane' r => if lane' = lane then some r else none
  | .attempt _ _ _ => none

def attempts (lane : LogLane) (log : List Event) : Nat := log.countP (Event.isAttempt lane)

def acceptedOf (lane : LogLane) (log : List Event) : List LogRecord :=
  log.filterMap (Event.accepted lane)

def drainedOf (lane : LogLane) (log : List Event) : List LogRecord :=
  log.filterMap (Event.drained lane)

def sizeAfter (lane : LogLane) (log : List Event) : Nat :=
  (acceptedOf lane log).length - (drainedOf lane log).length

structure World where
  logger : Logger
  log : List Event

inductive Call where
  | record (isr : Bool) (level : LogLevel) (r : LogRecord)
  | pop (lane : LogLane)

/-- The lane a call works on. -/
def Call.lane : Call → LogLane
  | .record _ level _ => laneOf level
  | .pop lane => lane

namespace World
variable {cfg : LoggerConfig}

/-- A record below the minimal level is not compiled in. -/
def record (cfg : LoggerConfig) (s : World) (isr : Bool) (level : LogLevel) (r : LogRecord) : World :=
  if cfg.gate level then
    ⟨(s.logger.recordImpl cfg isr level r).1,
      s.log ++ [.attempt (laneOf level) r (s.logger.recordImpl cfg isr level r).2]⟩
  else s

def pop (s : World) (lane : LogLane) : World :=
  ⟨(s.logger.popFromLane lane).1,
    s.log ++ ((s.logger.popFromLane lane).2.map (Event.popped lane)).toList⟩

/-- A call always returns. -/
def after (cfg : LoggerConfig) (s : World) : Call → World
  | .record isr level r => s.record cfg isr level r
  | .pop lane => s.pop lane

def step (cfg : LoggerConfig) (call : Call) (s : World) : Except Empty World :=
  .ok (s.after cfg call)

end World

section
variable {lane : LogLane} {log : List Event}

@[simp] theorem attempts_snoc :
    attempts lane (log ++ [e]) = attempts lane log + if e.isAttempt lane then 1 else 0 := by
  rw [attempts, List.countP_append, List.countP_singleton]
  rfl

@[simp] theorem acceptedOf_snoc :
    acceptedOf lane (log ++ [e]) = acceptedOf lane log ++ (e.accepted lane).toList := by
  cases found : e.accepted lane <;> simp [found, acceptedOf]

@[simp] theorem drainedOf_snoc :
    drainedOf lane (log ++ [e]) = drainedOf lane log ++ (e.drained lane).toList := by
  cases found : e.drained lane <;> simp [found, drainedOf]

end

/-- A lane and the history of the logger. -/
structure Lane.Conserved (lane : Lane) (capacity : Nat) (name : LogLane) (log : List Event) :
    Prop where
  sized : lane.ring.capacity = capacity
  order : acceptedOf name log = drainedOf name log ++ lane.ring.toList
  accepted : lane.accepted = (acceptedOf name log).length % 2 ^ 32
  drained : lane.drained = (drainedOf name log).length % 2 ^ 32
  attempted : attempts name log % 2 ^ 32 = (lane.accepted + lane.droppedAtEnqueue) % 2 ^ 32
  highest : ∀ before, before <+: log → sizeAfter name before ≤ lane.highWatermark
  met : ∃ before, before <+: log ∧ sizeAfter name before = lane.highWatermark

namespace Lane.Conserved
variable {lane : Lane} {capacity threshold : Nat} {log : List Event}

theorem empty (positive : 0 < capacity) :
    Conserved ⟨Ring.empty capacity positive, 0, 0, 0, 0⟩ capacity name [] where
  sized := rfl
  order := rfl
  accepted := rfl
  drained := rfl
  attempted := rfl
  highest before start := by
    rw [List.prefix_nil.mp start]
    exact le_rfl
  met := ⟨[], List.nil_prefix, rfl⟩

section
variable (conserved : lane.Conserved capacity name log)
include conserved

theorem size : sizeAfter name log = lane.ring.count := by
  rw [sizeAfter, conserved.order, List.length_append, Nat.add_sub_cancel_left, Ring.toList_length]

theorem balance : lane.accepted = (lane.drained + lane.ring.count) % 2 ^ 32 := by
  rw [conserved.accepted, conserved.drained, conserved.order, List.length_append,
    Ring.toList_length, Nat.mod_add_mod]

theorem mark {n : Nat} (size : sizeAfter name (log ++ [e]) = n) :
    (∀ before, before <+: log ++ [e] → sizeAfter name before ≤ max lane.highWatermark n) ∧
    ∃ before, before <+: log ++ [e] ∧ sizeAfter name before = max lane.highWatermark n := by
  constructor
  · intro before part
    rcases List.prefix_concat_iff.mp part with rfl | shorter
    · rw [size]
      exact Nat.le_max_right ..
    · exact (conserved.highest before shorter).trans (Nat.le_max_left ..)
  · rcases Nat.le_total lane.highWatermark n with rises | stays
    · rw [Nat.max_eq_right rises]
      exact ⟨log ++ [e], List.prefix_refl _, size⟩
    · rw [Nat.max_eq_left stays]
      obtain ⟨before, part, same⟩ := conserved.met
      exact ⟨before, part.trans (List.prefix_append ..), same⟩

theorem aside {lane' : Lane} (none : e.accepted name = none) (still : e.drained name = .none)
    (ring : lane'.ring = lane.ring) (accepted : lane'.accepted = lane.accepted)
    (drained : lane'.drained = lane.drained) (mark : lane'.highWatermark = lane.highWatermark)
    (attempted : (attempts name log + if e.isAttempt name then 1 else 0) % 2 ^ 32 =
      (lane'.accepted + lane'.droppedAtEnqueue) % 2 ^ 32) :
    lane'.Conserved capacity name (log ++ [e]) := by
  have same : acceptedOf name (log ++ [e]) = acceptedOf name log ∧
      drainedOf name (log ++ [e]) = drainedOf name log := by
    rw [acceptedOf_snoc, drainedOf_snoc, none, still]
    exact ⟨List.append_nil _, List.append_nil _⟩
  have size : sizeAfter name (log ++ [e]) = lane.ring.count := by
    rw [sizeAfter, same.1, same.2]
    exact conserved.size
  have below : lane.ring.count ≤ lane.highWatermark := by
    rw [← conserved.size]
    exact conserved.highest log (List.prefix_refl log)
  obtain ⟨highest, met⟩ := conserved.mark size
  rw [Nat.max_eq_left below] at highest met
  constructor
  · rw [ring]
    exact conserved.sized
  · rw [same.1, same.2, ring]
    exact conserved.order
  · rw [accepted, same.1]
    exact conserved.accepted
  · rw [drained, same.2]
    exact conserved.drained
  · rw [attempts_snoc]
    exact attempted
  · rw [mark]
    exact highest
  · rw [mark]
    exact met

theorem push {pushed : Lane × Bool} (done : lane.Pushed capacity threshold r pushed) :
    pushed.1.Conserved capacity name (log ++ [Event.attempt name r pushed.2]) := by
  cases done with
  | @accepted ring below room appended sized =>
    have accepts :
        acceptedOf name (log ++ [Event.attempt name r true]) = acceptedOf name log ++ [r] := by
      rw [acceptedOf_snoc, Event.accepted, if_pos rfl]
      rfl
    have drains : drainedOf name (log ++ [Event.attempt name r true]) = drainedOf name log := by
      rw [drainedOf_snoc]
      exact List.append_nil _
    have order : acceptedOf name (log ++ [Event.attempt name r true]) =
        drainedOf name (log ++ [Event.attempt name r true]) ++ ring.toList := by
      rw [accepts, drains, conserved.order, appended, List.append_assoc]
    have size : sizeAfter name (log ++ [Event.attempt name r true]) = lane.ring.count + 1 := by
      rw [sizeAfter, order, List.length_append, Nat.add_sub_cancel_left, appended,
        List.length_append, Ring.toList_length]
      rfl
    obtain ⟨highest, met⟩ := conserved.mark size
    refine ⟨sized, order, ?_, ?_, ?_, highest, met⟩
    · rw [accepts, List.length_append, conserved.accepted, Nat.mod_add_mod]
      rfl
    · rw [drains]
      exact conserved.drained
    · have attempted := conserved.attempted
      simp only [attempts_snoc, Event.isAttempt, decide_true, if_true]
      omega
  | dropped refused =>
    refine conserved.aside rfl rfl rfl rfl rfl rfl ?_
    have attempted := conserved.attempted
    simp only [Event.isAttempt, decide_true, if_true]
    omega

theorem pop {popped : Lane × Option LogRecord} (done : lane.Popped capacity popped) :
    popped.1.Conserved capacity name (log ++ (popped.2.map (Event.popped name)).toList) := by
  cases done with
  | none =>
    rw [Option.map_none, Option.toList_none, List.append_nil]
    exact conserved
  | @some ring r split sized =>
    have accepts : acceptedOf name (log ++ [Event.popped name r]) = acceptedOf name log := by
      rw [acceptedOf_snoc]
      exact List.append_nil _
    have drains : drainedOf name (log ++ [Event.popped name r]) = drainedOf name log ++ [r] := by
      rw [drainedOf_snoc, Event.drained, if_pos rfl]
      rfl
    have order : acceptedOf name (log ++ [Event.popped name r]) =
        drainedOf name (log ++ [Event.popped name r]) ++ ring.toList := by
      rw [accepts, drains, conserved.order, split, List.append_assoc]
      rfl
    have size : sizeAfter name (log ++ [Event.popped name r]) = ring.count := by
      rw [sizeAfter, order, List.length_append, Nat.add_sub_cancel_left, Ring.toList_length]
    have below : ring.count ≤ lane.highWatermark := by
      have before := conserved.highest log (List.prefix_refl log)
      have shorter : lane.ring.count = ring.count + 1 := by
        rw [← Ring.toList_length lane.ring, split, List.length_cons, Ring.toList_length]
      rw [conserved.size, shorter] at before
      omega
    obtain ⟨highest, met⟩ := conserved.mark size
    rw [Nat.max_eq_left below] at highest met
    show Conserved _ capacity name (log ++ [Event.popped name r])
    refine ⟨sized, order, ?_, ?_, ?_, highest, met⟩
    · rw [accepts]
      exact conserved.accepted
    · rw [drains, List.length_append, conserved.drained, Nat.mod_add_mod]
      rfl
    · rw [attempts, List.countP_append]
      exact conserved.attempted

end

end Lane.Conserved

namespace World
variable {cfg : LoggerConfig} {s : World} {call : Call} {lane : LogLane}

structure Conserved (cfg : LoggerConfig) (s : World) : Prop where
  bound : s.logger.bound = true
  lanes : ∀ lane, (s.logger.lanes lane).Conserved (cfg.capacity lane) lane s.log

theorem after_other (other : lane ≠ call.lane) :
    (s.after cfg call).logger.lanes lane = s.logger.lanes lane := by
  cases call with
  | record =>
    rw [after, record]
    split
    · exact Logger.recordImpl_other other
    · rfl
  | pop => exact Logger.popFromLane_other other

theorem after_bound (bound : s.logger.bound = true) : (s.after cfg call).logger.bound = true := by
  cases call with
  | record =>
    rw [after, record]
    split
    · exact (congrArg Hooks.save Logger.recordImpl_hooks).trans bound
    · exact bound
  | pop => exact (congrArg Hooks.save Logger.popFromLane_hooks).trans bound

theorem Conserved.after_same (conserved : Conserved cfg s) (call : Call) :
    ((s.after cfg call).logger.lanes call.lane).Conserved (cfg.capacity call.lane) call.lane
      (s.after cfg call).log := by
  have bound := conserved.bound
  have before := conserved.lanes call.lane
  cases call with
  | record _ level r =>
    have done : Lane.Pushed _ (cfg.threshold level) r _ _ := Lane.push_pushed before.sized
    rw [after, record]
    split
    · dsimp only [Call.lane]
      rw [Logger.recordImpl_accepted bound, Logger.recordImpl_same bound]
      exact before.push done
    · exact before
  | pop lane =>
    have done := Lane.pop_popped before.sized
    dsimp only [after, pop, Call.lane]
    rw [Logger.popFromLane_popped bound, Logger.popFromLane_same bound]
    exact before.pop done

theorem Conserved.after_aside (conserved : Conserved cfg s) (other : call.lane ≠ lane) :
    (s.logger.lanes lane).Conserved (cfg.capacity lane) lane (s.after cfg call).log := by
  have before := conserved.lanes lane
  cases call with
  | record isr level r =>
    have apart : laneOf level ≠ lane := other
    rw [after, record]
    split
    · refine before.aside ?_ rfl rfl rfl rfl rfl ?_
      · cases (s.logger.recordImpl cfg isr level r).2
        · rfl
        · exact if_neg apart
      · rw [Event.isAttempt, decide_eq_false apart]
        exact before.attempted
    · exact before
  | pop lane' =>
    dsimp only [after, pop]
    cases (s.logger.popFromLane lane').2 with
    | none =>
      rw [Option.map_none, Option.toList_none, List.append_nil]
      exact before
    | some => exact before.aside rfl (if_neg other) rfl rfl rfl rfl before.attempted

theorem Conserved.after (conserved : Conserved cfg s) (call : Call) :
    Conserved cfg (s.after cfg call) := by
  refine ⟨after_bound conserved.bound, fun lane => ?_⟩
  by_cases mine : call.lane = lane
  · subst mine
    exact conserved.after_same call
  · rw [after_other (Ne.symm mine)]
    exact conserved.after_aside mine

theorem conserved_bind {hooks : Hooks}
    (bound : (Logger.fresh cfg).bind hooks = some l) : Conserved cfg ⟨l, []⟩ := by
  have free : ¬ (Logger.fresh cfg).bound = true := Bool.false_ne_true
  rw [Logger.bind, if_neg free] at bound
  split at bound
  · cases bound
  · rename_i gates
    split at bound <;> cases bound
    rw [Bool.or_eq_true, not_or, Bool.not_eq_true', Bool.not_eq_false] at gates
    exact ⟨gates.1, fun lane => .empty (cfg.capacity_pos lane)⟩

theorem Conserved.reached (start : Conserved cfg ⟨l, []⟩)
    (run : Reaches (step cfg) Always ⟨l, []⟩ s) : Conserved cfg s := by
  apply run.invariant (P := Conserved cfg) start
  intro call s t conserved _ ran
  cases ran
  exact conserved.after call

/-- A record is accepted iff its lane is below the share of its level and not full. -/
theorem Conserved.accepts_iff (conserved : Conserved cfg s) {level : LogLevel} :
    (s.logger.recordImpl cfg isr level r).2 = true ↔
      (s.logger.lanes (laneOf level)).ring.count < cfg.threshold level ∧
      (s.logger.lanes (laneOf level)).ring.count < cfg.capacity (laneOf level) := by
  rw [Logger.recordImpl_accepted conserved.bound]
  have done : Lane.Pushed _ (cfg.threshold level) r _ _ :=
    Lane.push_pushed (conserved.lanes (laneOf level)).sized
  generalize (s.logger.lanes (laneOf level)).push r (cfg.threshold level) = pushed at done
  cases done with
  | accepted below room => exact ⟨fun _ => ⟨below, room⟩, fun _ => rfl⟩
  | dropped refused =>
    constructor
    · intro never
      cases never
    · intro below
      exact (refused below).elim

/-- Only the levels of the normal lane below Warn have a share of their own. -/
theorem below_threshold_iff {level : LogLevel} {n : Nat} :
    (n < cfg.threshold level ∧ n < cfg.capacity (laneOf level)) ↔
      n < cfg.capacity (laneOf level) ∧
      (level = .kDebug → n < cfg.normalDebugWatermarkPercent * cfg.normalCapacity / 100) ∧
      (level = .kInfo → n < cfg.normalInfoWatermarkPercent * cfg.normalCapacity / 100) := by
  have full : kPercentFull * cfg.capacity (laneOf level) / kPercentFull =
      cfg.capacity (laneOf level) := Nat.mul_div_cancel_left _ (by decide)
  rw [cfg.threshold_eq]
  cases level with
  | kDebug | kInfo =>
    simp [LoggerConfig.watermark, LoggerConfig.capacity, laneOf, kPercentFull, and_comm]
  | kWarn | kError =>
    rw [LoggerConfig.watermark, full, and_self]
    simp

end World

/-- What holds of both lanes of a bound logger after any sequence of calls: the counters
balance, what is popped is what was accepted, in order, and the mark is the largest size
there was. A record of an enabled level is accepted iff its lane has room for the level;
and a call changes nothing in the lane it is not about. -/
theorem logger_conserves {cfg : LoggerConfig} {hooks : Hooks} {l : Logger}
    (bound : (Logger.fresh cfg).bind hooks = some l) {s : World}
    (run : Reaches (World.step cfg) Always ⟨l, []⟩ s) :
    (∀ name lane, s.logger.lanes name = lane →
      lane.accepted = (lane.drained + lane.ring.count) % 2 ^ 32 ∧
      attempts name s.log % 2 ^ 32 = (lane.accepted + lane.droppedAtEnqueue) % 2 ^ 32 ∧
      acceptedOf name s.log = drainedOf name s.log ++ lane.ring.toList ∧
      lane.ring.count = sizeAfter name s.log ∧
      (∀ before, before <+: s.log → sizeAfter name before ≤ lane.highWatermark) ∧
      ∃ before, before <+: s.log ∧ sizeAfter name before = lane.highWatermark) ∧
    (∀ isr level r, cfg.gate level = true → ∃ accepted,
      (s.after cfg (.record isr level r)).log = s.log ++ [.attempt (laneOf level) r accepted] ∧
      (accepted = true ↔
        s.logger.size (laneOf level) < cfg.capacity (laneOf level) ∧
        (level = .kDebug → s.logger.size (laneOf level) <
          cfg.normalDebugWatermarkPercent * cfg.normalCapacity / 100) ∧
        (level = .kInfo → s.logger.size (laneOf level) <
          cfg.normalInfoWatermarkPercent * cfg.normalCapacity / 100))) ∧
    (∀ call lane, lane ≠ call.lane →
      (s.after cfg call).logger.lanes lane = s.logger.lanes lane) := by
  have conserved := (World.conserved_bind bound).reached run
  refine ⟨?_, ?_, fun call lane => World.after_other⟩
  · rintro name lane rfl
    have kept := conserved.lanes name
    exact ⟨kept.balance, kept.attempted, kept.order, kept.size.symm, kept.highest, kept.met⟩
  · intro isr level r enabled
    refine ⟨(s.logger.recordImpl cfg isr level r).2, ?_, ?_⟩
    · rw [World.after, World.record, if_pos enabled]
    · rw [Logger.size, if_pos conserved.bound]
      exact conserved.accepts_iff.trans World.below_threshold_iff

/-- The parameters of `LogRtThread`, with the static assertions on them. -/
def LogRtThread.config : LoggerConfig where
  normalCapacity := 32
  criticalCapacity := 8
  normalDebugWatermarkPercent := 50
  normalInfoWatermarkPercent := 75
  minLevel := 0
  normal_pos := Nat.succ_pos 31
  critical_pos := by decide
  normal_fits := by decide
  critical_fits := by decide
  debug_le := by decide
  info_le := by decide

/-- All hooks are set. -/
def LogRtThread.hooks : Hooks := ⟨true, true, true, true⟩

def LogRtThread.logger : Logger := { Logger.fresh LogRtThread.config with hooks := LogRtThread.hooks }

/-- One Debug record more than the level's share of the lane, an error, and pops of both
lanes. -/
def LogRtThread.used : World :=
  outcome (World.step LogRtThread.config)
    (List.replicate 17 (.record false .kDebug ⟨1, 2, 3, 0, 0, 0, 0⟩) ++
      [.record true .kError ⟨4, 5, 6, 0, 0, 0, 0⟩, .pop .kNormal, .pop .kNormal, .pop .kCritical])
    ⟨LogRtThread.logger, []⟩

theorem logger_conserves_rtthread :
    ((LogRtThread.used.logger.lanes .kNormal).drained = 2 ∧
      (LogRtThread.used.logger.lanes .kNormal).droppedAtEnqueue = 1 ∧
      (LogRtThread.used.logger.lanes .kCritical).drained = 1) ∧
    (∀ name, acceptedOf name LogRtThread.used.log = drainedOf name LogRtThread.used.log ++
      (LogRtThread.used.logger.lanes name).ring.toList) ∧
    attempts .kNormal LogRtThread.used.log % 2 ^ 32 =
      ((LogRtThread.used.logger.lanes .kNormal).accepted + 1) % 2 ^ 32 ∧
    (∃ accepted, (LogRtThread.used.after LogRtThread.config
        (.record false .kDebug ⟨7, 8, 9, 0, 0, 0, 0⟩)).log =
      LogRtThread.used.log ++ [.attempt .kNormal ⟨7, 8, 9, 0, 0, 0, 0⟩ accepted] ∧
      accepted = true) := by
  have bound : (Logger.fresh LogRtThread.config).bind LogRtThread.hooks =
      some LogRtThread.logger := rfl
  have run : Reaches (World.step LogRtThread.config) Always ⟨LogRtThread.logger, []⟩
      LogRtThread.used := reaches_outcome (by decide +kernel)
  have dropped : (LogRtThread.used.logger.lanes .kNormal).droppedAtEnqueue = 1 := by
    decide +kernel
  obtain ⟨lanes, accepts, -⟩ := logger_conserves bound run
  refine ⟨⟨by decide +kernel, dropped, by decide +kernel⟩, fun name => (lanes name _ rfl).2.2.1,
    dropped ▸ (lanes .kNormal _ rfl).2.1, ?_⟩
  obtain ⟨accepted, logged, room⟩ := accepts false .kDebug ⟨7, 8, 9, 0, 0, 0, 0⟩ rfl
  exact ⟨accepted, logged, room.mpr (by decide +kernel)⟩

end Coact.Diag
