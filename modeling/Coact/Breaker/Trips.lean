import Coact.Breaker.Recovery

/-! What makes `Breaker` leave Normal. In Normal the saturating counters are the
streaks of the inputs since Normal was entered: a recovery hands them over at 0,
and each trips before it saturates. -/
namespace Coact.Breaker
open Foundation

def isDirectTimeout (i : Input) : Bool := i = .directTimeout
def isRtcTimeout (i : Input) : Bool := i = .dispatcherRtcTimeout
def isRtcOk (i : Input) : Bool := i = .rtcOk

def highSample (i : Input) : Bool := (sample i).any fun percent => kWatermarkViolationPct < percent
def calmSample (i : Input) : Bool := (sample i).any fun percent => percent ≤ kWatermarkViolationPct

/-- Direct timeouts since the last qualifying call. -/
def directStreak : List Input → Nat := streak isDirectTimeout isRtcOk

/-- Dispatcher timeouts since the last qualifying call. -/
def rtcStreak : List Input → Nat := streak isRtcTimeout isRtcOk

/-- Watermark samples above 80 in a row. -/
def highStreak : List Input → Nat := streak highSample calmSample

/-- What takes Normal to a level, given the streaks that `i` completes. -/
def Trips (i : Input) (direct rtc high : Nat) : BreakerLevel → Prop
  | .BrokenL1 => i = .directTimeout ∧ direct = kDirectTimeoutThreshold
  | .BrokenL2 =>
    i = .dispatcherRtcTimeout ∧ rtc = kRtcTimeoutThreshold ∨
    highSample i ∧ high = kHighWatermarkPersist ∨ i = .overflow
  | .Safe => i = .keyReserveExhausted ∨ i = .watchdog
  | .Normal | .Recovering => False

/-- The counters are the streaks of the window, none of them complete. -/
structure Counted (s : State) (window : List Input) : Prop where
  direct : s.directTimeoutConsec = directStreak window
  rtc : s.rtcTimeoutConsec = rtcStreak window
  high : s.highWatermarkConsec = highStreak window
  direct_lt : s.directTimeoutConsec < kDirectTimeoutThreshold
  rtc_lt : s.rtcTimeoutConsec < kRtcTimeoutThreshold
  high_lt : s.highWatermarkConsec < kHighWatermarkPersist

theorem Counted.zero (direct : s.directTimeoutConsec = 0)
    (rtc : s.rtcTimeoutConsec = 0) (high : s.highWatermarkConsec = 0) : Counted s [] := by
  constructor <;> simp_all [directStreak, rtcStreak, highStreak, kDirectTimeoutThreshold,
    kRtcTimeoutThreshold, kHighWatermarkPersist]

section
variable {window : List Input}

theorem count_direct (i : Input) (s : State) : (count i s).directTimeoutConsec =
    if isRtcOk i then 0 else if isDirectTimeout i then increment s.directTimeoutConsec
    else s.directTimeoutConsec := by
  cases i <;> simp only [count, countSample] <;> (repeat' split) <;> first | rfl | contradiction

theorem count_rtc (i : Input) (s : State) : (count i s).rtcTimeoutConsec =
    if isRtcOk i then 0 else if isRtcTimeout i then increment s.rtcTimeoutConsec
    else s.rtcTimeoutConsec := by
  cases i <;> simp only [count, countSample] <;> (repeat' split) <;> first | rfl | contradiction

theorem countSample_high (percent : Nat) (s : State) : (countSample percent s).highWatermarkConsec =
    if percent ≤ kWatermarkViolationPct then 0 else increment s.highWatermarkConsec := by
  unfold countSample
  split
  · rename_i high
    rw [if_neg (Nat.not_le.mpr high)]
  · rename_i calm
    rw [if_pos (Nat.not_lt.mp calm)]
    split <;> rfl

theorem count_high (i : Input) (s : State) : (count i s).highWatermarkConsec =
    if calmSample i then 0 else if highSample i then increment s.highWatermarkConsec
    else s.highWatermarkConsec := by
  cases carries : sample i with
  | none =>
    rw [(count_unsampled carries).2, calmSample, highSample, carries]
    rfl
  | some percent =>
    rw [count_sample carries, countSample_high, calmSample, highSample, carries]
    by_cases calm : percent ≤ kWatermarkViolationPct
    · simp [calm]
    · simp [calm, Nat.not_le.mp calm]

theorem counter_streak {n m : Nat} (same : n = streak hit reset window) (few : n < kCounterMask)
    (next : m = if reset i then 0 else if hit i then increment n else n) :
    m = streak hit reset (window ++ [i]) := by
  subst next
  cases resets : reset i with
  | true => rw [if_pos rfl, streak_reset resets]
  | false =>
    rw [if_neg Bool.false_ne_true, streak_snoc resets, ← same, increment, if_pos few]
    split <;> rfl

theorem counter_lt {hit reset : Bool} {n m : Nat} (few : n < kCounterMask)
    (next : m = if reset then 0 else if hit then increment n else n)
    (incomplete : hit = true → m ≠ kCounterMask) : m < kCounterMask := by
  have bound : m ≤ kCounterMask := by
    rw [next, increment, if_pos few]
    split
    · exact Nat.zero_le _
    · split
      · exact few
      · exact Nat.le_of_lt few
  cases hit with
  | true => exact Nat.lt_of_le_of_ne bound (incomplete rfl)
  | false =>
    rw [next]
    split
    · decide
    · exact few

theorem third_iff {n : Nat} (few : n < kCounterMask) :
    kCounterMask ≤ increment n ↔ increment n = kCounterMask := by
  rw [increment, if_pos few]
  exact ⟨Nat.le_antisymm few, fun third => Nat.le_of_eq third.symm⟩

theorem third_sample (carries : sample i = some percent)
    (few : s.highWatermarkConsec < kHighWatermarkPersist) :
    kHighWatermarkPersist ≤ (countSample percent s).highWatermarkConsec ↔
      highSample i ∧ (countSample percent s).highWatermarkConsec = kHighWatermarkPersist := by
  rw [countSample_high, highSample, carries, Option.any_some, decide_eq_true_eq]
  by_cases calm : percent ≤ kWatermarkViolationPct
  · rw [if_pos calm]
    exact ⟨fun never => absurd never (by decide), fun high => absurd high.1 (Nat.not_lt.mpr calm)⟩
  · rw [if_neg calm]
    exact (third_iff few).trans (iff_and_self.mpr fun _ => Nat.not_le.mp calm)

theorem degradesSample_normal (level : s.level = .Normal)
    (carries : sample i = some percent) (few : s.highWatermarkConsec < kHighWatermarkPersist)
    (target : BreakerLevel) :
    degradesSample percent s = some target ↔
      Trips i (count i s).directTimeoutConsec (count i s).rtcTimeoutConsec
        (count i s).highWatermarkConsec target := by
  simp only [degradesSample, level, third_sample carries few, count_sample carries]
  cases i <;> cases carries <;> cases target <;> simp [Trips]

theorem degrades_normal (level : s.level = .Normal) (counted : Counted s window)
    (target : BreakerLevel) :
    degrades i s = some target ↔
      Trips i (count i s).directTimeoutConsec (count i s).rtcTimeoutConsec
        (count i s).highWatermarkConsec target := by
  cases i with
  | directTimeout =>
    have third : kDirectTimeoutThreshold ≤ _ ↔ _ = kDirectTimeoutThreshold :=
      third_iff counted.direct_lt
    simp only [degrades, level, third]
    cases target <;> simp [Trips, count, highSample, sample]
  | dispatcherRtcTimeout =>
    have third : kRtcTimeoutThreshold ≤ _ ↔ _ = kRtcTimeoutThreshold := third_iff counted.rtc_lt
    simp only [degrades, level, third]
    cases target <;> simp [Trips, count, highSample, sample]
  | watermark | watermarkViolation =>
    exact degradesSample_normal level rfl counted.high_lt target
  | _ => cases target <;> simp [degrades, level, Trips, highSample, sample]

theorem Counted.snoc (level : s.level = .Normal) (counted : Counted s window)
    (undegraded : degrades i s = none) : Counted (count i s) (window ++ [i]) := by
  have untripped (target : BreakerLevel) : ¬ Trips i (count i s).directTimeoutConsec
      (count i s).rtcTimeoutConsec (count i s).highWatermarkConsec target := by
    rw [← degrades_normal level counted, undegraded]
    intro never
    cases never
  refine ⟨?_, ?_, ?_, ?_, ?_, ?_⟩
  · exact counter_streak counted.direct counted.direct_lt (count_direct i s)
  · exact counter_streak counted.rtc counted.rtc_lt (count_rtc i s)
  · exact counter_streak counted.high counted.high_lt (count_high i s)
  · exact counter_lt counted.direct_lt (count_direct i s) fun hit third =>
      untripped .BrokenL1 ⟨of_decide_eq_true hit, third⟩
  · exact counter_lt counted.rtc_lt (count_rtc i s) fun hit third =>
      untripped .BrokenL2 (.inl ⟨of_decide_eq_true hit, third⟩)
  · exact counter_lt counted.high_lt (count_high i s) fun hit third =>
      untripped .BrokenL2 (.inr (.inl ⟨hit, third⟩))

end

variable {cfg : Config} {past : List Input} {i : Input}

theorem normal_counted (past : List Input) (level : levelAfter cfg past = .Normal) :
    ∃ window, SinceStart (Enters (levelAfter cfg) .Normal) past window ∧
      Counted (afterInputs cfg past) window := by
  induction past using List.reverseRecOn with
  | nil =>
    exact ⟨[], .inr ⟨rfl, fun w x rest never => by simp at never⟩, .zero rfl rfl rfl⟩
  | append_singleton past i ih =>
    obtain ⟨t, next, effect⟩ := effect_snoc cfg past i
    have run : t.level = .Normal := (congrArg State.level next).symm.trans level
    cases effect with
    | degrade lv reason =>
      obtain rfl : lv = .Normal := run
      obtain ⟨never | never | never, -⟩ := isBroken_degrades reason <;> cases never
    | recover => cases run
    | heal reason =>
      -- The recovery has kept the fault counters at 0, and a cycle counts no fault.
      obtain ⟨rfl, ends, -⟩ := reason
      have calm := recovering_calm past ends.1
      have entered : Enters (levelAfter cfg) .Normal past .dispatchCycle := by
        refine ⟨fun never => ?_, level⟩
        cases ends.1.symm.trans never
      refine ⟨[], .inl ⟨past, _, .fresh entered⟩, ?_⟩
      rw [next]
      exact .zero (by rw [count_direct]; exact calm.direct) (by rw [count_rtc]; exact calm.rtc)
        (by rw [count_high]; exact calm.high)
    | count undegraded unhealed =>
      rw [count_level] at run
      obtain ⟨window, since, counted⟩ := ih run
      refine ⟨window ++ [i], since.snoc fun entered => entered.1 run, ?_⟩
      rw [next]
      exact counted.snoc run undegraded

/-- In Normal the next level is decided by the inputs since Normal was last entered. -/
theorem trip_conditions (cfg : Config) (past : List Input) (i : Input)
    (normal : levelAfter cfg past = .Normal) :
    ∃ window, SinceStart (Enters (levelAfter cfg) .Normal) past window ∧
      ∀ level, level ≠ .Normal →
        (levelAfter cfg (past ++ [i]) = level ↔
          Trips i (directStreak (window ++ [i])) (rtcStreak (window ++ [i]))
            (highStreak (window ++ [i])) level) := by
  obtain ⟨window, since, counted⟩ := normal_counted past normal
  refine ⟨window, since, fun level other => ?_⟩
  rw [directStreak, rtcStreak, highStreak,
    ← counter_streak counted.direct counted.direct_lt (count_direct i _),
    ← counter_streak counted.rtc counted.rtc_lt (count_rtc i _),
    ← counter_streak counted.high counted.high_lt (count_high i _),
    ← degrades_normal normal counted]
  obtain ⟨t, next, effect⟩ := effect_snoc cfg past i
  rw [levelAfter, next]
  cases effect with
  | degrade _ reason =>
    rw [reason, Option.some_inj]
    rfl
  | recover reason =>
    rcases reason with ⟨safe, -⟩ | ⟨l1 | l2, -⟩
    · cases safe.symm.trans normal
    · cases l1.symm.trans normal
    · cases l2.symm.trans normal
  | heal reason => cases reason.2.1.1.symm.trans normal
  | count undegraded =>
    rw [count_level, undegraded]
    constructor
    · intro same
      exact (other (same.symm.trans normal)).elim
    · intro never
      cases never

/-- A third direct timeout after a qualifying call trips to L1. -/
theorem trip_conditions_direct :
    let past : List Input := [.directTimeout, .rtcOk, .directTimeout, .watermark 90, .directTimeout]
    levelAfter DefaultConfig past = .Normal ∧
    levelAfter DefaultConfig (past ++ [.directTimeout]) = .BrokenL1 ∧
    ∃ window, SinceStart (Enters (levelAfter DefaultConfig) .Normal) past window ∧
      ∀ level, level ≠ .Normal →
        (levelAfter DefaultConfig (past ++ [.directTimeout]) = level ↔
          Trips .directTimeout (directStreak (window ++ [.directTimeout]))
            (rtcStreak (window ++ [.directTimeout])) (highStreak (window ++ [.directTimeout]))
            level) :=
  ⟨by decide, by decide, trip_conditions _ _ _ (by decide)⟩

end Coact.Breaker
