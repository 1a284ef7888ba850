import Coact.Breaker.Effect
import Coact.Foundation.History

/-! Recovery of `Breaker`, as a law about histories of inputs. Safe is left by the
external restore only; Normal is entered after healthy windows in an undisturbed
recovery, and after the cooldown. -/
namespace Coact.Breaker
open Foundation
variable (cfg : Config)

/-- The state after a sequence of inputs. -/
def afterInputs (past : List Input) : State := after (apply cfg) initial past

def levelAfter (past : List Input) : BreakerLevel := (afterInputs cfg past).level

/-- The levels that `enter_l1`, `enter_l2` and `enter_safe` set. -/
def IsBroken (level : BreakerLevel) : Prop :=
  level = .BrokenL1 ∨ level = .BrokenL2 ∨ level = .Safe

/-- An entry into L1, L2 or Safe. -/
def EntersBroken (past : List Input) (i : Input) : Prop :=
  ∃ level, IsBroken level ∧ Enters (levelAfter cfg) level past i

/-- The inputs that disturb a recovery. -/
def faulty : Input → Bool
  | .directTimeout | .dispatcherRtcTimeout | .overflow | .probeFailure | .keyReserveExhausted
  | .watchdog => true
  | i => (sample i).any fun percent => kLowWatermarkPct ≤ percent

def lowSample (i : Input) : Bool := (sample i).any fun percent => percent < kLowWatermarkPct

def otherSample (i : Input) : Bool := (sample i).any fun percent => kLowWatermarkPct ≤ percent

/-- How many watermark samples below 50 have come in a row. -/
def lowStreak : List Input → Nat := streak lowSample otherSample

/-- `n` dispatch cycles that found the cooldown at 0, the last of them at the end of
`window`, each with a successful probe since the one before. -/
inductive Healthy (start : List Input) : Nat → List Input → Prop
  | none : Healthy start 0 []
  | cycle {n : Nat} {window gap : List Input} (earlier : Healthy start n window)
    (probed : .probeSuccess ∈ gap)
    (cooled : (afterInputs cfg (start ++ (window ++ gap ++ [.dispatchCycle]))).cooldownRemaining = 0) :
    Healthy start (n + 1) (window ++ gap ++ [.dispatchCycle])

variable {cfg} {past : List Input} {i : Input}

theorem afterInputs_snoc (past : List Input) (i : Input) :
    afterInputs cfg (past ++ [i]) = apply cfg i (afterInputs cfg past) := after_snoc ..

theorem effect_snoc (cfg : Config) (past : List Input) (i : Input) :
    ∃ t, afterInputs cfg (past ++ [i]) = t ∧ Effect cfg i (afterInputs cfg past) t :=
  ⟨_, afterInputs_snoc past i, apply_effect ..⟩

@[simp] theorem count_level (i : Input) (s : State) : (count i s).level = s.level := by
  cases i with
  | dispatchCycle | probeSuccess =>
    simp only [count]
    split <;> rfl
  | watermark | watermarkViolation => exact countSample_level ..
  | _ => rfl

theorem isBroken_degrades {level : BreakerLevel} (degraded : degrades i s = some level) :
    IsBroken level ∧ level ≠ s.level := by
  unfold IsBroken
  cases i <;> grind [degrades, degradesSample]

/-- A recovering breaker has just begun to recover, or it counts on. -/
theorem recovering_snoc (level : levelAfter cfg (past ++ [i]) = .Recovering) :
    recovers i (afterInputs cfg past) ∧
        afterInputs cfg (past ++ [i]) = recovering (afterInputs cfg past).cooldownRemaining ∨
      levelAfter cfg past = .Recovering ∧ degrades i (afterInputs cfg past) = none ∧
        ¬ heals i (afterInputs cfg past) ∧
          afterInputs cfg (past ++ [i]) = count i (afterInputs cfg past) := by
  obtain ⟨t, next, effect⟩ := effect_snoc cfg past i
  have run : t.level = .Recovering := (congrArg State.level next).symm.trans level
  cases effect with
  | degrade lv reason =>
    obtain rfl : lv = .Recovering := run
    obtain ⟨never | never | never, -⟩ := isBroken_degrades reason <;> cases never
  | recover reason => exact .inl ⟨reason, next⟩
  | heal => cases run
  | count undegraded unhealed =>
    rw [count_level] at run
    exact .inr ⟨run, undegraded, unhealed, next⟩

theorem degrades_recovering (level : s.level = .Recovering)
    (undegraded : degrades i s = none) : faulty i = false := by
  cases i <;> simp_all [degrades, degradesSample, faulty, sample]

theorem degrades_safe (level : s.level = .Safe) : degrades i s = none := by
  cases i <;> simp [degrades, degradesSample, level]

theorem not_entersBroken (unbroken : IsBroken (levelAfter cfg (past ++ [i])) →
    levelAfter cfg (past ++ [i]) = levelAfter cfg past) : ¬ EntersBroken cfg past i := by
  rintro ⟨level, isBroken, left, rfl⟩
  exact left (unbroken isBroken).symm

theorem cooldown_cycle (past : List Input) :
    (afterInputs cfg (past ++ [.dispatchCycle])).cooldownRemaining =
      (afterInputs cfg past).cooldownRemaining - 1 := by
  rw [afterInputs_snoc, apply]
  unfold onDispatchCycle
  dsimp only
  split
  · split <;> rfl
  · rfl

theorem cooldown_le_count (i : Input) (s : State) :
    s.cooldownRemaining ≤ (count i s).cooldownRemaining + [i].count .dispatchCycle := by
  cases i with
  | dispatchCycle =>
    simp only [count, List.count_singleton_self]
    split <;> exact Nat.sub_le_iff_le_add.mp (Nat.le_refl _)
  | probeSuccess =>
    simp only [count]
    split <;> exact Nat.le_add_right ..
  | watermark percent => exact (countSample_cooldown percent s).symm ▸ Nat.le_add_right ..
  | watermarkViolation => exact (countSample_cooldown _ s).symm ▸ Nat.le_add_right ..
  | _ => exact Nat.le_add_right ..

/-- Every dispatch cycle since the latest entry into L1, L2 or Safe is accounted for. -/
theorem since_broken (past : List Input) (other : levelAfter cfg past ≠ .Normal) :
    ∃ before e window, Since (EntersBroken cfg) past before e window ∧
      cfg.kCooldownCycles ≤
        (afterInputs cfg past).cooldownRemaining + window.count .dispatchCycle := by
  induction past using List.reverseRecOn with
  | nil => exact (other rfl).elim
  | append_singleton past i ih =>
    obtain ⟨t, next, effect⟩ := effect_snoc cfg past i
    have level : levelAfter cfg (past ++ [i]) = t.level := congrArg State.level next
    have longer (before : levelAfter cfg past ≠ .Normal) (quiet : ¬ EntersBroken cfg past i)
        (slow : (afterInputs cfg past).cooldownRemaining ≤
          t.cooldownRemaining + [i].count .dispatchCycle) :
        ∃ before e window, Since (EntersBroken cfg) (past ++ [i]) before e window ∧
          cfg.kCooldownCycles ≤
            (afterInputs cfg (past ++ [i])).cooldownRemaining + window.count .dispatchCycle := by
      obtain ⟨b, e, w, since, cooling⟩ := ih before
      refine ⟨b, e, w ++ [i], since.snoc quiet, ?_⟩
      rw [next, List.count_append]
      omega
    cases effect with
    | degrade lv reason =>
      obtain ⟨isBroken, differs⟩ := isBroken_degrades reason
      refine ⟨past, i, [], .fresh ⟨lv, isBroken, differs.symm, level⟩, ?_⟩
      rw [next]
      exact Nat.le_add_right ..
    | recover reason =>
      refine longer ?_ (not_entersBroken ?_) (Nat.le_add_right ..)
      · rcases reason with ⟨safe, -⟩ | ⟨l1 | l2, -⟩ <;> simp_all [levelAfter]
      · rw [level]
        rintro (never | never | never) <;> cases never
    | heal => exact (other level).elim
    | count =>
      rw [count_level] at level
      refine longer ?_ (not_entersBroken fun _ => level) (cooldown_le_count ..)
      rw [level] at other
      exact other

theorem count_windowEnds (ends : windowEnds s) (unhealed : ¬ heals .dispatchCycle s) :
    (count .dispatchCycle s).healthyWindowCount = s.healthyWindowCount + 1 ∧
      (count .dispatchCycle s).probeSuccess = false := by
  have early : ¬ kHealthyWindowsRequired ≤ increment s.healthyWindowCount :=
    fun healthy => unhealed ⟨rfl, ends, healthy⟩
  simp only [count, if_pos ends, and_true]
  unfold increment at early ⊢
  split
  · rfl
  · rename_i full
    rw [if_neg full] at early
    exact (early (Nat.le_of_not_lt full)).elim

/-- Other inputs change neither, except that a successful probe sets the flag. -/
theorem count_open (unfinished : i = .dispatchCycle → ¬ windowEnds s) :
    (count i s).healthyWindowCount = s.healthyWindowCount ∧
      ((count i s).probeSuccess = true → s.probeSuccess = true ∨ i = .probeSuccess) := by
  cases i with
  | dispatchCycle =>
    have counted : count .dispatchCycle s =
      { s with cooldownRemaining := s.cooldownRemaining - 1 } := if_neg (unfinished rfl)
    rw [counted]
    exact ⟨rfl, .inl⟩
  | probeSuccess =>
    rw [count]
    split
    · exact ⟨rfl, fun _ => .inr rfl⟩
    · exact ⟨rfl, .inl⟩
  | watermark =>
    simp only [count, countSample]
    split
    · exact ⟨rfl, .inl⟩
    · split <;> exact ⟨rfl, .inl⟩
  | watermarkViolation => exact ⟨rfl, .inl⟩
  | _ => exact ⟨rfl, .inl⟩

/-- A recovery that has not been disturbed since it began. -/
structure Undisturbed (cfg : Config) (past before : List Input) (e : Input)
    (window : List Input) : Prop where
  since : Since (Enters (levelAfter cfg) .Recovering) past before e window
  calm : ∀ x ∈ window, faulty x = false
  windows : ∃ counted gap, window = counted ++ gap ∧
    Healthy cfg (before ++ [e]) (afterInputs cfg past).healthyWindowCount counted ∧
      ((afterInputs cfg past).probeSuccess = true → .probeSuccess ∈ gap)

theorem recovering_undisturbed (past : List Input) (level : levelAfter cfg past = .Recovering) :
    ∃ before e window, Undisturbed cfg past before e window := by
  induction past using List.reverseRecOn with
  | nil => cases level
  | append_singleton past i ih =>
    obtain ⟨reason, next⟩ | ⟨run, undegraded, unhealed, next⟩ := recovering_snoc level
    · have entered : Enters (levelAfter cfg) .Recovering past i := by
        refine ⟨?_, level⟩
        rcases reason with ⟨safe, -⟩ | ⟨l1 | l2, -⟩ <;> simp_all [levelAfter]
      refine ⟨past, i, [], .fresh entered, fun x never => (by cases never), [], [], rfl, ?_, ?_⟩
      · rw [next]
        exact .none
      · rw [next]
        exact fun never => by cases never
    · obtain ⟨b, e, w, since, calm, counted, gap, rfl, healthy, probed⟩ := ih run
      have quiet : ¬ Enters (levelAfter cfg) .Recovering past i := fun entered => entered.1 run
      refine ⟨b, e, counted ++ gap ++ [i], since.snoc quiet, ?_, ?_⟩
      · intro x mem
        rcases List.mem_append.mp mem with old | new
        · exact calm x old
        · rw [List.mem_singleton.mp new]
          exact degrades_recovering run undegraded
      · rw [next]
        by_cases ends : i = .dispatchCycle ∧ windowEnds (afterInputs cfg past)
        · obtain ⟨rfl, ends⟩ := ends
          obtain ⟨more, taken⟩ := count_windowEnds ends unhealed
          refine ⟨_, [], (List.append_nil _).symm, ?_, fun never => ?_⟩
          · rw [more]
            refine .cycle healthy (probed ends.2.2) ?_
            rw [since.append, cooldown_cycle]
            exact ends.2.1
          · rw [taken] at never
            cases never
        · obtain ⟨same, flag⟩ := count_open (i := i) fun cycle ends' => ends ⟨cycle, ends'⟩
          refine ⟨counted, gap ++ [i], List.append_assoc .., same ▸ healthy, fun set => ?_⟩
          rcases flag set with old | rfl
          · exact List.mem_append_left _ (probed old)
          · exact List.mem_append_right _ List.mem_cons_self

/-- A recovery keeps the fault counters at 0, and a healthy window has seen the
cooldown at 0. -/
structure Calm (s : State) : Prop where
  direct : s.directTimeoutConsec = 0
  rtc : s.rtcTimeoutConsec = 0
  high : s.highWatermarkConsec = 0
  cooled : 0 < s.healthyWindowCount → s.cooldownRemaining = 0

theorem Calm.count (calm : Calm s) (quiet : faulty i = false) : Calm (Breaker.count i s) := by
  cases i with
  | dispatchCycle =>
    rw [Breaker.count]
    split
    · rename_i ends
      exact ⟨calm.direct, calm.rtc, calm.high, fun _ => ends.2.1⟩
    · exact ⟨calm.direct, calm.rtc, calm.high, fun some => by rw [calm.cooled some]⟩
  | probeSuccess =>
    rw [Breaker.count]
    split
    · exact ⟨calm.direct, calm.rtc, calm.high, calm.cooled⟩
    · exact calm
  | watermark percent =>
    have low : percent < kLowWatermarkPct := Nat.not_le.mp (of_decide_eq_false quiet)
    have counted : Breaker.count (.watermark percent) s = { s with
        lowWatermarkConsec := increment s.lowWatermarkConsec, highWatermarkConsec := 0 } := by
      rw [Breaker.count, countSample, if_neg fun high => absurd (Nat.lt_trans high low) (by decide),
        if_pos low]
    rw [counted]
    exact ⟨calm.direct, calm.rtc, rfl, calm.cooled⟩
  | externalSafeRestore => exact calm
  | rtcOk => exact ⟨rfl, rfl, calm.high, calm.cooled⟩
  | _ => cases quiet

theorem recovering_calm (past : List Input) (level : levelAfter cfg past = .Recovering) :
    Calm (afterInputs cfg past) := by
  induction past using List.reverseRecOn with
  | nil => cases level
  | append_singleton past i ih =>
    obtain ⟨-, next⟩ | ⟨run, undegraded, -, next⟩ := recovering_snoc level <;> rw [next]
    · exact ⟨rfl, rfl, rfl, fun never => by cases never⟩
    · exact (ih run).count (degrades_recovering run undegraded)

theorem count_sample (carries : sample i = some percent) : count i s = countSample percent s := by
  cases i <;> cases carries <;> rfl

theorem count_unsampled (carries : sample i = none) :
    (count i s).lowWatermarkConsec = s.lowWatermarkConsec ∧
      (count i s).highWatermarkConsec = s.highWatermarkConsec := by
  cases i with
  | dispatchCycle | probeSuccess =>
    simp only [count]
    split <;> exact ⟨rfl, rfl⟩
  | watermark | watermarkViolation => cases carries
  | _ => exact ⟨rfl, rfl⟩

theorem countSample_low (percent : Nat) (s : State) : (countSample percent s).lowWatermarkConsec =
    if percent < kLowWatermarkPct then increment s.lowWatermarkConsec else 0 := by
  unfold countSample
  split
  · rename_i high
    rw [if_neg fun low => absurd (Nat.lt_trans high low) (by decide)]
  · split <;> rfl

theorem increment_le (n : Nat) : increment n ≤ n + 1 := by
  unfold increment
  split <;> omega

theorem low_le_streak {window : List Input} (counts : s.lowWatermarkConsec ≤ lowStreak window) :
    (count i s).lowWatermarkConsec ≤ lowStreak (window ++ [i]) := by
  cases carries : sample i with
  | none =>
    have keeps : otherSample i = false := by rw [otherSample, carries]; rfl
    rw [(count_unsampled carries).1, lowStreak, streak_snoc keeps]
    exact Nat.le_trans counts (Nat.le_add_right ..)
  | some percent =>
    rw [count_sample carries, countSample_low]
    split
    · rename_i low
      have keeps : otherSample i = false := by
        rw [otherSample, carries]
        exact decide_eq_false (Nat.not_le.mpr low)
      have hit : lowSample i = true := by
        rw [lowSample, carries]
        exact decide_eq_true low
      rw [lowStreak, streak_snoc keeps, if_pos hit]
      exact Nat.le_trans (increment_le _) (Nat.add_le_add_right counts 1)
    · exact Nat.zero_le _

theorem broken_low (past : List Input) (isBroken : IsBroken (levelAfter cfg past)) :
    ∃ before e window,
      Since (Enters (levelAfter cfg) (levelAfter cfg past)) past before e window ∧
        Since (EntersBroken cfg) past before e window ∧
          (afterInputs cfg past).lowWatermarkConsec ≤ lowStreak window := by
  induction past using List.reverseRecOn with
  | nil => rcases isBroken with never | never | never <;> cases never
  | append_singleton past i ih =>
    obtain ⟨t, next, effect⟩ := effect_snoc cfg past i
    have level : levelAfter cfg (past ++ [i]) = t.level := congrArg State.level next
    rw [level] at isBroken
    cases effect with
    | degrade lv reason =>
      have entered : Enters (levelAfter cfg) lv past i := ⟨(isBroken_degrades reason).2.symm, level⟩
      refine ⟨past, i, [], ?_, .fresh ⟨lv, isBroken, entered⟩, ?_⟩
      · rw [level]
        exact .fresh entered
      · rw [next]
        exact Nat.zero_le _
    | recover | heal => rcases isBroken with never | never | never <;> cases never
    | count undegraded unhealed =>
      rw [count_level] at level isBroken
      obtain ⟨b, e, w, since, broke, counts⟩ := ih isBroken
      have same := level
      refine ⟨b, e, w ++ [i], ?_, broke.snoc (not_entersBroken fun _ => same), ?_⟩
      · rw [same]
        exact since.snoc fun entered => entered.1 rfl
      · rw [next]
        exact low_le_streak counts

/-- A step into Normal is made by a dispatch cycle that ends a healthy window. -/
theorem heals_of_enters (entered : Enters (levelAfter cfg) .Normal past i) :
    heals i (afterInputs cfg past) ∧ (afterInputs cfg past).level = .Recovering := by
  obtain ⟨t, next, effect⟩ := effect_snoc cfg past i
  have level : t.level = .Normal := (congrArg State.level next).symm.trans entered.2
  cases effect with
  | degrade lv reason =>
    obtain rfl : lv = .Normal := level
    obtain ⟨never | never | never, -⟩ := isBroken_degrades reason <;> cases never
  | recover => cases level
  | heal reason => exact ⟨reason, reason.2.1.1⟩
  | count =>
    rw [count_level] at level
    exact (entered.1 level).elim

/-- What a step of the breaker guarantees about the history before it. The third
healthy window of a recovery is the one that the step into Normal itself ends. -/
structure Disciplined (cfg : Config) (past : List Input) (i : Input) : Prop where
  safe : levelAfter cfg past = .Safe → levelAfter cfg (past ++ [i]) ≠ .Safe →
    i = .externalSafeRestore
  healed : Enters (levelAfter cfg) .Normal past i → i = .dispatchCycle ∧
    ∃ before e window, Since (Enters (levelAfter cfg) .Recovering) past before e window ∧
      (∀ x ∈ window, faulty x = false) ∧
      ∃ n, kHealthyWindowsRequired ≤ n ∧ Healthy cfg (before ++ [e]) n (window ++ [i])
  cooled : Enters (levelAfter cfg) .Normal past i →
    ∃ before e window, Since (EntersBroken cfg) past before e window ∧
      cfg.kCooldownCycles ≤ window.count .dispatchCycle
  restarted : levelAfter cfg past = .BrokenL1 ∨ levelAfter cfg past = .BrokenL2 →
    levelAfter cfg (past ++ [i]) = .Recovering →
      (afterInputs cfg past).cooldownRemaining = 0 ∧ lowSample i = true ∧
      ∃ before e window,
        Since (Enters (levelAfter cfg) (levelAfter cfg past)) past before e window ∧
          kLowWatermarkPersist ≤ lowStreak (window ++ [i])

theorem recovery_discipline (cfg : Config) (past : List Input) (i : Input) :
    Disciplined cfg past i := by
  constructor
  case safe =>
    intro safe left
    obtain ⟨t, next, effect⟩ := effect_snoc cfg past i
    have level : levelAfter cfg (past ++ [i]) = t.level := congrArg State.level next
    cases effect with
    | degrade _ reason => cases (degrades_safe safe).symm.trans reason
    | recover reason =>
      rcases reason with ⟨-, restored⟩ | ⟨l1 | l2, -⟩
      · exact restored
      · cases l1.symm.trans safe
      · cases l2.symm.trans safe
    | heal reason => cases reason.2.1.1.symm.trans safe
    | count =>
      rw [count_level] at level
      exact (left (level.trans safe)).elim
  case healed =>
    intro entered
    obtain ⟨⟨rfl, ends, healthy⟩, level⟩ := heals_of_enters entered
    obtain ⟨b, e, w, since, calm, counted, gap, rfl, earlier, probed⟩ :=
      recovering_undisturbed past level
    refine ⟨rfl, b, e, counted ++ gap, since, calm, _, ?_, .cycle earlier (probed ends.2.2) ?_⟩
    · exact Nat.le_trans healthy (increment_le _)
    · rw [since.append, cooldown_cycle]
      exact ends.2.1
  case cooled =>
    intro entered
    obtain ⟨⟨rfl, ends, healthy⟩, level⟩ := heals_of_enters entered
    obtain ⟨b, e, w, since, cooling⟩ := since_broken past entered.1
    refine ⟨b, e, w, since, ?_⟩
    have counted := Nat.lt_of_succ_le (Nat.le_trans (by decide : 1 ≤ 2)
        (Nat.le_of_succ_le_succ (Nat.le_trans healthy (increment_le _))))
    rw [(recovering_calm past level).cooled counted, Nat.zero_add] at cooling
    exact cooling
  case restarted =>
    intro level run
    obtain ⟨⟨safe, -⟩ | ⟨-, cooled, percent, carries, low⟩, -⟩ | ⟨on, -⟩ := recovering_snoc run
    · rcases level with level | level <;> cases level.symm.trans safe
    · obtain ⟨b, e, w, since, -, counts⟩ := broken_low past (level.imp_right .inl)
      refine ⟨cooled, ?_, b, e, w, since, ?_⟩
      · rw [countSample_low] at low
        split at low
        · rename_i below
          rw [lowSample, carries]
          exact decide_eq_true below
        · cases low
      · rw [← count_sample carries] at low
        exact Nat.le_trans low (low_le_streak counts)
    · rcases level with level | level <;> cases level.symm.trans on

end Coact.Breaker
