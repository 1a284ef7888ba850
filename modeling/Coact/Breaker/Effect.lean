import Mathlib.Tactic.SplitIfs
import Coact.Breaker

/-! What one input of `Breaker` can do. It degrades the level, starts the recovery,
ends it, or only counts; the counters of the first two outcomes do not depend on
the counters before. -/
namespace Coact.Breaker

/-- The watermark sample an input carries. -/
def sample : Input → Option Nat
  | .watermark percent => some percent
  | .watermarkViolation => some (kWatermarkViolationPct + 1)
  | _ => none

/-- The state after `enter_l1`, `enter_l2` or `enter_safe`. -/
def broken (cfg : Config) (level : BreakerLevel) : State :=
  ⟨level, cfg.kCooldownCycles, 0, 0, 0, 0, 0, false⟩

/-- The state after `enter_recovering`. -/
def recovering (cooldown : Nat) : State := ⟨.Recovering, cooldown, 0, 0, 0, 0, 0, false⟩

/-- The counters of a watermark sample. -/
def countSample (percent : Nat) (s : State) : State :=
  if kWatermarkViolationPct < percent then
    { s with highWatermarkConsec := increment s.highWatermarkConsec, lowWatermarkConsec := 0 }
  else if percent < kLowWatermarkPct then
    { s with lowWatermarkConsec := increment s.lowWatermarkConsec, highWatermarkConsec := 0 }
  else { s with highWatermarkConsec := 0, lowWatermarkConsec := 0 }

/-- A healthy window ends with this cycle. -/
def windowEnds (s : State) : Prop :=
  s.level = .Recovering ∧ s.cooldownRemaining - 1 = 0 ∧ s.probeSuccess = true

instance (s : State) : Decidable (windowEnds s) := inferInstanceAs (Decidable (_ ∧ _ ∧ _))

/-- What an input counts. -/
def count : Input → State → State
  | .directTimeout, s => { s with directTimeoutConsec := increment s.directTimeoutConsec }
  | .dispatcherRtcTimeout, s => { s with rtcTimeoutConsec := increment s.rtcTimeoutConsec }
  | .watermark percent, s => countSample percent s
  | .watermarkViolation, s => countSample (kWatermarkViolationPct + 1) s
  | .dispatchCycle, s =>
    let s' := { s with cooldownRemaining := s.cooldownRemaining - 1 }
    if windowEnds s then
      { s' with healthyWindowCount := increment s.healthyWindowCount, probeSuccess := false }
    else s'
  | .probeSuccess, s => if s.level = .Recovering then { s with probeSuccess := true } else s
  | .rtcOk, s => { s with directTimeoutConsec := 0, rtcTimeoutConsec := 0 }
  | _, s => s

/-- The level a watermark sample degrades to. -/
def degradesSample (percent : Nat) (s : State) : Option BreakerLevel :=
  match s.level with
  | .Normal | .BrokenL1 =>
    if kHighWatermarkPersist ≤ (countSample percent s).highWatermarkConsec then some .BrokenL2
    else none
  | .Recovering => if kLowWatermarkPct ≤ percent then some .BrokenL2 else none
  | .BrokenL2 | .Safe => none

/-- The level an input degrades to. -/
def degrades : Input → State → Option BreakerLevel
  | .directTimeout, s =>
    match s.level with
    | .Normal =>
      if kDirectTimeoutThreshold ≤ increment s.directTimeoutConsec then some .BrokenL1 else none
    | .Recovering => some .BrokenL2
    | _ => none
  | .dispatcherRtcTimeout, s =>
    match s.level with
    | .Normal | .BrokenL1 =>
      if kRtcTimeoutThreshold ≤ increment s.rtcTimeoutConsec then some .BrokenL2 else none
    | .Recovering => some .BrokenL2
    | _ => none
  | .watermark percent, s => degradesSample percent s
  | .watermarkViolation, s => degradesSample (kWatermarkViolationPct + 1) s
  | .overflow, s =>
    match s.level with
    | .Normal | .BrokenL1 | .Recovering => some .BrokenL2
    | _ => none
  | .keyReserveExhausted, s | .watchdog, s => if s.level ≠ .Safe then some .Safe else none
  | .probeFailure, s => if s.level = .Recovering then some .BrokenL2 else none
  | _, _ => none

/-- An input that starts the recovery. -/
def recovers (i : Input) (s : State) : Prop :=
  (s.level = .Safe ∧ i = .externalSafeRestore) ∨
  ((s.level = .BrokenL1 ∨ s.level = .BrokenL2) ∧ s.cooldownRemaining = 0 ∧
    ∃ percent, sample i = some percent ∧
      kLowWatermarkPersist ≤ (countSample percent s).lowWatermarkConsec)

/-- A cycle that ends the recovery. -/
def heals (i : Input) (s : State) : Prop :=
  i = .dispatchCycle ∧ windowEnds s ∧ kHealthyWindowsRequired ≤ increment s.healthyWindowCount

/-- The outcomes of an input. -/
inductive Effect (cfg : Config) (i : Input) (s : State) : State → Prop
  | degrade (level : BreakerLevel) (reason : degrades i s = some level) :
    Effect cfg i s (broken cfg level)
  | recover (reason : recovers i s) : Effect cfg i s (recovering s.cooldownRemaining)
  | heal (reason : heals i s) :
    Effect cfg i s { count i s with level := .Normal, healthyWindowCount := 0 }
  | count (undegraded : degrades i s = none) (unhealed : ¬ heals i s) : Effect cfg i s (count i s)

@[simp] theorem countSample_level (percent : Nat) (s : State) :
    (countSample percent s).level = s.level := by
  unfold countSample
  split
  · rfl
  · split <;> rfl

@[simp] theorem countSample_cooldown (percent : Nat) (s : State) :
    (countSample percent s).cooldownRemaining = s.cooldownRemaining := by
  unfold countSample
  split
  · rfl
  · split <;> rfl

theorem onWatermark_eq (cfg : Config) (percent : Nat) (s : State) :
    onWatermark cfg percent s =
      let t := countSample percent s
      let cooled := s.cooldownRemaining = 0 ∧ kLowWatermarkPersist ≤ t.lowWatermarkConsec
      match s.level with
      | .Normal => if kHighWatermarkPersist ≤ t.highWatermarkConsec then broken cfg .BrokenL2 else t
      | .BrokenL1 =>
        if kHighWatermarkPersist ≤ t.highWatermarkConsec then broken cfg .BrokenL2
        else if cooled then recovering s.cooldownRemaining else t
      | .BrokenL2 => if cooled then recovering s.cooldownRemaining else t
      | .Safe => t
      | .Recovering => if kLowWatermarkPct ≤ percent then broken cfg .BrokenL2 else t := by
  have cooldown := countSample_cooldown percent s
  have level := countSample_level percent s
  unfold countSample at cooldown level ⊢
  simp only [onWatermark, enterL2, enterBroken, enterRecovering, resetMetrics, level, cooldown]
  cases s.level <;> rfl

section
variable {cfg : Config}

theorem not_heals (other : i ≠ .dispatchCycle) : ¬ heals i s := fun heals => other heals.1

theorem Effect.of_sample (carries : sample i = some percent)
    (degrade : degrades i s = degradesSample percent s)
    (counts : Breaker.count i s = countSample percent s) (other : i ≠ .dispatchCycle) :
    Effect cfg i s (onWatermark cfg percent s) := by
  have low (level : s.level = .BrokenL1 ∨ s.level = .BrokenL2) (cooled : s.cooldownRemaining = 0 ∧
      kLowWatermarkPersist ≤ (countSample percent s).lowWatermarkConsec) : recovers i s :=
    .inr ⟨level, cooled.1, percent, carries, cooled.2⟩
  have counted (undegraded : degradesSample percent s = none) :
      Effect cfg i s (countSample percent s) :=
    counts ▸ .count (degrade.trans undegraded) (not_heals other)
  rw [onWatermark_eq]
  cases level : s.level with
  | Normal | Recovering =>
    dsimp only
    split_ifs with high
    · exact .degrade _ (by simp only [degrade, degradesSample, level, if_pos high])
    · exact counted (by simp only [degradesSample, level, if_neg high])
  | BrokenL1 =>
    dsimp only
    split_ifs with high cooled
    · exact .degrade _ (by simp only [degrade, degradesSample, level, if_pos high])
    · exact .recover (low (.inl level) cooled)
    · exact counted (by simp only [degradesSample, level, if_neg high])
  | BrokenL2 =>
    dsimp only
    split_ifs with cooled
    · exact .recover (low (.inr level) cooled)
    · exact counted (by simp only [degradesSample, level])
  | Safe => exact counted (by simp only [degradesSample, level])

/-- All that an input does that carries no sample, ends no window and restores nothing. -/
theorem apply_eq_degrades (cfg : Config) (s : State) (unsampled : sample i = none)
    (other : i ≠ .dispatchCycle) (unrestored : i ≠ .externalSafeRestore) :
    apply cfg i s = (degrades i s).elim (Breaker.count i s) (broken cfg) := by
  cases i with
  | dispatchCycle => exact absurd rfl other
  | externalSafeRestore => exact absurd rfl unrestored
  | watermark | watermarkViolation => cases unsampled
  | directTimeout | dispatcherRtcTimeout | overflow =>
    obtain ⟨level, _, _, _, _, _, _, _⟩ := s
    simp only [apply, onDirectTimeout, onDispatcherRtcTimeout, onOverflow, degrades]
    cases level with
    | BrokenL2 | Safe | Recovering => rfl
    | Normal | BrokenL1 =>
      dsimp only
      first
      | rfl
      | split <;> rfl
  | keyReserveExhausted | watchdog | probeFailure =>
    simp only [apply, onWatchdog, onKeyReserveExhausted, onProbeFailure, degrades]
    split <;> rfl
  | probeSuccess | rtcOk => rfl

theorem apply_effect (cfg : Config) (i : Input) (s : State) : Effect cfg i s (apply cfg i s) := by
  cases i with
  | directTimeout | dispatcherRtcTimeout | overflow | keyReserveExhausted | watchdog | probeFailure
  | probeSuccess | rtcOk =>
    rw [apply_eq_degrades cfg s rfl (by simp) (by simp)]
    cases reason : degrades _ s with
    | some level => exact .degrade level reason
    | none => exact .count reason (not_heals (by simp))
  | watermark | watermarkViolation => exact .of_sample rfl rfl rfl (by simp)
  | dispatchCycle =>
    simp only [apply, onDispatchCycle]
    split_ifs with ends healthy
    · have healed : Effect cfg .dispatchCycle s _ := .heal ⟨rfl, ends, healthy⟩
      simp only [Breaker.count, if_pos (show windowEnds s from ends)] at healed
      exact healed
    · have counted : Effect cfg .dispatchCycle s _ := .count rfl fun heals => healthy heals.2.2
      simp only [Breaker.count, if_pos (show windowEnds s from ends)] at counted
      exact counted
    · have counted : Effect cfg .dispatchCycle s _ := .count rfl fun heals => ends heals.2.1
      simp only [Breaker.count, if_neg (show ¬ windowEnds s from ends)] at counted
      exact counted
  | externalSafeRestore =>
    simp only [apply, onExternalSafeRestore]
    split_ifs with safe
    · exact .recover (.inl ⟨safe, rfl⟩)
    · exact .count rfl (not_heals (by simp))

end

end Coact.Breaker
