import Coact.Config

/-! The degradation state machine `Breaker` (`monitor.hpp`) over its unpacked
state. Every input is one `update`, a compare-exchange loop that the pipeline
takes as a single access. -/
namespace Coact

inductive BreakerLevel where
  | Normal | BrokenL1 | BrokenL2 | Safe | Recovering
  deriving DecidableEq, Repr

namespace Breaker

def kDirectTimeoutThreshold : Nat := 3
def kRtcTimeoutThreshold : Nat := 3
def kWatermarkViolationPct : Nat := 80
def kLowWatermarkPct : Nat := 50
def kHighWatermarkPersist : Nat := 3
def kLowWatermarkPersist : Nat := 3
def kHealthyWindowsRequired : Nat := 3
def kCounterMask : Nat := 3

structure State where
  level : BreakerLevel
  cooldownRemaining : Nat
  directTimeoutConsec : Nat
  rtcTimeoutConsec : Nat
  highWatermarkConsec : Nat
  lowWatermarkConsec : Nat
  healthyWindowCount : Nat
  probeSuccess : Bool

def initial : State := ⟨.Normal, 0, 0, 0, 0, 0, 0, false⟩

def increment (counter : Nat) : Nat := if counter < kCounterMask then counter + 1 else counter

def resetMetrics (s : State) : State :=
  { s with directTimeoutConsec := 0, rtcTimeoutConsec := 0, highWatermarkConsec := 0,
           lowWatermarkConsec := 0, healthyWindowCount := 0, probeSuccess := false }

/-- `enter_l1`, `enter_l2` and `enter_safe` differ in the level they set. -/
def enterBroken (cfg : Config) (level : BreakerLevel) (s : State) : State :=
  resetMetrics { s with level := level, cooldownRemaining := cfg.kCooldownCycles }

def enterL1 (cfg : Config) : State → State := enterBroken cfg .BrokenL1
def enterL2 (cfg : Config) : State → State := enterBroken cfg .BrokenL2
def enterSafe (cfg : Config) : State → State := enterBroken cfg .Safe

def enterRecovering (s : State) : State := resetMetrics { s with level := .Recovering }

def onDirectTimeout (cfg : Config) (s : State) : State :=
  let s := { s with directTimeoutConsec := increment s.directTimeoutConsec }
  match s.level with
  | .Normal => if kDirectTimeoutThreshold ≤ s.directTimeoutConsec then enterL1 cfg s else s
  | .BrokenL1 | .BrokenL2 | .Safe => s
  | .Recovering => enterL2 cfg s

def onDispatcherRtcTimeout (cfg : Config) (s : State) : State :=
  let s := { s with rtcTimeoutConsec := increment s.rtcTimeoutConsec }
  match s.level with
  | .Normal | .BrokenL1 => if kRtcTimeoutThreshold ≤ s.rtcTimeoutConsec then enterL2 cfg s else s
  | .BrokenL2 | .Safe => s
  | .Recovering => enterL2 cfg s

def onWatermark (cfg : Config) (percent : Nat) (s : State) : State :=
  let s :=
    if kWatermarkViolationPct < percent then
      { s with highWatermarkConsec := increment s.highWatermarkConsec, lowWatermarkConsec := 0 }
    else if percent < kLowWatermarkPct then
      { s with lowWatermarkConsec := increment s.lowWatermarkConsec, highWatermarkConsec := 0 }
    else { s with highWatermarkConsec := 0, lowWatermarkConsec := 0 }
  let cooled := s.cooldownRemaining = 0 ∧ kLowWatermarkPersist ≤ s.lowWatermarkConsec
  match s.level with
  | .Normal => if kHighWatermarkPersist ≤ s.highWatermarkConsec then enterL2 cfg s else s
  | .BrokenL1 =>
    if kHighWatermarkPersist ≤ s.highWatermarkConsec then enterL2 cfg s
    else if cooled then enterRecovering s else s
  | .BrokenL2 => if cooled then enterRecovering s else s
  | .Safe => s
  | .Recovering => if kLowWatermarkPct ≤ percent then enterL2 cfg s else s

def onWatermarkViolation (cfg : Config) : State → State :=
  onWatermark cfg (kWatermarkViolationPct + 1)

def onOverflow (cfg : Config) (s : State) : State :=
  match s.level with
  | .Normal | .BrokenL1 | .Recovering => enterL2 cfg s
  | .BrokenL2 | .Safe => s

def onKeyReserveExhausted (cfg : Config) (s : State) : State :=
  if s.level ≠ .Safe then enterSafe cfg s else s

def onWatchdog (cfg : Config) : State → State := onKeyReserveExhausted cfg

def onDispatchCycle (s : State) : State :=
  let s := { s with cooldownRemaining := s.cooldownRemaining - 1 }
  if s.level = .Recovering ∧ s.cooldownRemaining = 0 ∧ s.probeSuccess = true then
    let s := { s with healthyWindowCount := increment s.healthyWindowCount, probeSuccess := false }
    if kHealthyWindowsRequired ≤ s.healthyWindowCount then
      { s with level := .Normal, healthyWindowCount := 0 }
    else s
  else s

def onProbeSuccess (s : State) : State :=
  if s.level = .Recovering then { s with probeSuccess := true } else s

def onProbeFailure (cfg : Config) (s : State) : State :=
  if s.level = .Recovering then enterL2 cfg s else s

def onExternalSafeRestore (s : State) : State :=
  if s.level = .Safe then enterRecovering s else s

def onRtcOk (s : State) : State := { s with directTimeoutConsec := 0, rtcTimeoutConsec := 0 }

def directAllowed (target : TargetId) (s : State) : Bool :=
  target ≠ kInvalidTarget ∧ s.level = .Normal

def dropNonCritical (s : State) : Bool :=
  s.level = .BrokenL2 ∨ s.level = .Safe ∨ s.level = .Recovering

inductive Input where
  | directTimeout | dispatcherRtcTimeout | watermarkViolation | overflow | keyReserveExhausted
  | watchdog | dispatchCycle | probeSuccess | probeFailure | externalSafeRestore | rtcOk
  | watermark (percent : Nat)
  deriving DecidableEq, Repr

def apply (cfg : Config) : Input → State → State
  | .directTimeout => onDirectTimeout cfg
  | .dispatcherRtcTimeout => onDispatcherRtcTimeout cfg
  | .watermarkViolation => onWatermarkViolation cfg
  | .overflow => onOverflow cfg
  | .keyReserveExhausted => onKeyReserveExhausted cfg
  | .watchdog => onWatchdog cfg
  | .dispatchCycle => onDispatchCycle
  | .probeSuccess => onProbeSuccess
  | .probeFailure => onProbeFailure cfg
  | .externalSafeRestore => onExternalSafeRestore
  | .rtcOk => onRtcOk
  | .watermark percent => onWatermark cfg percent

end Breaker

end Coact
