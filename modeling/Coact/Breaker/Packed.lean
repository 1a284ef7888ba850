import Coact.Breaker.Recovery
import Mathlib.Data.Nat.Bitwise

/-! The packed word of `Breaker`. Its 32 bits hold every state an input sequence
reaches, so the machine on words and the machine on states are the same. -/
namespace Coact
open Foundation

def BreakerLevel.code : BreakerLevel → Nat
  | .Normal => 0
  | .BrokenL1 => 1
  | .BrokenL2 => 2
  | .Safe => 3
  | .Recovering => 4

/-- The level of a code; the three spare codes name none. -/
def BreakerLevel.ofCode : Nat → Option BreakerLevel
  | 0 => some .Normal
  | 1 => some .BrokenL1
  | 2 => some .BrokenL2
  | 3 => some .Safe
  | 4 => some .Recovering
  | _ => none

namespace Breaker

def kLevelShift : Nat := 0
def kCooldownShift : Nat := 3
def kDirectTimeoutShift : Nat := 19
def kRtcTimeoutShift : Nat := 21
def kHighWatermarkShift : Nat := 23
def kLowWatermarkShift : Nat := 25
def kHealthyWindowShift : Nat := 27
def kProbeSuccessShift : Nat := 29
def kLevelMask : Nat := 0x7
def kCooldownMask : Nat := 0xffff

def pack (s : State) : Nat :=
  (s.level.code <<< kLevelShift ||| s.cooldownRemaining <<< kCooldownShift |||
    s.directTimeoutConsec <<< kDirectTimeoutShift ||| s.rtcTimeoutConsec <<< kRtcTimeoutShift |||
    s.highWatermarkConsec <<< kHighWatermarkShift ||| s.lowWatermarkConsec <<< kLowWatermarkShift |||
    s.healthyWindowCount <<< kHealthyWindowShift ||| s.probeSuccess.toNat <<< kProbeSuccessShift) %
    2 ^ 32

def unpack (packed : Nat) : Option State :=
  (BreakerLevel.ofCode (packed >>> kLevelShift &&& kLevelMask)).map fun level =>
    ⟨level, packed >>> kCooldownShift &&& kCooldownMask,
      packed >>> kDirectTimeoutShift &&& kCounterMask, packed >>> kRtcTimeoutShift &&& kCounterMask,
      packed >>> kHighWatermarkShift &&& kCounterMask,
      packed >>> kLowWatermarkShift &&& kCounterMask,
      packed >>> kHealthyWindowShift &&& kCounterMask,
      packed >>> kProbeSuccessShift &&& 1 ≠ 0⟩

/-- `update`: one compare-exchange that succeeds. -/
def update (transition : State → State) (packed : Nat) : Option Nat :=
  (unpack packed).map fun s => pack (transition s)

/-- A state whose fields fit their bits. -/
structure Fits (s : State) : Prop where
  cooldown : s.cooldownRemaining ≤ kCooldownMask
  direct : s.directTimeoutConsec ≤ kCounterMask
  rtc : s.rtcTimeoutConsec ≤ kCounterMask
  high : s.highWatermarkConsec ≤ kCounterMask
  low : s.lowWatermarkConsec ≤ kCounterMask
  healthy : s.healthyWindowCount ≤ kCounterMask

theorem ofCode_code (level : BreakerLevel) : BreakerLevel.ofCode level.code = some level := by
  cases level <;> rfl

theorem or_shiftLeft {low high k : Nat} (small : low < 2 ^ k) :
    low ||| high <<< k = low + 2 ^ k * high := by
  rw [Nat.or_comm, ← Nat.shiftLeft_add_eq_or_of_lt small, Nat.shiftLeft_eq, Nat.add_comm,
    Nat.mul_comm]

theorem code_lt (level : BreakerLevel) : level.code < 2 ^ kCooldownShift := by
  cases level <;> decide

theorem pack_eq (fits : Fits s) :
    pack s = s.level.code + 2 ^ 3 * s.cooldownRemaining + 2 ^ 19 * s.directTimeoutConsec +
      2 ^ 21 * s.rtcTimeoutConsec + 2 ^ 23 * s.highWatermarkConsec + 2 ^ 25 * s.lowWatermarkConsec +
      2 ^ 27 * s.healthyWindowCount + 2 ^ 29 * s.probeSuccess.toNat := by
  obtain ⟨cooldown, direct, rtc, high, low, healthy⟩ := fits
  have level := code_lt s.level
  have probe := s.probeSuccess.toNat_le
  simp only [pack, kLevelShift, kCooldownShift, kDirectTimeoutShift, kRtcTimeoutShift,
    kHighWatermarkShift, kLowWatermarkShift, kHealthyWindowShift, kProbeSuccessShift,
    kCooldownMask, kCounterMask, Nat.shiftLeft_zero] at *
  simp (disch := omega) only [or_shiftLeft]
  exact Nat.mod_eq_of_lt (by omega)

theorem field_eq (packed shift width : Nat) :
    packed >>> shift &&& (2 ^ width - 1) = packed / 2 ^ shift % 2 ^ width := by
  rw [Nat.and_two_pow_sub_one_eq_mod, Nat.shiftRight_eq_div_pow]

theorem unpack_pack (fits : Fits s) : unpack (pack s) = some s := by
  have code := code_lt s.level
  have probed := s.probeSuccess.toNat_le
  have word := pack_eq fits
  obtain ⟨cooldown, direct, rtc, high, low, healthy⟩ := fits
  simp only [kCooldownShift, kCooldownMask, kCounterMask] at code cooldown direct rtc high low healthy
  generalize pack s = packed at word ⊢
  have level : packed >>> kLevelShift &&& kLevelMask = s.level.code :=
    (field_eq packed 0 3).trans (by omega)
  have cooldown : packed >>> kCooldownShift &&& kCooldownMask = s.cooldownRemaining :=
    (field_eq packed 3 16).trans (by omega)
  have direct : packed >>> kDirectTimeoutShift &&& kCounterMask = s.directTimeoutConsec :=
    (field_eq packed 19 2).trans (by omega)
  have rtc : packed >>> kRtcTimeoutShift &&& kCounterMask = s.rtcTimeoutConsec :=
    (field_eq packed 21 2).trans (by omega)
  have high : packed >>> kHighWatermarkShift &&& kCounterMask = s.highWatermarkConsec :=
    (field_eq packed 23 2).trans (by omega)
  have low : packed >>> kLowWatermarkShift &&& kCounterMask = s.lowWatermarkConsec :=
    (field_eq packed 25 2).trans (by omega)
  have healthy : packed >>> kHealthyWindowShift &&& kCounterMask = s.healthyWindowCount :=
    (field_eq packed 27 2).trans (by omega)
  have probe : packed >>> kProbeSuccessShift &&& 1 = s.probeSuccess.toNat :=
    (field_eq packed 29 1).trans (by omega)
  rw [unpack, level, ofCode_code, cooldown, direct, rtc, high, low, healthy, probe]
  obtain ⟨_, _, _, _, _, _, _, probeSuccess⟩ := s
  cases probeSuccess <;> rfl

theorem increment_le_mask {n : Nat} (fits : n ≤ kCounterMask) : increment n ≤ kCounterMask := by
  unfold increment
  split
  · assumption
  · exact fits

variable {cfg : Config}

theorem Fits.broken (cooldown : cfg.kCooldownCycles ≤ kCooldownMask) (level : BreakerLevel) :
    Fits (Breaker.broken cfg level) := by
  constructor <;> first | exact cooldown | exact Nat.zero_le _

theorem Fits.countSample (fits : Fits s) (percent : Nat) :
    Fits (Breaker.countSample percent s) := by
  unfold Breaker.countSample
  split
  · exact { fits with high := increment_le_mask fits.high, low := Nat.zero_le _ }
  · split
    · exact { fits with low := increment_le_mask fits.low, high := Nat.zero_le _ }
    · exact { fits with low := Nat.zero_le _, high := Nat.zero_le _ }

theorem Fits.count (fits : Fits s) (i : Input) : Fits (Breaker.count i s) := by
  have cooldown : s.cooldownRemaining - 1 ≤ kCooldownMask :=
    Nat.le_trans (Nat.sub_le ..) fits.cooldown
  cases i with
  | directTimeout => exact { fits with direct := increment_le_mask fits.direct }
  | dispatcherRtcTimeout => exact { fits with rtc := increment_le_mask fits.rtc }
  | watermark percent => exact fits.countSample percent
  | watermarkViolation => exact fits.countSample _
  | dispatchCycle =>
    simp only [Breaker.count]
    split
    · exact { fits with cooldown, healthy := increment_le_mask fits.healthy }
    · exact { fits with cooldown }
  | probeSuccess =>
    simp only [Breaker.count]
    split
    · exact { fits with }
    · exact fits
  | rtcOk => exact { fits with direct := Nat.zero_le _, rtc := Nat.zero_le _ }
  | _ => exact fits

theorem Fits.apply (cooldown : cfg.kCooldownCycles ≤ kCooldownMask) (fits : Fits s) (i : Input) :
    Fits (Breaker.apply cfg i s) := by
  have effect := apply_effect cfg i s
  generalize Breaker.apply cfg i s = t at effect
  cases effect with
  | degrade level => exact .broken cooldown level
  | recover => constructor <;> first | exact fits.cooldown | exact Nat.zero_le _
  | heal => exact { fits.count i with healthy := Nat.zero_le _ }
  | count => exact fits.count i

theorem update_pack (fits : Fits s) (transition : State → State) :
    update transition (pack s) = some (pack (transition s)) := by
  rw [update, unpack_pack fits, Option.map_some]

theorem fits_afterInputs (cooldown : cfg.kCooldownCycles ≤ kCooldownMask) (past : List Input) :
    Fits (afterInputs cfg past) := by
  induction past using List.reverseRecOn with
  | nil => constructor <;> exact Nat.zero_le _
  | append_singleton _ i fits =>
    rw [afterInputs_snoc]
    exact fits.apply cooldown i

end Breaker

end Coact
