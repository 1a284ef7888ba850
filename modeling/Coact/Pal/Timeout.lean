import Mathlib.Algebra.Order.Floor.Div
import Mathlib.Algebra.Order.Ring.Nat
import Mathlib.Data.Nat.Bitwise

/-! The conversions of timeouts to ticks and of sleeps to delays (`pal_freertos.hpp`,
`pal_freertos.cpp`, `pal_rtthread.hpp`, `pal_rtthread.cpp`). `hz` is the configured tick rate,
a tick count has 32 bits, and the intermediate values have the width of the source's types. -/
namespace Coact.Pal

namespace FreeRtos

def portMaxDelay : Nat := 0xFFFFFFFF
def kWaitForever : Nat := 0xFFFFFFFF

def msToTicks (hz timeoutMs : Nat) : Nat :=
  if timeoutMs = 0 then 0
  else
    let ticks := (timeoutMs * hz + 999) % 2 ^ 64 / 1000
    if portMaxDelay ≤ ticks then (portMaxDelay - 1) % 2 ^ 32
    else (if ticks = 0 then 1 else ticks) % 2 ^ 32

def waitTicks (hz timeoutMs : Nat) : Nat :=
  if timeoutMs = 0 ∨ timeoutMs = kWaitForever then portMaxDelay else msToTicks hz timeoutMs

/-- The ticks given to `vTaskDelay`, or `none` for a yield. -/
def sleepUs (hz us : Nat) : Option Nat :=
  let rounded := (us * hz + 999999) % 2 ^ 64 / 1000000
  let ticks := if 0 < us ∧ rounded = 0 then 1 else rounded
  if ticks = 0 then none else some (ticks % 2 ^ 32)

end FreeRtos

namespace RtThread

/-- `RT_WAITING_FOREVER` is 0x7FFFFFFF in the stub and -1 in the kernel. -/
inductive WaitingForever where
  | stub | kernel

namespace WaitingForever

def int32 : WaitingForever → Int
  | .stub => 0x7FFFFFFF
  | .kernel => -1

/-- `static_cast<uint64_t>` of it. -/
def uint64 : WaitingForever → Nat
  | .stub => 0x7FFFFFFF
  | .kernel => 0xFFFFFFFFFFFFFFFF

/-- The longest wait that is not for ever. -/
def largest : WaitingForever → Int
  | .stub => 0x7FFFFFFE
  | .kernel => 0x7FFFFFFF

end WaitingForever

/-- `static_cast<rt_int32_t>`. -/
def toInt32 (n : Nat) : Int :=
  if n % 2 ^ 32 < 2 ^ 31 then (n % 2 ^ 32 : Nat) else (n % 2 ^ 32 : Nat) - 2 ^ 32

def dispatcherWaitTicks (forever : WaitingForever) (hz timeoutMs : Nat) : Int :=
  if timeoutMs = 0 then forever.int32
  else
    let ticks := if hz ≠ 1000 then (timeoutMs * hz + 999) % 2 ^ 64 / 1000 else timeoutMs
    if forever.uint64 ≤ ticks then toInt32 (forever.uint64 - 1) else toInt32 ticks

/-- The milliseconds given to `rt_thread_mdelay`. The sum is made in 32 bits. -/
def sleepUs (us : Nat) : Int :=
  let ms := toInt32 ((us + 999) % 2 ^ 32 / 1000)
  if ms = 0 then 1 else ms

end RtThread

/-- The exact number of ticks of a timeout, rounded up. -/
def ceilTicks (hz ms : Nat) : Nat := ms * hz ⌈/⌉ 1000

/-- What a conversion owes a finite timeout. -/
structure Faithful (hz ms : Nat) (forever largest ticks : Int) : Prop where
  positive : 0 < ticks
  finite : ticks ≠ forever
  exact : ticks = min (ceilTicks hz ms : Int) largest

/-- The ticks of the timeout fit a signed word, if the kernel's forever does not limit them; or
they come out as the longest wait by chance. -/
def RtThread.Fits (forever : RtThread.WaitingForever) (hz ms : Nat) : Prop :=
  forever = .stub ∨ ceilTicks hz ms < 2 ^ 31 ∨ ceilTicks hz ms % 2 ^ 32 = 2 ^ 31 - 1

section
variable {ms us : Nat}

theorem rounded_eq (fast : hz ≤ 1000000) (word : ms < 2 ^ 32) :
    (ms * hz + 999) % 2 ^ 64 / 1000 = ceilTicks hz ms := by
  have product : ms * hz ≤ 2 ^ 32 * 1000000 := Nat.mul_le_mul word.le fast
  rw [ceilTicks, Nat.ceilDiv_eq_add_pred_div]
  omega

theorem ceilTicks_pos (slow : 1 ≤ hz) (some_ms : 0 < ms) : 0 < ceilTicks hz ms := by
  have product : 0 < ms * hz := Nat.mul_pos some_ms slow
  rw [ceilTicks, Nat.ceilDiv_eq_add_pred_div]
  omega

theorem ceilTicks_mono (hz : Nat) {ms ms' : Nat} (order : ms ≤ ms') :
    ceilTicks hz ms ≤ ceilTicks hz ms' := by
  have product : ms * hz ≤ ms' * hz := Nat.mul_le_mul_right hz order
  exact Nat.div_le_div_right (by omega)

theorem msToTicks_faithful (slow : 1 ≤ hz) (fast : hz ≤ 1000000) (some_ms : 0 < ms)
    (word : ms < 2 ^ 32) :
    Faithful hz ms FreeRtos.portMaxDelay (FreeRtos.portMaxDelay - 1) (FreeRtos.msToTicks hz ms) := by
  have positive := ceilTicks_pos slow some_ms
  have value : (FreeRtos.msToTicks hz ms : Int) = min (ceilTicks hz ms : Int) 0xFFFFFFFE := by
    simp only [FreeRtos.msToTicks, if_neg some_ms.ne', rounded_eq fast word,
      if_neg positive.ne', FreeRtos.portMaxDelay]
    split <;> omega
  unfold FreeRtos.portMaxDelay
  exact ⟨by omega, by omega, value⟩

theorem dispatcherWaitTicks_eq (fast : hz ≤ 1000000) (some_ms : 0 < ms) (word : ms < 2 ^ 32)
    (forever : RtThread.WaitingForever) :
    RtThread.dispatcherWaitTicks forever hz ms =
      if forever.uint64 ≤ ceilTicks hz ms then RtThread.toInt32 (forever.uint64 - 1)
      else RtThread.toInt32 (ceilTicks hz ms) := by
  have ticks : (if hz ≠ 1000 then (ms * hz + 999) % 2 ^ 64 / 1000 else ms) = ceilTicks hz ms := by
    rw [rounded_eq fast word]
    split
    · rfl
    · rename_i thousand
      rw [ceilTicks, not_not.mp thousand, Nat.ceilDiv_eq_add_pred_div]
      omega
  simp only [RtThread.dispatcherWaitTicks, if_neg some_ms.ne', ticks]

theorem toInt32_small {n : Nat} (small : n < 2 ^ 31) : RtThread.toInt32 n = n := by
  rw [RtThread.toInt32, if_pos (by omega), Nat.mod_eq_of_lt (by omega)]

/-- A larger value comes out of the cast as the largest signed word only by its residue. -/
theorem toInt32_eq_largest {n : Nat} :
    RtThread.toInt32 n = 0x7FFFFFFF ↔ n % 2 ^ 32 = 2 ^ 31 - 1 := by
  unfold RtThread.toInt32
  split <;> omega

theorem dispatcherWaitTicks_stub (slow : 1 ≤ hz) (fast : hz ≤ 1000000) (some_ms : 0 < ms)
    (word : ms < 2 ^ 32) :
    Faithful hz ms 0x7FFFFFFF 0x7FFFFFFE (RtThread.dispatcherWaitTicks .stub hz ms) := by
  have positive := ceilTicks_pos slow some_ms
  have value : RtThread.dispatcherWaitTicks .stub hz ms = min (ceilTicks hz ms : Int) 0x7FFFFFFE := by
    rw [dispatcherWaitTicks_eq fast some_ms word]
    split
    · rename_i above
      simp only [RtThread.WaitingForever.uint64] at above ⊢
      rw [toInt32_small (by decide)]
      omega
    · rename_i below
      simp only [RtThread.WaitingForever.uint64] at below
      rw [toInt32_small (by omega)]
      omega
  exact ⟨by omega, by omega, value⟩

theorem dispatcherWaitTicks_kernel (fast : hz ≤ 1000000) (some_ms : 0 < ms) (word : ms < 2 ^ 32) :
    RtThread.dispatcherWaitTicks .kernel hz ms = RtThread.toInt32 (ceilTicks hz ms) := by
  have product : ms * hz ≤ 2 ^ 32 * 1000000 := Nat.mul_le_mul word.le fast
  have bound : ¬ RtThread.WaitingForever.kernel.uint64 ≤ ceilTicks hz ms := by
    rw [ceilTicks, Nat.ceilDiv_eq_add_pred_div, RtThread.WaitingForever.uint64]
    omega
  rw [dispatcherWaitTicks_eq fast some_ms word, if_neg bound]

theorem dispatcherWaitTicks_faithful (slow : 1 ≤ hz) (fast : hz ≤ 1000000) (some_ms : 0 < ms)
    (word : ms < 2 ^ 32) (forever : RtThread.WaitingForever) :
    Faithful hz ms forever.int32 forever.largest (RtThread.dispatcherWaitTicks forever hz ms) ↔
      RtThread.Fits forever hz ms := by
  cases forever with
  | stub =>
    exact ⟨fun _ => .inl rfl, fun _ => dispatcherWaitTicks_stub slow fast some_ms word⟩
  | kernel =>
    have positive := ceilTicks_pos slow some_ms
    rw [dispatcherWaitTicks_kernel fast some_ms word]
    simp only [RtThread.WaitingForever.int32, RtThread.WaitingForever.largest]
    constructor
    · intro faithful
      have value := faithful.exact
      by_cases small : ceilTicks hz ms < 2 ^ 31
      · exact .inr (.inl small)
      · rw [min_eq_right (by omega)] at value
        exact .inr (.inr (toInt32_eq_largest.mp value))
    · rintro (stub | small | chance)
      · cases stub
      · rw [toInt32_small small]
        exact ⟨by omega, by omega, by omega⟩
      · rw [toInt32_eq_largest.mpr chance]
        exact ⟨by decide, by decide, by omega⟩

theorem freeRtos_sleepUs (slow : 1 ≤ hz) (fast : hz ≤ 1000000) (some_us : 0 < us)
    (word : us < 2 ^ 32) :
    ∃ ticks, FreeRtos.sleepUs hz us = some ticks ∧ us * hz ≤ ticks * 1000000 := by
  have product : us * hz ≤ us * 1000000 := Nat.mul_le_mul_left us fast
  have positive : 0 < us * hz := Nat.mul_pos some_us slow
  have exact_ticks : (us * hz + 999999) % 2 ^ 64 / 1000000 = (us * hz + 999999) / 1000000 := by
    rw [Nat.mod_eq_of_lt (by omega)]
  have some_ticks : ¬ (us * hz + 999999) / 1000000 = 0 := by omega
  have fits : (us * hz + 999999) / 1000000 < 2 ^ 32 := by omega
  have ceiling : us * hz ⌈/⌉ 1000000 = (us * hz + 999999) / 1000000 := by
    rw [Nat.ceilDiv_eq_add_pred_div, Nat.add_sub_assoc (by decide)]
  have enough : us * hz ≤ 1000000 * (us * hz ⌈/⌉ 1000000) :=
    (ceilDiv_le_iff_le_mul (by decide)).mp le_rfl
  rw [Nat.mul_comm 1000000, ceiling] at enough
  refine ⟨(us * hz + 999999) / 1000000, ?_, enough⟩
  simp only [FreeRtos.sleepUs, exact_ticks, if_neg (fun both : 0 < us ∧ _ => some_ticks both.2),
    if_neg some_ticks, Nat.mod_eq_of_lt fits]

/-- The sum of the source wraps for the last 999 arguments, and they sleep a millisecond. -/
theorem rtThread_sleepUs (word : us < 2 ^ 32) :
    (us : Int) ≤ RtThread.sleepUs us * 1000 ↔ us + 999 < 2 ^ 32 := by
  rcases Nat.lt_or_ge (us + 999) (2 ^ 32) with fits | wraps
  · have ms : RtThread.toInt32 ((us + 999) % 2 ^ 32 / 1000) = ((us + 999) / 1000 : Nat) := by
      rw [Nat.mod_eq_of_lt fits, toInt32_small (by omega)]
    simp only [RtThread.sleepUs, ms]
    split <;> omega
  · have none : (us + 999) % 2 ^ 32 / 1000 = 0 := by omega
    have slept : RtThread.sleepUs us = 1 := by
      rw [RtThread.sleepUs, none]
      rfl
    omega

end

/-- At every tick rate the FreeRTOS conversions are exact and monotone, and its sleeps are long
enough. On RT-Thread a wait is exact if and only if its ticks fit, waits are monotone among
those, and a sleep is long enough if and only if the rounding does not wrap. -/
theorem timeout_conversions (hz : Nat) (slow : 1 ≤ hz) (fast : hz ≤ 1000000) :
    (∀ ms, 0 < ms → ms < 2 ^ 32 →
      Faithful hz ms FreeRtos.portMaxDelay (FreeRtos.portMaxDelay - 1) (FreeRtos.msToTicks hz ms) ∧
      (ms ≠ FreeRtos.kWaitForever → FreeRtos.waitTicks hz ms = FreeRtos.msToTicks hz ms) ∧
      ∀ ms', ms ≤ ms' → ms' < 2 ^ 32 → FreeRtos.msToTicks hz ms ≤ FreeRtos.msToTicks hz ms') ∧
    (∀ forever ms, 0 < ms → ms < 2 ^ 32 →
      (Faithful hz ms forever.int32 forever.largest (RtThread.dispatcherWaitTicks forever hz ms) ↔
        RtThread.Fits forever hz ms) ∧
      ∀ ms', ms ≤ ms' → ms' < 2 ^ 32 → RtThread.Fits forever hz ms → RtThread.Fits forever hz ms' →
        RtThread.dispatcherWaitTicks forever hz ms ≤ RtThread.dispatcherWaitTicks forever hz ms') ∧
    ∀ us, 0 < us → us < 2 ^ 32 →
      (∃ ticks, FreeRtos.sleepUs hz us = some ticks ∧ us * hz ≤ ticks * 1000000) ∧
      ((us : Int) ≤ RtThread.sleepUs us * 1000 ↔ us + 999 < 2 ^ 32) := by
  refine ⟨?_, ?_, ?_⟩
  · intro ms some_ms word
    have faithful := msToTicks_faithful slow fast some_ms word
    refine ⟨faithful, ?_, ?_⟩
    · intro finite
      rw [FreeRtos.waitTicks, if_neg (by omega)]
    · intro ms' order word'
      have faithful' := msToTicks_faithful slow fast (some_ms.trans_le order) word'
      have mono := ceilTicks_mono hz order
      have low := faithful.exact
      have high := faithful'.exact
      omega
  · intro forever ms some_ms word
    refine ⟨dispatcherWaitTicks_faithful slow fast some_ms word forever, ?_⟩
    intro ms' order word' fits fits'
    have low := ((dispatcherWaitTicks_faithful slow fast some_ms word forever).mpr fits).exact
    have high := ((dispatcherWaitTicks_faithful slow fast (some_ms.trans_le order)
      word' forever).mpr fits').exact
    have mono := ceilTicks_mono hz order
    omega
  · intro us some_us word
    exact ⟨freeRtos_sleepUs slow fast some_us word, rtThread_sleepUs word⟩

/-- At 100 Hz a timeout of 5 ms is one tick, and 1500 us are slept as 2 ms. -/
theorem timeout_conversions_hundred :
    Faithful 100 5 FreeRtos.portMaxDelay (FreeRtos.portMaxDelay - 1) (FreeRtos.msToTicks 100 5) ∧
    Faithful 100 5 (-1) 0x7FFFFFFF (RtThread.dispatcherWaitTicks .kernel 100 5) ∧
    (1500 : Int) ≤ RtThread.sleepUs 1500 * 1000 := by
  obtain ⟨freeRtos, rtThread, sleeps⟩ := timeout_conversions 100 (by decide) (by decide)
  have fits : RtThread.Fits .kernel 100 5 := .inr (.inl (by decide))
  exact ⟨(freeRtos 5 (by decide) (by decide)).1,
    (rtThread .kernel 5 (by decide) (by decide)).1.mpr fits,
    (sleeps 1500 (by decide) (by decide)).2.mpr (by decide)⟩

/-- With the kernel's constant the longest timeout at 1 kHz is a wait for ever, a shorter one a
negative tick count; and the longest sleep is one millisecond. -/
theorem waits_distorted :
    RtThread.dispatcherWaitTicks .kernel 1000 0xFFFFFFFF = RtThread.WaitingForever.kernel.int32 ∧
    RtThread.dispatcherWaitTicks .kernel 1000 0x80000000 = -0x80000000 ∧
    RtThread.sleepUs 0xFFFFFFFF = 1 := by decide

end Coact.Pal
