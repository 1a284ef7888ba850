import Mathlib.Data.Nat.Bitwise
import Mathlib.Algebra.Order.Ring.Nat
import Coact.Foundation.Refinement

/-! The clock of the FreeRTOS and the RT-Thread PAL (`pal_freertos.cpp`, `pal_rtthread.cpp`):
a counter of some width, extended to 64 bits by counting its wraps, and its nanoseconds. The
reads are made under the interrupt mask, one after another; `raw` is what the counter shows. -/
namespace Coact.Pal
open Foundation

structure ClockOps where
  frequencyHz : Nat
  counterBits : Nat

def exactNsPerCounter (frequencyHz : Nat) : Nat :=
  if frequencyHz ≠ 0 ∧ 1000000000 % frequencyHz = 0 then 1000000000 / frequencyHz else 0

structure Clock where
  clockOps : ClockOps
  nsPerCounter : Nat
  counterEpoch : Nat
  lastCounter : Nat
  counterSeen : Bool

/-- Also the clock of a new PAL. -/
def setClockOps (ops : ClockOps) : Clock := ⟨ops, exactNsPerCounter ops.frequencyHz, 0, 0, false⟩

namespace Clock

def readExtendedCounter (clock : Clock) (raw : Nat) : Clock × Nat :=
  if clock.clockOps.counterBits = 0 ∨ 64 ≤ clock.clockOps.counterBits then (clock, raw)
  else
    let modulus := 2 ^ clock.clockOps.counterBits
    let counter := raw &&& (modulus - 1)
    let epoch :=
      if clock.counterSeen = true ∧ counter < clock.lastCounter then
        (clock.counterEpoch + modulus) % 2 ^ 64
      else clock.counterEpoch
    ({ clock with counterEpoch := epoch, lastCounter := counter, counterSeen := true },
      (epoch + counter) % 2 ^ 64)

/-- The two ways from an extended counter to nanoseconds. -/
def nanoseconds (hz nsPerCounter counter : Nat) : Nat :=
  if nsPerCounter ≠ 0 then counter * nsPerCounter % 2 ^ 64
  else
    (counter / hz * 1000000000 % 2 ^ 64 + counter % hz * 1000000000 % 2 ^ 64 / hz) % 2 ^ 64

def monotonicNs (clock : Clock) (raw : Nat) : Clock × Nat :=
  if clock.clockOps.frequencyHz = 0 then (clock, 0)
  else
    ((clock.readExtendedCounter raw).1,
      nanoseconds clock.clockOps.frequencyHz clock.nsPerCounter (clock.readExtendedCounter raw).2)

end Clock

inductive Rtos where
  | freeRtos | rtThread

/-- The text is the same in both. -/
def Rtos.readExtendedCounter : Rtos → Clock → Nat → Clock × Nat
  | .freeRtos => Clock.readExtendedCounter
  | .rtThread => Clock.readExtendedCounter

def Rtos.monotonicNs : Rtos → Clock → Nat → Clock × Nat
  | .freeRtos => Clock.monotonicNs
  | .rtThread => Clock.monotonicNs

/-- The counter since the epoch of the first read, at `c0`, without a limit. -/
def extended (bits c0 c : Nat) : Nat := c0 % 2 ^ bits + (c - c0)

section
variable {counter : Nat}

theorem nanoseconds_scale {scale : Nat} (positive : 0 < hz) (divides : 1000000000 = hz * scale)
    (room : counter * 1000000000 / hz < 2 ^ 64) :
    counter * scale % 2 ^ 64 = counter * 1000000000 / hz := by
  have exact_scale : counter * 1000000000 / hz = counter * scale := by
    rw [divides, Nat.mul_left_comm]
    exact Nat.mul_div_cancel_left _ positive
  rw [exact_scale] at room ⊢
  exact Nat.mod_eq_of_lt room

/-- Quotient and remainder are scaled apart; the remainder's product stays below 2^62. -/
theorem nanoseconds_split (positive : 0 < hz) (small : hz < 2 ^ 32)
    (room : counter * 1000000000 / hz < 2 ^ 64) :
    (counter / hz * 1000000000 % 2 ^ 64 + counter % hz * 1000000000 % 2 ^ 64 / hz) % 2 ^ 64 =
      counter * 1000000000 / hz := by
  have parts : counter * 1000000000 / hz =
      counter / hz * 1000000000 + counter % hz * 1000000000 / hz := by
    have whole : counter * 1000000000 =
        counter % hz * 1000000000 + hz * (counter / hz * 1000000000) := by
      rw [← Nat.mul_assoc, ← Nat.add_mul, Nat.mod_add_div]
    rw [whole, Nat.add_mul_div_left _ _ positive, Nat.add_comm]
  have remainder : counter % hz < hz := Nat.mod_lt _ positive
  have product : counter % hz * 1000000000 % 2 ^ 64 = counter % hz * 1000000000 :=
    Nat.mod_eq_of_lt (by omega)
  rw [parts] at room ⊢
  rw [product, Nat.mod_eq_of_lt (Nat.lt_of_le_of_lt (Nat.le_add_right _ _) room),
    Nat.mod_eq_of_lt room]

theorem nanoseconds_exact (positive : 0 < hz) (small : hz < 2 ^ 32)
    (room : counter * 1000000000 / hz < 2 ^ 64) :
    Clock.nanoseconds hz (exactNsPerCounter hz) counter = counter * 1000000000 / hz := by
  by_cases divides : 1000000000 % hz = 0
  · have scale : 1000000000 = hz * (1000000000 / hz) :=
      (Nat.mul_div_cancel' (Nat.dvd_of_mod_eq_zero divides)).symm
    have nonzero : 1000000000 / hz ≠ 0 := by
      intro none
      rw [none, Nat.mul_zero] at scale
      exact absurd scale (by decide)
    have per : exactNsPerCounter hz = 1000000000 / hz := if_pos ⟨positive.ne', divides⟩
    rw [Clock.nanoseconds, per, if_pos nonzero]
    exact nanoseconds_scale positive scale room
  · have per : exactNsPerCounter hz = 0 := if_neg fun both => divides both.2
    rw [Clock.nanoseconds, per, if_neg (not_not.mpr rfl)]
    exact nanoseconds_split positive small room

end

section
variable {m c0 c : Nat}

/-- Within one period, the residue falls exactly when the counter has wrapped once. -/
theorem wrap_detected (order : c ≤ d) (near : d - c < m) :
    (d % m < c % m ∧ d / m = c / m + 1) ∨ (c % m ≤ d % m ∧ d / m = c / m) := by
  have positive : 0 < m := Nat.zero_lt_of_lt near
  have low := Nat.div_add_mod c m
  have high := Nat.div_add_mod d m
  have mono : c / m ≤ d / m := Nat.div_le_div_right order
  have step : d / m ≤ c / m + 1 := by
    rw [← Nat.add_div_right c positive]
    exact Nat.div_le_div_right (by omega)
  rcases Nat.lt_or_ge (c / m) (d / m) with wrapped | same
  · have next : d / m = c / m + 1 := Nat.le_antisymm step wrapped
    rw [next, Nat.mul_add, Nat.mul_one] at high
    exact .inl ⟨by omega, next⟩
  · have equal : d / m = c / m := Nat.le_antisymm same mono
    rw [equal] at high
    exact .inr ⟨by omega, equal⟩

theorem extended_split (order : c0 ≤ c) : (c / m - c0 / m) * m + c % m = c0 % m + (c - c0) := by
  have low := Nat.div_add_mod c0 m
  have high := Nat.div_add_mod c m
  have mono : c0 / m * m ≤ c / m * m := Nat.mul_le_mul_right m (Nat.div_le_div_right order)
  rw [Nat.mul_comm] at low high
  rw [Nat.sub_mul]
  omega

end

/-- The clock after a read at `c`, when the first one was at `c0`. -/
structure Tracks (ops : ClockOps) (c0 c : Nat) (clock : Clock) : Prop where
  ops_eq : clock.clockOps = ops
  scale : clock.nsPerCounter = exactNsPerCounter ops.frequencyHz
  seen : clock.counterSeen = true
  last : clock.lastCounter = c % 2 ^ ops.counterBits
  epoch : clock.counterEpoch =
    (c / 2 ^ ops.counterBits - c0 / 2 ^ ops.counterBits) * 2 ^ ops.counterBits % 2 ^ 64

section
variable {ops : ClockOps} {c0 c d raw : Nat} {clock : Clock}

/-- A counter that has to be extended. -/
def Narrow (ops : ClockOps) : Prop := 1 ≤ ops.counterBits ∧ ops.counterBits ≤ 63

theorem Narrow.not_wide (narrow : Narrow ops) : ¬ (ops.counterBits = 0 ∨ 64 ≤ ops.counterBits) := by
  have low := narrow.1
  have high := narrow.2
  omega

theorem read_first (narrow : Narrow ops) (shown : raw % 2 ^ ops.counterBits = c0 % 2 ^ ops.counterBits) :
    Tracks ops c0 c0 ((setClockOps ops).readExtendedCounter raw).1 ∧
    ((setClockOps ops).readExtendedCounter raw).2 = extended ops.counterBits c0 c0 % 2 ^ 64 := by
  have counter : raw &&& (2 ^ ops.counterBits - 1) = c0 % 2 ^ ops.counterBits := by
    rw [Nat.and_two_pow_sub_one_eq_mod, shown]
  simp only [Clock.readExtendedCounter, setClockOps, if_neg narrow.not_wide, counter,
    Bool.false_eq_true, false_and, if_false]
  constructor
  · exact ⟨rfl, rfl, rfl, rfl, by rw [Nat.sub_self, Nat.zero_mul, Nat.zero_mod]⟩
  · rw [extended, Nat.sub_self, Nat.zero_add, Nat.add_zero]

theorem read_next (narrow : Narrow ops) (tracks : Tracks ops c0 c clock) (begun : c0 ≤ c)
    (order : c ≤ d) (near : d - c < 2 ^ ops.counterBits)
    (shown : raw % 2 ^ ops.counterBits = d % 2 ^ ops.counterBits) :
    Tracks ops c0 d (clock.readExtendedCounter raw).1 ∧
    (clock.readExtendedCounter raw).2 = extended ops.counterBits c0 d % 2 ^ 64 := by
  obtain ⟨rfl, scale, seen, last, epoch⟩ := tracks
  have counter : raw &&& (2 ^ clock.clockOps.counterBits - 1) =
      d % 2 ^ clock.clockOps.counterBits := by
    rw [Nat.and_two_pow_sub_one_eq_mod, shown]
  have split := extended_split (m := 2 ^ clock.clockOps.counterBits) (begun.trans order)
  have begun' : c0 / 2 ^ clock.clockOps.counterBits ≤ c / 2 ^ clock.clockOps.counterBits :=
    Nat.div_le_div_right begun
  -- The epoch the code computes is the one that belongs to `d`.
  have counted : (if clock.counterSeen = true ∧ d % 2 ^ clock.clockOps.counterBits < clock.lastCounter
        then (clock.counterEpoch + 2 ^ clock.clockOps.counterBits) % 2 ^ 64
        else clock.counterEpoch) =
      (d / 2 ^ clock.clockOps.counterBits - c0 / 2 ^ clock.clockOps.counterBits) *
        2 ^ clock.clockOps.counterBits % 2 ^ 64 := by
    rw [last, epoch]
    rcases wrap_detected order near with ⟨falls, next⟩ | ⟨keeps, same⟩
    · rw [if_pos ⟨seen, falls⟩, Nat.mod_add_mod, next, Nat.sub_add_comm begun', Nat.succ_mul]
    · rw [if_neg (fun both => Nat.not_lt_of_le keeps both.2), same]
  simp only [Clock.readExtendedCounter, if_neg narrow.not_wide, counter, counted]
  constructor
  · exact ⟨rfl, scale, rfl, rfl, rfl⟩
  · rw [Nat.mod_add_mod, split]
    rfl

/-- One true counter value after another, less than a period apart. -/
def Paced (bits : Nat) (counts : List Nat) : Prop :=
  counts.IsChain fun c d => c ≤ d ∧ d - c < 2 ^ bits

/-- A read that makes something of the extended counter. -/
def Derives (ops : ClockOps) (read : Clock → Nat → Clock × Nat) (g : Nat → Nat) : Prop :=
  ∀ clock raw, clock.clockOps = ops → clock.nsPerCounter = exactNsPerCounter ops.frequencyHz →
    read clock raw = ((clock.readExtendedCounter raw).1, g (clock.readExtendedCounter raw).2)

variable {sample : Nat → Nat} {read : Clock → Nat → Clock × Nat}

theorem reads_after (narrow : Narrow ops) (derives : Derives ops read g)
    (shows : ∀ c, sample c % 2 ^ ops.counterBits = c % 2 ^ ops.counterBits)
    (tracks : Tracks ops c0 c clock) (begun : c0 ≤ c) (paced : Paced ops.counterBits (c :: cs)) :
    (answers read clock (cs.map sample)).2 =
      cs.map fun d => g (extended ops.counterBits c0 d % 2 ^ 64) := by
  induction cs generalizing c clock with
  | nil => rfl
  | cons d _ ih =>
    obtain ⟨⟨order, near⟩, later⟩ := List.isChain_cons_cons.mp paced
    obtain ⟨tracks', value⟩ := read_next narrow tracks begun order near (shows d)
    have first := derives clock (sample d) tracks.ops_eq tracks.scale
    rw [List.map_cons, List.map_cons, answers, first, value]
    exact congrArg (List.cons _) (ih tracks' (begun.trans order) later)

theorem reads_all (narrow : Narrow ops) (derives : Derives ops read g)
    (shows : ∀ c, sample c % 2 ^ ops.counterBits = c % 2 ^ ops.counterBits)
    (paced : Paced ops.counterBits (c0 :: cs)) :
    (answers read (setClockOps ops) ((c0 :: cs).map sample)).2 =
      (c0 :: cs).map fun d => g (extended ops.counterBits c0 d % 2 ^ 64) := by
  obtain ⟨tracks, value⟩ := read_first narrow (shows c0)
  have first := derives (setClockOps ops) (sample c0) rfl rfl
  rw [List.map_cons, List.map_cons, answers, first, value]
  exact congrArg (List.cons _) (reads_after narrow derives shows tracks le_rfl paced)

theorem derives_extended (rtos : Rtos) : Derives ops rtos.readExtendedCounter id := by
  intro clock raw _ _
  cases rtos <;> rfl

theorem derives_ns (rtos : Rtos) (positive : 1 ≤ ops.frequencyHz) :
    Derives ops rtos.monotonicNs
      (Clock.nanoseconds ops.frequencyHz (exactNsPerCounter ops.frequencyHz)) := by
  intro clock raw same scale
  have running : ¬ clock.clockOps.frequencyHz = 0 := same ▸ Nat.ne_of_gt positive
  have read : rtos.monotonicNs clock raw = clock.monotonicNs raw := by cases rtos <;> rfl
  rw [read, Clock.monotonicNs, if_neg running, same, scale]

theorem extended_mono {bits : Nat} (order : c ≤ d) : extended bits c0 c ≤ extended bits c0 d :=
  Nat.add_le_add_left (Nat.sub_le_sub_right order c0) _

/-- Up to 1 GHz a time below 2^64 ns is made of a counter below 2^64. -/
theorem counter_lt {hz counter : Nat} (positive : 1 ≤ hz)
    (room : counter * 1000000000 / hz < 2 ^ 64) (slow : hz ≤ 1000000000) : counter < 2 ^ 64 := by
  refine Nat.lt_of_le_of_lt ?_ room
  rw [Nat.le_div_iff_mul_le positive]
  exact Nat.mul_le_mul_left counter slow

end

/-- The extended counter is the true one since the first read's epoch, modulo 2^64; as long as
it and its time stay below 2^64, the time is exact and never goes backwards. Up to 1 GHz the
time alone has to. -/
theorem clock_exact (rtos : Rtos) (ops : ClockOps) (narrow : Narrow ops)
    (positive : 1 ≤ ops.frequencyHz) (small : ops.frequencyHz < 2 ^ 32) (sample : Nat → Nat)
    (shows : ∀ c, sample c % 2 ^ ops.counterBits = c % 2 ^ ops.counterBits)
    (c0 : Nat) (cs : List Nat) (paced : Paced ops.counterBits (c0 :: cs)) :
    (answers rtos.readExtendedCounter (setClockOps ops) ((c0 :: cs).map sample)).2 =
      (c0 :: cs).map (fun c => extended ops.counterBits c0 c % 2 ^ 64) ∧
    ((∀ c ∈ c0 :: cs,
        extended ops.counterBits c0 c * 1000000000 / ops.frequencyHz < 2 ^ 64 ∧
        (1000000000 < ops.frequencyHz → extended ops.counterBits c0 c < 2 ^ 64)) →
      (answers rtos.monotonicNs (setClockOps ops) ((c0 :: cs).map sample)).2 =
        (c0 :: cs).map (fun c => extended ops.counterBits c0 c * 1000000000 / ops.frequencyHz) ∧
      (answers rtos.monotonicNs (setClockOps ops) ((c0 :: cs).map sample)).2.Pairwise (· ≤ ·)) := by
  refine ⟨reads_all narrow (derives_extended rtos) shows paced, ?_⟩
  intro bounded
  have exact_times : (answers rtos.monotonicNs (setClockOps ops) ((c0 :: cs).map sample)).2 =
      (c0 :: cs).map fun c => extended ops.counterBits c0 c * 1000000000 / ops.frequencyHz := by
    rw [reads_all narrow (derives_ns rtos positive) shows paced]
    apply List.map_congr_left
    intro c mem
    obtain ⟨room, fits⟩ := bounded c mem
    have counter : extended ops.counterBits c0 c < 2 ^ 64 := by
      rcases Nat.lt_or_ge 1000000000 ops.frequencyHz with fast | slow
      · exact fits fast
      · exact counter_lt positive room slow
    rw [Nat.mod_eq_of_lt counter, nanoseconds_exact positive small room]
  refine ⟨exact_times, ?_⟩
  rw [exact_times]
  have ordered : (c0 :: cs).Pairwise (· ≤ ·) :=
    List.isChain_iff_pairwise.mp (paced.imp fun _ _ both => both.1)
  apply ordered.map
  intro c d order
  exact Nat.div_le_div_right (Nat.mul_le_mul_right _ (extended_mono order))

/-- A 32-bit counter at 3 Hz wraps between two reads. -/
theorem clock_exact_wrap :
    (answers Rtos.freeRtos.monotonicNs (setClockOps ⟨3, 32⟩)
      ([4294967295, 4294967300].map (· % 2 ^ 32))).2 =
        [4294967295 * 1000000000 / 3, 4294967300 * 1000000000 / 3] := by
  have paced : Paced 32 [4294967295, 4294967300] := by simp [Paced]
  have times := (clock_exact .freeRtos ⟨3, 32⟩ (by unfold Narrow; decide) (by decide) (by decide)
    (· % 2 ^ 32) (fun c => Nat.mod_mod c _) 4294967295 [4294967300] paced).2 (by decide)
  exact times.1

/-- A 63-bit counter at 4294967295 Hz: the last read is at 2^64, whose time fits 64 bits, but
the extended counter has wrapped and the clock is back at 0. -/
theorem clock_wraps :
    Paced 63 [0, 9223372036854775807, 18446744073709551614, 18446744073709551616] ∧
    extended 63 0 18446744073709551616 * 1000000000 / 4294967295 = 4294967297000000000 ∧
    (answers Rtos.freeRtos.monotonicNs (setClockOps ⟨4294967295, 63⟩)
      ([0, 9223372036854775807, 18446744073709551614, 18446744073709551616].map
        (· % 2 ^ 63))).2 =
        [0, 2147483648499999999, 4294967296999999999, 0] := by
  exact ⟨by simp [Paced], by decide, by decide +kernel⟩

end Coact.Pal
