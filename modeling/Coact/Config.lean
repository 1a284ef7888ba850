import Mathlib.Init

/-! Vocabulary and compile-time configuration (`config.hpp`). The static
assertions of the queues and of `Staging` are fields of `Config`, so a
configuration the compiler rejects cannot be built here either. -/
namespace Coact

inductive PriorityClass where
  | High | Normal | Low
  deriving DecidableEq, Repr

inductive Partition where
  | High | Normal | Low
  deriving DecidableEq, Repr

def partitionFromClass : PriorityClass → Partition
  | .High => .High
  | .Normal => .Normal
  | .Low => .Low

inductive StagingAdmission where
  | Ordinary | ReservedNormal
  deriving DecidableEq, Repr

/-- 1-based AO identity; raw value 0 is `kInvalidTarget`. -/
structure TargetId where
  raw : UInt8
  deriving DecidableEq, Repr

def kInvalidTarget : TargetId := ⟨0⟩

inductive SubmitDisposition where
  | Direct | Queued | Merged | DroppedPolicy | DroppedRateLimit | DroppedOverload
  | RejectedFull | RejectedState
  deriving DecidableEq, Repr

structure SubmitResult where
  disposition : SubmitDisposition
  reason : Nat
  deriving DecidableEq, Repr

def kInvalidPrio : Nat := 0
def kMaxPrio : Nat := 63

def kArrivalTooSoon : Nat := 4
def kBacklogFull : Nat := 5

structure Config where
  kMaxAo : Nat
  kBatchSizeMax : Nat
  kHighCapacity : Nat
  kNormalCapacity : Nat
  kLowCapacity : Nat
  kHighCriticalReserve : Nat
  kNormalReservedCapacity : Nat
  kBatchTimeoutMs : Nat
  kLowMaxWaitMs : Nat
  kCooldownCycles : Nat
  high_pos : 0 < kHighCapacity
  normal_pos : 0 < kNormalCapacity
  low_pos : 0 < kLowCapacity
  high_reserve : kHighCriticalReserve ≤ kHighCapacity
  normal_reserve : kNormalReservedCapacity ≤ kNormalCapacity
  low_wait : kLowMaxWaitMs < 2000

def Config.capacity (cfg : Config) : Partition → Nat
  | .High => cfg.kHighCapacity
  | .Normal => cfg.kNormalCapacity
  | .Low => cfg.kLowCapacity

theorem Config.capacity_pos (cfg : Config) (p : Partition) : 0 < cfg.capacity p := by
  cases p
  · exact cfg.high_pos
  · exact cfg.normal_pos
  · exact cfg.low_pos

def DefaultConfig : Config where
  kMaxAo := 16
  kBatchSizeMax := 8
  kHighCapacity := 32
  kNormalCapacity := 64
  kLowCapacity := 128
  kHighCriticalReserve := 0
  kNormalReservedCapacity := 0
  kBatchTimeoutMs := 5
  kLowMaxWaitMs := 100
  kCooldownCycles := 100
  high_pos := by decide
  normal_pos := by decide
  low_pos := by decide
  high_reserve := by decide
  normal_reserve := by decide
  low_wait := by decide

end Coact
