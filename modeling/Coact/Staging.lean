import Mathlib.Algebra.Order.Group.Multiset
import Mathlib.Data.Nat.Bitwise
import Mathlib.Tactic.Abel
import Coact.Ao
import Coact.Queue.Backend

/-! The parts of `Staging` that are not queue storage: slots and reservation
claims, batch-order selection, Low aging, and the packed admission word. -/
namespace Coact
open Function

inductive ReservationClaim where
  | None | HighOrdinary | NormalOrdinary | NormalReserved
  deriving DecidableEq, Repr

/-- `sub` is a ghost: the submission that built the slot. -/
structure StagingSlot where
  target : TargetId
  claim : ReservationClaim
  event : Nat
  enqueueNs : Nat
  sub : Nat
  deriving DecidableEq, Repr

/-- The `select` operands with side conditions on the queues; their order of
evaluation is up to the compiler. -/
inductive Operand where
  | count (p : Partition)
  | aging

namespace Dispatch

structure Operands where
  high : Bool := false
  normal : Bool := false
  low : Bool := false
  aged : Bool := false

def Operands.setCount (ops : Operands) : Partition → Bool → Operands
  | .High, b => { ops with high := b }
  | .Normal, b => { ops with normal := b }
  | .Low, b => { ops with low := b }

/-- `any_ready` and `any_buffered` visit the partitions in this order. -/
def next : Partition → Option Partition
  | .High => some .Normal
  | .Normal => some .Low
  | .Low => none

end Dispatch

namespace Staging

def admissionValid (cfg : Config) (cls : PriorityClass) : StagingAdmission → Bool
  | .Ordinary => true
  | .ReservedNormal => cls = .Normal ∧ cfg.kNormalReservedCapacity ≠ 0

def classifyClaim (cfg : Config) (cls : PriorityClass) (critical : Bool)
    (admission : StagingAdmission) : ReservationClaim :=
  if cls = .Normal ∧ admission = .ReservedNormal then .NormalReserved
  else if cls = .Normal ∧ cfg.kNormalReservedCapacity ≠ 0 then .NormalOrdinary
  else if cls = .High ∧ critical = false ∧ cfg.kHighCriticalReserve ≠ 0 then .HighOrdinary
  else .None

/-- The limit `try_claim` passes to `try_claim_counter`. -/
def claimLimit (cfg : Config) : ReservationClaim → Nat
  | .None => 0
  | .HighOrdinary => cfg.kHighCapacity - cfg.kHighCriticalReserve
  | .NormalOrdinary => cfg.kNormalCapacity - cfg.kNormalReservedCapacity
  | .NormalReserved => cfg.kNormalReservedCapacity

/-- `release_claim_counter`: `fetch_sub`, then the check on the prior value. -/
def releaseClaimCounter (count : Nat) : Except Assertion Nat :=
  if 0 < count then .ok (count - 1) else .error .claimUnderflow

/-- `BatchSelector::select`. -/
def select (high normal low lowAged : Bool) (batchUsed batchMax : Nat) : Option Partition :=
  if batchMax ≤ batchUsed then none
  else if low && lowAged then some .Low
  else if high then some .High
  else if normal then some .Normal
  else if low then some .Low
  else none

/-- The age test of `aging_expired` on the Low head: a wrap-safe 32-bit delta
whose upper half means that the head arrived after `now`. -/
def aged (cfg : Config) (nowNs enqueueNs : Nat) : Bool :=
  let delta := (nowNs % 2 ^ 32 + (2 ^ 32 - enqueueNs % 2 ^ 32)) % 2 ^ 32
  delta < 2 ^ 31 ∧ cfg.kLowMaxWaitMs * 1000000 ≤ delta

def kAdmissionClosed : Nat := 0x80000000
def kAdmissionCountMask : Nat := 0x7fffffff

def closed (word : Nat) : Bool := word &&& kAdmissionClosed ≠ 0
def leaseCount (word : Nat) : Nat := word &&& kAdmissionCountMask

/-- The refusal tests of `acquire_submission`. -/
def acquireRefused (word : Nat) : Bool := closed word || leaseCount word = kAdmissionCountMask

def acquired (word : Nat) : Nat := (word + 1) % 2 ^ 32
def releaseSubmission (word : Nat) : Nat := if word = 0 then 2 ^ 32 - 1 else word - 1
def lastAfterClose (word : Nat) : Bool := (kAdmissionClosed ||| 1) = word
def closeAdmission (word : Nat) : Nat := word ||| kAdmissionClosed
def submissionsIdle (word : Nat) : Bool := leaseCount word = 0

/-- The word that holds `count` leases; every reachable word has this form. -/
def packed (shut : Bool) (count : Nat) : Nat := (if shut then kAdmissionClosed else 0) + count

section
variable {shut : Bool} {count : Nat}

theorem leaseCount_packed (small : count < 2 ^ 31) : leaseCount (packed shut count) = count := by
  have mask : kAdmissionCountMask = 2 ^ 31 - 1 := rfl
  rw [leaseCount, mask, Nat.and_two_pow_sub_one_eq_mod, packed, kAdmissionClosed]
  cases shut <;> simp <;> omega

theorem closed_packed (small : count < 2 ^ 31) : closed (packed shut count) = shut := by
  have bit : kAdmissionClosed = 2 ^ 31 := rfl
  rw [closed, bit, Nat.and_two_pow, packed, bit]
  cases shut with
  | false => simp [Nat.testBit_lt_two_pow small]
  | true =>
    have high : (2 ^ 31 + count).testBit 31 = true := by
      rw [Nat.testBit_two_pow_add_eq, Nat.testBit_lt_two_pow small]
      rfl
    simp only [if_true, high]
    decide

theorem closeAdmission_packed (small : count < 2 ^ 31) :
    closeAdmission (packed shut count) = packed true count := by
  have bit : kAdmissionClosed = 2 ^ 31 := rfl
  have folded : 2 ^ 31 + count = 2 ^ 31 ||| count := Nat.two_pow_add_eq_or_of_lt small 1
  simp only [closeAdmission, packed, bit, if_true, folded]
  cases shut with
  | false => simp [Nat.lor_comm]
  | true => rw [if_pos rfl, folded, Nat.lor_comm (2 ^ 31) count, Nat.lor_assoc, Nat.or_self]

theorem acquireRefused_packed (small : count < 2 ^ 31) :
    acquireRefused (packed shut count) = (shut || count = kAdmissionCountMask) := by
  rw [acquireRefused, closed_packed small, leaseCount_packed small]

theorem acquired_packed (room : count + 1 < 2 ^ 31) :
    acquired (packed shut count) = packed shut (count + 1) := by
  rw [acquired, packed, packed, kAdmissionClosed]
  cases shut <;> simp <;> omega

theorem releaseSubmission_packed (small : count < 2 ^ 31) (held : 0 < count) :
    releaseSubmission (packed shut count) = packed shut (count - 1) := by
  rw [releaseSubmission, packed, packed, kAdmissionClosed]
  cases shut <;> simp <;> omega

theorem lastAfterClose_packed (small : count < 2 ^ 31) :
    lastAfterClose (packed shut count) = (shut && decide (count = 1)) := by
  rw [Bool.eq_iff_iff]
  simp only [lastAfterClose, packed, kAdmissionClosed, decide_eq_true_eq, Bool.and_eq_true]
  cases shut <;> simp <;> omega

end

section
variable {B : Backend StagingSlot} {L : B.Lawful} {queue : Partition → B.Q}

/-- The published slots of all partitions. -/
def staged (L : B.Lawful) (queue : Partition → B.Q) : Multiset StagingSlot :=
  L.resident (queue .High) + L.resident (queue .Normal) + L.resident (queue .Low)

theorem staged_update (L : B.Lawful) (queue : Partition → B.Q) (p : Partition) (q : B.Q) :
    staged L (update queue p q) + L.resident (queue p) =
      staged L queue + L.resident q := by
  cases p <;> simp only [staged, update_apply, reduceCtorEq, if_true, if_false] <;> abel

theorem staged_update_same (same : L.resident q = L.resident (queue p)) :
    staged L (update queue p q) = staged L queue := by
  have exchanged := staged_update L queue p q
  rw [same] at exchanged
  exact add_right_cancel exchanged

theorem staged_update_cons (added : L.resident q = v ::ₘ L.resident (queue p)) :
    staged L (update queue p q) = v ::ₘ staged L queue := by
  have exchanged := staged_update L queue p q
  rw [added, Multiset.add_cons, ← Multiset.cons_add] at exchanged
  exact add_right_cancel exchanged

theorem staged_update_uncons (taken : L.resident (queue p) = v ::ₘ L.resident q) :
    staged L queue = v ::ₘ staged L (update queue p q) := by
  have exchanged := staged_update L queue p q
  rw [taken, Multiset.add_cons, ← Multiset.cons_add] at exchanged
  exact (add_right_cancel exchanged).symm

theorem mem_staged : v ∈ staged L queue ↔ ∃ p, v ∈ L.resident (queue p) := by
  simp only [staged, Multiset.mem_add]
  constructor
  · rintro ((high | normal) | low)
    · exact ⟨_, high⟩
    · exact ⟨_, normal⟩
    · exact ⟨_, low⟩
  · rintro ⟨p, mem⟩
    cases p
    · exact .inl (.inl mem)
    · exact .inl (.inr mem)
    · exact .inr mem

end

end Staging

end Coact
