import Coact.Config

/-! Active objects (`ao.hpp`): the execution lease, the pending counter and the
registry. A failed `COACT_ASSERT` ends the process, so the operations that
check one return `Except Assertion`. -/
namespace Coact

inductive Assertion where
  | leaseRelease | pendingCeiling | pendingUnderflow | claimUnderflow

/-- A step is not enabled, or it ends the process in a failed assertion. -/
inductive Halt where
  | disabled
  | assertion (a : Assertion)

/-- Run an operation that may fail its assertion. -/
def asserted {α β : Type} (checked : Except Assertion α) (next : α → β) : Except Halt β :=
  match checked with
  | .ok a => .ok (next a)
  | .error a => .error (.assertion a)

theorem asserted_ok {α β : Type} {checked : Except Assertion α} {next : α → β} {b : β}
    (done : asserted checked next = .ok b) : ∃ a, checked = .ok a ∧ next a = b := by
  cases checked with
  | ok a => exact ⟨a, rfl, Except.ok.inj done⟩
  | error => cases done

theorem asserted_error {α β : Type} {checked : Except Assertion α} {next : α → β}
    (failed : asserted checked next = .error (.assertion a)) : checked = .error a := by
  cases checked with
  | ok => cases failed
  | error => cases failed; rfl

inductive AoRunState where
  | Idle | RunningDirect | RunningDispatcher
  deriving DecidableEq, Repr

namespace ExecutionLease

/-- The compare-exchange of `try_acquire`; acquiring into Idle is refused. -/
def tryAcquire (desired state : AoRunState) : AoRunState × Bool :=
  if desired = .Idle then (state, false)
  else if state = .Idle then (desired, true)
  else (state, false)

def release (expected state : AoRunState) : Except Assertion AoRunState :=
  if state = expected then .ok .Idle else .error .leaseRelease

end ExecutionLease

namespace PendingCounter

/-- The refusal test of `try_increment`. -/
def refuses (limit observed : Nat) : Bool := observed = 0xffff ∨ limit ≠ 0 ∧ limit ≤ observed

def next (count : Nat) : Nat := (count + 1) % 0x10000

/-- `increment`: `fetch_add`, then the ceiling check on the prior value. -/
def increment (count : Nat) : Except Assertion Nat :=
  if count = 0xffff then .error .pendingCeiling else .ok (next count)

/-- The load of `decrement` and its check. -/
def decrementCheck (count : Nat) : Except Assertion Unit :=
  if 0 < count then .ok () else .error .pendingUnderflow

/-- The `fetch_sub` of `decrement`. -/
def decrementSub (count : Nat) : Nat := if count = 0 then 0xffff else count - 1

end PendingCounter

/-- An active object is named by its address. -/
abbrev AoId := Nat

structure AoTraits where
  priorityClass : PriorityClass
  directEligible : Bool
  rtcBudgetNs : Nat

structure AoRegistry where
  slots : List (Option AoId)

namespace AoRegistry

def lookup (cfg : Config) (registry : AoRegistry) (target : TargetId) : Option AoId :=
  if target = kInvalidTarget ∨ cfg.kMaxAo < target.raw.toNat then none
  else (registry.slots[target.raw.toNat - 1]?).join

/-- A bound object has the priority already. -/
def prioTaken (logicalPrio : AoId → Nat) (registry : AoRegistry) (prio : Nat) : Bool :=
  registry.slots.any fun slot => slot.any fun ao => logicalPrio ao = prio

/-- `bind`: the lowest free slot; `none` is the rejection. -/
def bind (logicalPrio : AoId → Nat) (registry : AoRegistry) (ao : Option AoId) (prio : Nat) :
    Option AoRegistry := do
  let ao ← ao
  if prio = kInvalidPrio then none
  else if registry.prioTaken logicalPrio prio then none
  else
    let i ← registry.slots.findIdx? Option.isNone
    return ⟨registry.slots.set i (some ao)⟩

/-- `bind_at` -/
def bindAt (cfg : Config) (logicalPrio : AoId → Nat) (registry : AoRegistry) (target : TargetId)
    (ao : AoId) (prio : Nat) : Option AoRegistry :=
  if target = kInvalidTarget ∨ cfg.kMaxAo < target.raw.toNat ∨ prio = kInvalidPrio ∨
      prio ≠ logicalPrio ao ∨ (registry.slots[target.raw.toNat - 1]?).join.isSome then none
  else if registry.prioTaken logicalPrio prio then none
  else some ⟨registry.slots.set (target.raw.toNat - 1) (some ao)⟩

end AoRegistry

end Coact
