import Coact.Config

/-! Static admission (`admission.hpp`): the per-target limits generated from a
rule set and the arrival gate. Every gate operation runs inside one critical
section, so it is one access. -/
namespace Coact

structure TargetAdmission where
  target : TargetId
  minArrival : Nat
  maxBacklog : Nat

structure TargetLimits where
  minArrival : Nat
  maxBacklog : Nat

namespace StaticAdmission

/-- `limits_for` over the index that `build_index` fills row by row; a target
outside the index reads entry 0, which no row names. -/
def limitsFor (cfg : Config) (rows : List TargetAdmission) (target : TargetId) : TargetLimits :=
  let index : TargetLimits :=
    rows.foldl
      (fun limits row =>
        if row.target = target then ⟨row.minArrival, row.maxBacklog⟩ else limits)
      ⟨0, 0⟩
  if target.raw.toNat ≤ cfg.kMaxAo then index else ⟨0, 0⟩

def backlogCap (cfg : Config) (rows : List TargetAdmission) (target : TargetId) : Nat :=
  (limitsFor cfg rows target).maxBacklog

/-- `gate_for`: entry 0 serves the ids outside the table. -/
def gateFor (cfg : Config) (target : TargetId) : Nat :=
  if target.raw.toNat ≤ cfg.kMaxAo then target.raw.toNat else 0

end StaticAdmission

structure ArrivalGate where
  lastAdmitNs : Nat
  holdNs : Nat
  holds : Nat
  ever : Bool
  deriving DecidableEq, Repr

namespace ArrivalGate

def kMaxHolds : Nat := 0xFFFF

def initial : ArrivalGate := ⟨0, 0, 0, false⟩

def tryReserve (gate : ArrivalGate) (now minNs : Nat) : ArrivalGate × Bool :=
  let held := gate.holds ≠ 0
  let barrier := if held then gate.holdNs else gate.lastAdmitNs
  if minNs ≠ 0 ∧ (held ∨ gate.ever = true) ∧ (now < barrier ∨ now - barrier < minNs) then
    (gate, false)
  else if gate.holds = kMaxHolds then (gate, false)
  else ({ gate with holdNs := now, holds := gate.holds + 1 }, true)

theorem tryReserve_cases (gate : ArrivalGate) (now minNs : Nat) :
    gate.tryReserve now minNs = (gate, false) ∨
      gate.tryReserve now minNs = ({ gate with holdNs := now, holds := gate.holds + 1 }, true) := by
  simp only [tryReserve]
  generalize (if gate.holds ≠ 0 then gate.holdNs else gate.lastAdmitNs) = barrier
  split
  · exact .inl rfl
  · split
    · exact .inl rfl
    · exact .inr rfl

theorem tryReserve_taken {gate : ArrivalGate} {now minNs : Nat}
    (taken : (gate.tryReserve now minNs).2 = true) :
    (gate.tryReserve now minNs).1 = { gate with holdNs := now, holds := gate.holds + 1 } := by
  rcases gate.tryReserve_cases now minNs with refused | reserved
  · rw [refused] at taken
    cases taken
  · rw [reserved]

def releaseHold (gate : ArrivalGate) : ArrivalGate :=
  if gate.holds ≠ 0 then
    { gate with holds := gate.holds - 1, holdNs := if gate.holds - 1 = 0 then 0 else gate.holdNs }
  else gate

theorem releaseHold_holds (gate : ArrivalGate) : gate.releaseHold.holds = gate.holds - 1 := by
  unfold releaseHold
  split
  · rfl
  · omega

theorem releaseHold_holdNs {gate : ArrivalGate} (held : gate.releaseHold.holds ≠ 0) :
    gate.releaseHold.holdNs = gate.holdNs := by
  rw [releaseHold_holds] at held
  have holds : gate.holds ≠ 0 := by omega
  rw [releaseHold, if_pos holds]
  exact if_neg held

@[simp] theorem releaseHold_lastAdmitNs (gate : ArrivalGate) :
    gate.releaseHold.lastAdmitNs = gate.lastAdmitNs := by
  unfold releaseHold
  split <;> rfl

@[simp] theorem releaseHold_ever (gate : ArrivalGate) : gate.releaseHold.ever = gate.ever := by
  unfold releaseHold
  split <;> rfl

def commit (gate : ArrivalGate) (now : Nat) : ArrivalGate :=
  releaseHold { gate with ever := true, lastAdmitNs := max now gate.lastAdmitNs }

def rollback (gate : ArrivalGate) : ArrivalGate := releaseHold gate

end ArrivalGate

end Coact
