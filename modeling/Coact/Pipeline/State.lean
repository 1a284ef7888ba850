import Coact.Admission
import Coact.Breaker
import Coact.Staging

/-! What the submit path, the Dispatcher and `request_stop` share, and the
compile-time choices of a deployment. The registry is frozen, so `lookup` is a
function; AO, HSM context and application callbacks are arbitrary. The clock,
policy verdicts, spurious compare-exchange failures, HSM progress and timeouts
are chosen by an `Oracle` at every step. -/
namespace Coact
open Function

structure Deployment where
  cfg : Config
  registry : AoRegistry
  ao : AoId → AoTraits
  /-- `none` is `NoAdmission`. -/
  rules : Option (List TargetAdmission)
  policyOps : Bool
  breakerBank : Bool
  operands : List Operand
  operands_all : ∀ operand, operand ∈ operands

namespace Deployment
variable (d : Deployment)

def lookup (target : TargetId) : Option AoId := d.registry.lookup d.cfg target

def minArrival (target : TargetId) : Nat :=
  match d.rules with
  | none => 0
  | some rows => (StaticAdmission.limitsFor d.cfg rows target).minArrival

def backlogCap (target : TargetId) : Nat :=
  match d.rules with
  | none => 0
  | some rows => StaticAdmission.backlogCap d.cfg rows target

def gateFor (target : TargetId) : Nat := StaticAdmission.gateFor d.cfg target

/-- `target_breaker`: one shared breaker, or one per target. -/
def targetBreaker (target : TargetId) : Nat :=
  if d.breakerBank then target.raw.toNat - 1 else 0

/-- How many breakers `breaker_idle_cycle` visits. -/
def breakerCount : Nat := if d.breakerBank then d.cfg.kMaxAo else 1

def partition (ao : AoId) : Partition := partitionFromClass (d.ao ao).priorityClass

end Deployment

/-- A slot whose target the registry resolved to `ao`. -/
structure BoundSlot (d : Deployment) where
  slot : StagingSlot
  ao : AoId
  bound : d.lookup slot.target = some ao

structure Oracle (H : Type) where
  clock : Nat := 0
  accept : Bool := true
  reason : Nat := 0
  spurious : Bool := false
  /-- The next HSM and context state, or `none` when the dispatch ends. -/
  hsm : Option H := none
  timeout : Bool := false

inductive Party where
  | call | dispatcher
  deriving DecidableEq, Repr

/-- Ghost record of what happens to the reference of each submission. `read`
stands for any access through the event pointer. -/
inductive Act where
  | read (sub : Nat)
  | handed (party : Party) (ao : AoId) (sub : Nat)
  | published (ao : AoId) (sub : Nat)
  | dequeued (sub : Nat)
  | dropped (ao : AoId) (sub : Nat)
  | released (party : Party) (sub : Nat)
  deriving DecidableEq, Repr

structure Shared (B : Backend StagingSlot) (H : Type) where
  queue : Partition → B.Q
  wakePending : Bool
  admission : Nat
  claims : ReservationClaim → Nat
  batchUsed : Nat
  nowNs : Option Nat
  stop : Bool
  token : Bool
  lease : AoId → AoRunState
  pending : AoId → Nat
  hsm : AoId → H
  breaker : Nat → Breaker.State
  gate : Nat → ArrivalGate
  log : List Act

namespace Shared
variable {B : Backend StagingSlot} {H : Type}

def initial (B : Backend StagingSlot) (d : Deployment) (hsm : AoId → H) : Shared B H where
  queue p := B.empty (d.cfg.capacity p) (d.cfg.capacity_pos p)
  wakePending := true
  admission := 0
  claims _ := 0
  batchUsed := 0
  nowNs := none
  stop := false
  token := false
  lease _ := .Idle
  pending _ := 0
  hsm := hsm
  breaker _ := Breaker.initial
  gate _ := ArrivalGate.initial
  log := []

@[simps] def setQueue (sh : Shared B H) (p : Partition) (q : B.Q) : Shared B H :=
  { sh with queue := update sh.queue p q }

@[simps] def setLease (sh : Shared B H) (ao : AoId) (state : AoRunState) : Shared B H :=
  { sh with lease := update sh.lease ao state }

@[simps] def setPending (sh : Shared B H) (ao : AoId) (count : Nat) : Shared B H :=
  { sh with pending := update sh.pending ao count }

@[simps] def setHsm (sh : Shared B H) (ao : AoId) (state : H) : Shared B H :=
  { sh with hsm := update sh.hsm ao state }

@[simps] def setClaims (sh : Shared B H) (claim : ReservationClaim) (count : Nat) : Shared B H :=
  { sh with claims := update sh.claims claim count }

@[simps] def onBreaker (sh : Shared B H) (k : Nat) (update : Breaker.State → Breaker.State) :
    Shared B H :=
  { sh with breaker := Function.update sh.breaker k (update (sh.breaker k)) }

@[simps] def onGate (sh : Shared B H) (k : Nat) (gate : ArrivalGate) : Shared B H :=
  { sh with gate := update sh.gate k gate }

@[simps] def setAdmission (sh : Shared B H) (word : Nat) : Shared B H :=
  { sh with admission := word }

/-- `signal_dispatcher_from_task` and `_from_isr`: the sticky PAL token. -/
@[simps] def signal (sh : Shared B H) : Shared B H := { sh with token := true }

/-- The exchange of `request_dispatcher_wake`. -/
@[simps] def latch (sh : Shared B H) : Shared B H := { sh with wakePending := true }

/-- The exchange of `arm_dispatcher_wait`. -/
@[simps] def arm (sh : Shared B H) : Shared B H := { sh with wakePending := false }

@[simps] def record (sh : Shared B H) (act : Act) : Shared B H := { sh with log := sh.log ++ [act] }

end Shared

end Coact
