import Coact.Foundation.Transition
import Coact.Staging

/-! `Staging` on its own: any number of concurrent `enqueue` calls with arbitrary
arguments, and one consumer that calls `begin_batch` and `dequeue_one`, one shared
access per step. Spurious compare-exchange failures are chosen by the label, and
the order in which `dequeue_one` evaluates the operands of `select` by the call. -/
namespace Coact.Staging
open Foundation Dispatch

/-- The arguments of `enqueue`. -/
structure Request where
  target : TargetId
  event : Nat
  cls : PriorityClass
  nowNs : Nat
  critical : Bool
  admission : StagingAdmission
  deriving DecidableEq, Repr

namespace Request
variable (cfg : Config) (r : Request)

def valid : Bool := admissionValid cfg r.cls r.admission

def claim : ReservationClaim := classifyClaim cfg r.cls r.critical r.admission

def limit : Nat := claimLimit cfg (r.claim cfg)

def part : Partition := partitionFromClass r.cls

def slot (sub : Nat) : StagingSlot :=
  ⟨r.target, r.claim cfg, r.event, r.nowNs % 2 ^ 32, sub⟩

/-- Ordinary traffic of its class. -/
def ordinary : Bool :=
  match r.cls with
  | .High => !r.critical
  | .Normal => r.admission = .Ordinary
  | .Low => true

end Request

/-- The data members `enqueue` and `dequeue_one` work on. -/
structure Stage (B : Backend StagingSlot) where
  queue : Partition → B.Q
  claims : ReservationClaim → Nat
  batchUsed : Nat
  nowNs : Option Nat

namespace Stage
variable {B : Backend StagingSlot}

def initial (B : Backend StagingSlot) (cfg : Config) : Stage B where
  queue p := B.empty (cfg.capacity p) (cfg.capacity_pos p)
  claims _ := 0
  batchUsed := 0
  nowNs := none

@[simps] def setQueue (s : Stage B) (p : Partition) (q : B.Q) : Stage B :=
  { s with queue := Function.update s.queue p q }

@[simps] def setClaims (s : Stage B) (claim : ReservationClaim) (count : Nat) : Stage B :=
  { s with claims := Function.update s.claims claim count }

/-- `++batch_used_`, a `uint8_t`. -/
@[simps] def draw (s : Stage B) : Stage B := { s with batchUsed := (s.batchUsed + 1) % 2 ^ 8 }

end Stage

/-- The shared accesses of `enqueue`. -/
inductive Enqueue (B : Backend StagingSlot) where
  | claimLoad
  | claimCas (observed : Nat)
  | push (p : B.Push)
  | releaseClaim

inductive Call (B : Backend StagingSlot) where
  | running (r : Request) (pc : Enqueue B)
  | returned (r : Request) (queued : Bool)

/-- The shared accesses of `dequeue_one`. -/
inductive Dequeue (B : Backend StagingSlot) where
  | ready (order : List Operand) (p : Partition) (r : B.Ready)
  | select (todo : List Operand) (ops : Operands)
  | count (todo : List Operand) (ops : Operands) (p : Partition) (r : B.Ready)
  | aging (todo : List Operand) (ops : Operands) (r : B.Front)
  | pop (p : Partition) (r : B.Pop)
  | releaseClaim (v : StagingSlot)

/-- An order of evaluation: every operand occurs. -/
abbrev Order := { todo : List Operand // ∀ operand, operand ∈ todo }

theorem mem_inOrder :
    ∀ operand, operand ∈ [.count .High, .count .Normal, .count .Low, Operand.aging] := by
  rintro (⟨⟨⟩⟩ | _) <;> simp

/-- The operands in the order they are written. -/
def inOrder : Order := ⟨[.count .High, .count .Normal, .count .Low, .aging], mem_inOrder⟩

/-- `served` is a ghost: what `dequeue_one` has returned so far. -/
structure World (B : Backend StagingSlot) where
  stage : Stage B
  calls : List (Call B)
  dequeue : Option (Dequeue B)
  served : List StagingSlot

inductive Label where
  | enqueue (r : Request)
  | call (i : Nat) (spurious : Bool)
  | beginBatch
  | dequeueOne (nowNs : Nat) (order : Order)
  | consumer

variable {B : Backend StagingSlot} {cfg : Config}

def Call.request : Call B → Request
  | .running r _ | .returned r _ => r

def Call.result : Call B → Option Bool
  | .running _ _ => none
  | .returned _ queued => some queued

/-- The tests of `enqueue` before its first shared access. -/
def Call.enter (B : Backend StagingSlot) (cfg : Config) (r : Request) : Call B :=
  if r.valid cfg then .running r (if r.claim cfg = .None then .push B.tryPush else .claimLoad)
  else .returned r false

/-- One access of call `i` of `enqueue`. -/
def Enqueue.step (cfg : Config) (r : Request) (i : Nat) (spurious : Bool) (s : Stage B) :
    Enqueue B → Except Halt (Stage B × Call B)
  | .claimLoad => .ok (s, .running r (.claimCas (s.claims (r.claim cfg))))
  | .claimCas observed =>
    if r.limit cfg ≤ observed then .ok (s, .returned r false)
    else if s.claims (r.claim cfg) = observed ∧ spurious = false then
      .ok (s.setClaims (r.claim cfg) (observed + 1), .running r (.push B.tryPush))
    else .ok (s, .running r (.claimCas (s.claims (r.claim cfg))))
  | .push p =>
    match B.pushStep (r.slot cfg i) (s.queue r.part) p with
    | (q, .inl p') => .ok (s.setQueue r.part q, .running r (.push p'))
    | (q, .inr true) => .ok (s.setQueue r.part q, .returned r true)
    | (q, .inr false) =>
      .ok (s.setQueue r.part q,
        if r.claim cfg = .None then .returned r false else .running r .releaseClaim)
  | .releaseClaim =>
    asserted (releaseClaimCounter (s.claims (r.claim cfg))) fun count =>
      (s.setClaims (r.claim cfg) count, .returned r false)

/-- The result of a step of the consumer: `dequeue_one` goes on or has returned. -/
abbrev Outcome (B : Backend StagingSlot) := Dequeue B ⊕ Option StagingSlot

/-- One access of `dequeue_one`. -/
def Dequeue.step (cfg : Config) (s : Stage B) : Dequeue B → Except Halt (Stage B × Outcome B)
  | .ready order p r =>
    match B.readyStep (s.queue p) r with
    | .inl r' => .ok (s, .inl (.ready order p r'))
    | .inr true => .ok (s, .inl (.select order {}))
    | .inr false =>
      match next p with
      | some p' => .ok (s, .inl (.ready order p' B.hasReady))
      | none => .ok (s, .inr none)
  | .select todo ops =>
    match todo with
    | .count p :: rest => .ok (s, .inl (.count rest ops p B.hasReady))
    | .aging :: rest => .ok (s, .inl (.aging rest ops B.front))
    | [] =>
      match Staging.select ops.high ops.normal ops.low ops.aged s.batchUsed cfg.kBatchSizeMax with
      | some p => .ok (s, .inl (.pop p B.tryPop))
      | none => .ok (s, .inr none)
  | .count todo ops p r =>
    match B.readyStep (s.queue p) r with
    | .inl r' => .ok (s, .inl (.count todo ops p r'))
    | .inr b => .ok (s, .inl (.select todo (ops.setCount p b)))
  | .aging todo ops r =>
    match B.frontStep (s.queue .Low) r with
    | .inl r' => .ok (s, .inl (.aging todo ops r'))
    | .inr head =>
      .ok (s, .inl (.select todo { ops with
        aged := match s.nowNs, head with
          | some now, some v => Staging.aged cfg now v.enqueueNs
          | _, _ => false }))
  | .pop p r =>
    match B.popStep (s.queue p) r with
    | (q, .inl r') => .ok (s.setQueue p q, .inl (.pop p r'))
    | (q, .inr none) => .ok (s.setQueue p q, .inr none)
    | (q, .inr (some v)) => .ok (s.setQueue p q, .inl (.releaseClaim v))
  | .releaseClaim v =>
    if v.claim = .None then .ok (s.draw, .inr (some v))
    else asserted (releaseClaimCounter (s.claims v.claim)) fun count =>
      ((s.setClaims v.claim count).draw, .inr (some v))

/-- The slot `dequeue_one` returns with an access, if any. -/
def returnedSlot : Outcome B → List StagingSlot
  | .inl _ => []
  | .inr out => out.toList

namespace World

def initial (B : Backend StagingSlot) (cfg : Config) : World B where
  stage := Stage.initial B cfg
  calls := []
  dequeue := none
  served := []

def called (w : World B) (i : Nat) (out : Stage B × Call B) : World B :=
  { w with stage := out.1, calls := w.calls.set i out.2 }

def consumed (w : World B) (out : Stage B × Outcome B) : World B :=
  { w with stage := out.1, dequeue := out.2.getLeft?, served := w.served ++ returnedSlot out.2 }

def step (cfg : Config) : Label → World B → Except Halt (World B)
  | .enqueue r, w => .ok { w with calls := w.calls ++ [Call.enter B cfg r] }
  | .call i spurious, w =>
    match w.calls[i]? with
    | some (.running r pc) => (pc.step cfg r i spurious w.stage).map (w.called i)
    | _ => .error .disabled
  | .beginBatch, w =>
    match w.dequeue with
    | none => .ok { w with stage := { w.stage with batchUsed := 0 } }
    | some _ => .error .disabled
  | .dequeueOne nowNs order, w =>
    match w.dequeue with
    | none => .ok { w with
        stage := { w.stage with nowNs := some nowNs }
        dequeue := some (.ready order.1 .High B.hasReady) }
    | some _ => .error .disabled
  | .consumer, w =>
    match w.dequeue with
    | some pc => (pc.step cfg w.stage).map w.consumed
    | none => .error .disabled

def Reachable (cfg : Config) (w : World B) : Prop :=
  Reaches (step cfg) Always (initial B cfg) w

end World

end Coact.Staging
