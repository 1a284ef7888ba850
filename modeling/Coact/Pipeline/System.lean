import Coact.Foundation.Transition
import Coact.Pipeline.Dispatcher

/-! The pipeline as one system: any number of submissions, nested or not, the
Dispatcher thread and any number of `request_stop` calls, interleaved access by
access. -/
namespace Coact
open Foundation

/-- `Dispatcher::request_stop`. -/
inductive Stopper where
  | close | store | signal | done
  deriving DecidableEq, Repr

variable {d : Deployment} {B : Backend StagingSlot} {H : Type}

def Stopper.step (sh : Shared B H) : Stopper → Except Halt (Shared B H × Stopper)
  | .close => .ok (sh.setAdmission (Staging.closeAdmission sh.admission), .store)
  | .store => .ok ({ sh with stop := true }, .signal)
  | .signal => .ok (sh.signal, .done)
  | .done => .error .disabled

structure Sys (d : Deployment) (B : Backend StagingSlot) (H : Type) where
  shared : Shared B H
  calls : List (Call d B)
  disp : Dispatch.Pc d B
  stoppers : List Stopper

inductive Label (H : Type) where
  | submit (args : Args)
  | call (i : Nat) (o : Oracle H)
  | dispatcher (o : Oracle H)
  | requestStop
  | stopper (i : Nat)
  | breaker (k : Nat) (input : Breaker.Input)

namespace Sys

def initial (d : Deployment) (B : Backend StagingSlot) (hsm : AoId → H) : Sys d B H where
  shared := Shared.initial B d hsm
  calls := []
  disp := .loopTop none
  stoppers := []

/-- The HSM dispatch `c` waits for a submission it issued. -/
def suspended (s : Sys d B H) (c : Caller) : Bool :=
  s.calls.any fun call => call.active && call.args.caller = some c

/-- `c` is inside its HSM dispatch, where it may submit. -/
def inHsm (s : Sys d B H) : Caller → Bool
  | .call i =>
    match s.calls[i]? with
    | some (.run f) => match f.pc with
      | .hsm => true
      | _ => false
    | _ => false
  | .dispatcher =>
    match s.disp with
    | .hsm _ _ _ => true
    | _ => false

def maySubmit (s : Sys d B H) : Option Caller → Bool
  | none => true
  | some c => s.inHsm c && !s.suspended c

def step : Label H → Sys d B H → Except Halt (Sys d B H)
  | .submit args, s =>
    if s.maySubmit args.caller then .ok { s with calls := s.calls ++ [Call.enter d B args] }
    else .error .disabled
  | .call i o, s =>
    match s.calls[i]? with
    | none => .error .disabled
    | some c =>
      if s.suspended (.call i) then .error .disabled
      else (c.step i s.shared o).map fun (sh, c') =>
        { s with shared := sh, calls := s.calls.set i c' }
  | .dispatcher o, s =>
    if s.suspended .dispatcher then .error .disabled
    else (s.disp.step s.shared o).map fun (sh, pc) => { s with shared := sh, disp := pc }
  | .requestStop, s => .ok { s with stoppers := s.stoppers ++ [.close] }
  | .stopper i, s =>
    match s.stoppers[i]? with
    | none => .error .disabled
    | some t => (t.step s.shared).map fun (sh, t') =>
        { s with shared := sh, stoppers := s.stoppers.set i t' }
  | .breaker k input, s =>
    .ok { s with shared := s.shared.onBreaker k (Breaker.apply d.cfg input) }

/-! What a step of each kind needs and does. -/

theorem step_submit {args : Args} (ran : step (.submit args) s = .ok t) :
    s.maySubmit args.caller = true ∧ { s with calls := s.calls ++ [Call.enter d B args] } = t := by
  simp only [step] at ran
  split at ran
  · exact ⟨‹_›, Except.ok.inj ran⟩
  · cases ran

theorem step_call (ran : step (.call i o) s = .ok t) : ∃ c sh c', s.calls[i]? = some c ∧
    s.suspended (.call i) = false ∧ c.step i s.shared o = .ok (sh, c') ∧
    { s with shared := sh, calls := s.calls.set i c' } = t := by
  simp only [step] at ran
  split at ran
  · cases ran
  · rename_i c found
    split at ran
    · cases ran
    · obtain ⟨⟨sh, c'⟩, moved, done⟩ := map_ok ran
      exact ⟨c, sh, c', found, Bool.eq_false_iff.mpr ‹_›, moved, done⟩

theorem step_dispatcher (ran : step (.dispatcher o) s = .ok t) : ∃ sh pc,
    s.suspended .dispatcher = false ∧ s.disp.step s.shared o = .ok (sh, pc) ∧
    { s with shared := sh, disp := pc } = t := by
  simp only [step] at ran
  split at ran
  · cases ran
  · obtain ⟨⟨sh, pc⟩, moved, done⟩ := map_ok ran
    exact ⟨sh, pc, Bool.eq_false_iff.mpr ‹_›, moved, done⟩

theorem step_stopper (ran : step (.stopper i) s = .ok t) : ∃ stopper sh stopper',
    s.stoppers[i]? = some stopper ∧ stopper.step s.shared = .ok (sh, stopper') ∧
    { s with shared := sh, stoppers := s.stoppers.set i stopper' } = t := by
  simp only [step] at ran
  split at ran
  · cases ran
  · obtain ⟨⟨sh, stopper'⟩, moved, done⟩ := map_ok ran
    exact ⟨_, sh, stopper', ‹_›, moved, done⟩

end Sys

/-- The states of every interleaving. -/
def Reachable (hsm : AoId → H) (s : Sys d B H) : Prop :=
  Reaches Sys.step Always (Sys.initial d B hsm) s

/-- The state a schedule ends in from the initial state. -/
def runOf (d : Deployment) (B : Backend StagingSlot) (hsm : AoId → H)
    (schedule : List (Label H)) : Sys d B H :=
  outcome Sys.step schedule (Sys.initial d B hsm)

theorem reachable_runOf {hsm : AoId → H} {schedule : List (Label H)}
    (done : (replay Sys.step schedule (Sys.initial d B hsm)).isSome) :
    Reachable hsm (runOf d B hsm schedule) := reaches_outcome done

/-- One direct-eligible Normal AO, bound to target 1 of the default
configuration, without policy or admission rules. -/
def singleAo : Deployment where
  cfg := DefaultConfig
  registry := ⟨[some 0]⟩
  ao _ := ⟨.Normal, true, 1000⟩
  rules := none
  policyOps := false
  breakerBank := true
  operands := [.count .High, .count .Normal, .count .Low, .aging]
  operands_all operand := by rcases operand with p | _ <;> first | cases p <;> simp | simp

end Coact
