import Coact.Foundation.Tally
import Coact.Pipeline.Protocol
import Coact.Queue.Ring

/-! Run-to-completion exclusion: the execution lease of an AO counts the HSM
dispatches of that AO that are in progress, on every thread and at every nesting
depth. -/
namespace Coact
open Foundation

variable {d : Deployment} {B : Backend StagingSlot} {H : Type}

def Phase.runs (ao : AoId) : Phase d B → Nat
  | .running a => if a = ao then 1 else 0
  | _ => 0

def Custody.runs (ao : AoId) : Custody d B → Nat
  | .running b => if b.ao = ao then 1 else 0
  | _ => 0

/-- One if the lease of `ao` is in the given state. -/
def Shared.leased (sh : Shared B H) (ao : AoId) (state : AoRunState) : Nat :=
  if sh.lease ao = state then 1 else 0

structure Pipe.LeaseCounts (s : Pipe d B H) : Prop where
  direct : ∀ ao, tally (Phase.runs ao) s.phases = s.shared.leased ao .RunningDirect
  queued : ∀ ao, s.custody.runs ao = s.shared.leased ao .RunningDispatcher

@[simp] theorem leased_record (sh : Shared B H) (act : Act) (ao : AoId) (state : AoRunState) :
    (sh.record act).leased ao state = sh.leased ao state := rfl

@[simp] theorem leased_setAdmission (sh : Shared B H) (word : Nat) (ao : AoId)
    (state : AoRunState) : (sh.setAdmission word).leased ao state = sh.leased ao state := rfl

/-- A lease that moves from one state to another is counted in the second
instead of the first. -/
theorem leased_exchange {sh : Shared B H} {before : AoRunState}
    (held : sh.lease a = before) (after : AoRunState) (ao : AoId) (state : AoRunState) :
    (sh.setLease a after).leased ao state + (if a = ao ∧ before = state then 1 else 0) =
      sh.leased ao state + (if a = ao ∧ after = state then 1 else 0) := by
  simp only [Shared.leased, Shared.setLease_lease, Function.update_apply]
  by_cases same : ao = a
  · subst same
    simp [held, Nat.add_comm]
  · simp [same, Ne.symm same]

/-- A submission enters and leaves a direct dispatch exactly when the lease does. -/
theorem Moves.runs_direct (move : Moves d i sh ph sh' ph') (ao : AoId) :
    ph'.runs ao + sh.leased ao .RunningDirect = ph.runs ao + sh'.leased ao .RunningDirect := by
  cases move with
  | take a idle =>
    have exchanged := leased_exchange idle .RunningDirect ao .RunningDirect
    simp [Phase.runs] at exchanged ⊢
    omega
  | drop a held =>
    have exchanged := leased_exchange held .Idle ao .RunningDirect
    simp [Phase.runs] at exchanged ⊢
    omega
  | depart queued => cases queued <;> simp [Phase.runs]
  | _ => rfl

theorem Moves.runs_queued (move : Moves d i sh ph sh' ph') (ao : AoId) :
    sh'.leased ao .RunningDispatcher = sh.leased ao .RunningDispatcher := by
  cases move with
  | take _ idle =>
    have exchanged := leased_exchange idle .RunningDirect ao .RunningDispatcher
    simpa using exchanged
  | drop _ held =>
    have exchanged := leased_exchange held .Idle ao .RunningDispatcher
    simpa using exchanged
  | depart => simp
  | _ => rfl

theorem Serves.runs_queued (move : Serves d sh cu m sh' cu' m') (ao : AoId) :
    cu'.runs ao + sh.leased ao .RunningDispatcher =
      cu.runs ao + sh'.leased ao .RunningDispatcher := by
  cases move with
  | take b idle =>
    have exchanged := leased_exchange idle .RunningDispatcher ao .RunningDispatcher
    simp [Custody.runs] at exchanged ⊢
    omega
  | drop b held =>
    have exchanged := leased_exchange held .Idle ao .RunningDispatcher
    simp [Custody.runs] at exchanged ⊢
    omega
  | _ => rfl

theorem Serves.runs_direct (move : Serves d sh cu m sh' cu' m') (ao : AoId) :
    sh'.leased ao .RunningDirect = sh.leased ao .RunningDirect := by
  cases move with
  | take _ idle =>
    have exchanged := leased_exchange idle .RunningDispatcher ao .RunningDirect
    simpa using exchanged
  | drop _ held =>
    have exchanged := leased_exchange held .Idle ao .RunningDirect
    simpa using exchanged
  | _ => rfl

theorem Pipe.LeaseCounts.step (inv : s.LeaseCounts) (ran : Pipe.Step s t) : t.LeaseCounts := by
  cases ran with
  | enter => exact ⟨fun ao => by simpa [Phase.runs] using inv.direct ao, inv.queued⟩
  | submission i ph sh' ph' found move =>
    refine ⟨fun ao => ?_, fun ao => ?_⟩
    · have moved := move.runs_direct ao
      have total := tally_set (w := Phase.runs ao) found ph'
      have before := inv.direct ao
      dsimp only
      omega
    · exact (inv.queued ao).trans (move.runs_queued ao).symm
  | service sh' cu' m' move =>
    refine ⟨fun ao => (inv.direct ao).trans (move.runs_direct ao).symm, fun ao => ?_⟩
    have moved := move.runs_queued ao
    have before := inv.queued ao
    dsimp only
    omega
  | _ => exact ⟨inv.direct, inv.queued⟩

theorem Reachable.leaseCounts {hsm : AoId → H} (run : Reachable hsm s) : s.pipe.LeaseCounts :=
  run.pipe_invariant ⟨fun _ => rfl, fun _ => rfl⟩ Pipe.LeaseCounts.step

/-- `c` is executing the HSM of `ao`: a submission inside `dispatch_direct`, or
the Dispatcher inside `try_dispatch_queued`. -/
def Sys.Dispatching (s : Sys d B H) (ao : AoId) : Caller → Prop
  | .call i => ∃ f, s.calls[i]? = some (.run f) ∧ f.pc = .hsm ∧ f.ao = ao
  | .dispatcher => ∃ k b t0, s.disp = .hsm k b t0 ∧ b.ao = ao

section
variable {s : Sys d B H} {ao : AoId}

theorem Sys.Dispatching.call_runs (busy : s.Dispatching ao (.call i)) :
    ∃ ph, s.pipe.phases[i]? = some ph ∧ ph.runs ao = 1 := by
  obtain ⟨f, found, inside, rfl⟩ := busy
  refine ⟨f.phase i, by simp only [Sys.pipe, List.getElem?_mapIdx, found]; rfl, ?_⟩
  simp [Submit.Frame.phase, inside, Phase.runs]

theorem Sys.Dispatching.dispatcher_runs (busy : s.Dispatching ao .dispatcher) :
    s.pipe.custody.runs ao = 1 := by
  obtain ⟨k, b, t0, inside, rfl⟩ := busy
  simp [Sys.pipe, inside, Dispatch.Pc.custody, Custody.runs]

theorem Pipe.LeaseCounts.apart (inv : s.pipe.LeaseCounts)
    (direct : s.Dispatching ao (.call i)) (queued : s.Dispatching ao .dispatcher) : False := by
  obtain ⟨ph, found, runs⟩ := direct.call_runs
  have held := weight_le_tally (w := Phase.runs ao) (List.mem_of_getElem? found)
  rw [inv.direct ao, runs, Shared.leased] at held
  have also := inv.queued ao
  rw [queued.dispatcher_runs, Shared.leased] at also
  split at held
  · rename_i isDirect
    rw [isDirect] at also
    simp at also
  · omega

theorem Pipe.LeaseCounts.unique (inv : s.pipe.LeaseCounts)
    (first : s.Dispatching ao c) (second : s.Dispatching ao c') : c = c' := by
  cases c with
  | dispatcher =>
    cases c' with
    | dispatcher => rfl
    | call => exact (inv.apart second first).elim
  | call i =>
    cases c' with
    | dispatcher => exact (inv.apart first second).elim
    | call j =>
      obtain ⟨a, atI, left⟩ := first.call_runs
      obtain ⟨b, atJ, right⟩ := second.call_runs
      have bound : tally (Phase.runs ao) s.pipe.phases ≤ 1 := by
        rw [inv.direct ao, Shared.leased]
        split <;> omega
      rw [tally_unique bound atI atJ (by omega) (by omega)]

theorem Pipe.LeaseCounts.no_leaseRelease (inv : s.pipe.LeaseCounts) (label : Label H) :
    Sys.step label s ≠ .error (.assertion .leaseRelease) := by
  intro failed
  rcases Sys.step_fails failed with ⟨ph, mem, fails⟩ | fails
  · cases fails with
    | lease ao lost =>
      have held := weight_le_tally (w := Phase.runs ao) mem
      rw [inv.direct ao, Shared.leased, if_neg lost] at held
      simp [Phase.runs] at held
  · generalize custody : s.pipe.custody = cu at fails
    cases fails with
    | lease b lost =>
      have held := inv.queued b.ao
      rw [custody, Shared.leased, if_neg lost] at held
      simp [Custody.runs] at held

end

/-- In every interleaving, at any nesting depth: one HSM dispatch per AO at a
time; a lost acquisition changes nothing; no lease is released by a party that
does not hold it. -/
theorem exclusive_dispatch {hsm : AoId → H} {s : Sys d B H} (run : Reachable hsm s) :
    (∀ ao c c', s.Dispatching ao c → s.Dispatching ao c' → c = c') ∧
    (∀ i f o t, s.calls[i]? = some (.run f) → f.pc = .dispatchDirect →
      s.shared.lease f.ao ≠ .Idle → Sys.step (.call i o) s = .ok t → t.shared = s.shared) ∧
    (∀ k b o t, s.disp = .acquire k b → s.shared.lease b.ao ≠ .Idle →
      Sys.step (.dispatcher o) s = .ok t → t.shared = s.shared) ∧
    ∀ label, Sys.step label s ≠ .error (.assertion .leaseRelease) := by
  refine ⟨fun ao c c' => run.leaseCounts.unique, ?_, ?_, run.leaseCounts.no_leaseRelease⟩
  · intro i f o t found at_cas busy ran
    simp only [Sys.step, found] at ran
    split at ran
    · cases ran
    · obtain ⟨⟨sh, c⟩, moved, done⟩ := map_ok ran
      simp only [Call.step, Submit.Frame.step, at_cas, ExecutionLease.tryAcquire, busy,
        reduceCtorEq, if_false, Bool.false_eq_true] at moved
      cases moved
      cases done
      rfl
  · intro k b o t at_cas busy ran
    simp only [Sys.step] at ran
    split at ran
    · cases ran
    · obtain ⟨⟨sh, pc⟩, moved, done⟩ := map_ok ran
      simp only [at_cas, Dispatch.Pc.step, ExecutionLease.tryAcquire, busy,
        reduceCtorEq, if_false, Bool.false_eq_true] at moved
      cases moved
      cases done
      rfl

/-- An HSM action of AO 0 that submits to AO 0 again, up to its lease test. -/
def nestedSchedule : List (Label Nat) :=
  Label.submit { target := ⟨1⟩, event := 7 } :: List.replicate 6 (Label.call 0 {}) ++
    Label.submit { target := ⟨1⟩, event := 8, caller := some (.call 0) } ::
    List.replicate 4 (Label.call 1 {})

theorem exclusive_dispatch_nested :
    ∃ s : Sys singleAo (ringBackend StagingSlot) Nat, Reachable (fun _ => 0) s ∧
      s.Dispatching 0 (.call 0) ∧ ∀ c, s.Dispatching 0 c → c = .call 0 := by
  have run : Reachable (fun _ => 0)
      (runOf singleAo (ringBackend StagingSlot) (fun _ => 0) nestedSchedule) :=
    reachable_runOf (by decide +kernel)
  have busy : (runOf singleAo (ringBackend StagingSlot) (fun _ => 0) nestedSchedule).Dispatching 0
      (.call 0) := ⟨_, rfl, rfl, rfl⟩
  exact ⟨_, run, busy, fun c other => (exclusive_dispatch run).1 0 c _ other busy⟩

end Coact
