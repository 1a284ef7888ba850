import Coact.Pipeline.Gate
import Coact.Pipeline.Pending

/-! Shutdown. The admission word counts the submissions inside, a stop closes it
before the Dispatcher can see the stop flag, and the exit test of the drain reads
the three queue sizes and then the lease count, one after the other. The drain
leaves nothing behind unless the last lease is given up during that test by a
producer whose slot the test has already passed. -/
namespace Coact
open Dispatch Foundation

variable {d : Deployment} {B : Backend StagingSlot} {H : Type}

/-- The exit test under way would, left to itself, find the queues empty. -/
def Mode.clear (L : B.Lawful) (queue : Partition → B.Q) : Mode B → Prop
  | .checking p r => L.counts (queue p) r = 0 ∧ ∀ p', rank p < rank p' →
      L.counts (queue p') B.size = 0
  | .checkingIdle => True
  | _ => False

/-- The exit test of the drain and what follows it. -/
def Mode.exiting : Mode B → Prop
  | .checking _ _ | .checkingIdle | .returned => True
  | _ => False

theorem Mode.dequeues.not_exiting {m : Mode B} (dequeues : m.dequeues) : ¬ m.exiting := by
  rcases dequeues with rfl | rfl <;> exact id

/-- What the drain has established. -/
structure Pipe.Drained (L : B.Lawful) (s : Pipe d B H) : Prop where
  pending : s.PendingOk L
  unburdened : s.Unburdened
  gate : ∃ shut, s.Gate shut
  exit : tally Phase.leased s.phases = 0 → s.mode.clear L s.shared.queue → s.shared.staged L = 0
  returned : s.mode = .returned →
    tally Phase.leased s.phases = 0 ∧ s.shared.staged L = 0

section
variable {L : B.Lawful} {s t : Pipe d B H} {i : Nat} {ph ph' : Phase d B} {sh sh' : Shared B H}

theorem Shared.staged_of_queue (same : sh'.queue = sh.queue) : sh'.staged L = sh.staged L := by
  rw [Shared.staged, Shared.staged, same]

theorem Moves.queue_outside (move : Moves d i sh ph sh' ph') (outside : ph'.leased = 0) :
    sh'.queue = sh.queue := by
  cases move <;> first | rfl | cases outside

theorem Moves.stays_outside (move : Moves d i sh ph sh' ph')
    (refuses : Staging.acquireRefused sh.admission = true) (outside : ph.leased = 0) :
    ph'.leased = 0 := by
  cases move with
  | acquire allowed => cases refuses.symm.trans allowed
  | depart => rfl
  | quiet => exact outside
  | refuse | signalLast => rfl
  | _ => cases outside

/-- The step does not give up the last lease behind the back of the exit test. -/
def Pipe.Orderly (L : B.Lawful) (s t : Pipe d B H) : Prop :=
  tally Phase.leased s.phases ≠ 0 → tally Phase.leased t.phases = 0 →
    s.mode.clear L s.shared.queue → s.shared.staged L = 0

theorem Moves.drained (inv : s.Drained L) (found : s.phases[i]? = some ph)
    (move : Moves d i s.shared ph sh' ph')
    (orderly : s.Orderly L { s with shared := sh', phases := s.phases.set i ph' }) :
    Pipe.Drained L { s with shared := sh', phases := s.phases.set i ph' } := by
  obtain ⟨shut, gate⟩ := inv.gate
  have exchanged := tally_set (w := Phase.leased) found ph'
  have own := weight_le_tally (w := Phase.leased) (List.mem_of_getElem? found)
  refine ⟨inv.pending.step (.submission s i ph sh' ph' found move), inv.unburdened,
    ⟨shut, gate.submission found move⟩, ?_, ?_⟩
  · intro none clear
    have mem := List.mem_of_getElem? (getElem?_set_found found ph')
    have outside : ph'.leased = 0 :=
      Nat.le_zero.mp ((weight_le_tally (w := Phase.leased) mem).trans none.le)
    have same := move.queue_outside outside
    rw [same] at clear
    rw [Shared.staged_of_queue same]
    by_cases before : tally Phase.leased s.phases = 0
    · exact inv.exit before clear
    · exact orderly before none clear
  · intro returned
    obtain ⟨none, empty⟩ := inv.returned returned
    obtain rfl : shut = true := gate.stopping (returned ▸ trivial)
    have outside := move.stays_outside gate.refuses (by omega)
    dsimp only
    rw [Shared.staged_of_queue (move.queue_outside outside)]
    exact ⟨by omega, empty⟩

/-- The queue sizes still to be read, once partition `p` has been read as empty. -/
theorem clear_next {queue : Partition → B.Q}
    (zero : B.sizeStep (queue p) r = .inr 0) (follows : next p = some p')
    (clear : (Mode.checking p' B.size).clear L queue) : (Mode.checking p r).clear L queue := by
  refine ⟨(L.counts_done zero).symm, fun p₂ later => ?_⟩
  have place := rank_next follows
  by_cases here : p₂ = p'
  · exact here ▸ clear.1
  · refine clear.2 p₂ (lt_of_le_of_ne (by omega) fun same => here ?_)
    cases p₂ <;> cases p' <;> first | rfl | cases same

theorem Serves.drained (inv : s.Drained L) (move : Serves d s.shared s.custody s.mode sh' cu' m') :
    Pipe.Drained L { s with shared := sh', custody := cu', mode := m' } := by
  obtain ⟨shut, gate⟩ := inv.gate
  suffices established :
      (tally Phase.leased s.phases = 0 → m'.clear L sh'.queue → sh'.staged L = 0) ∧
      (m' = .returned → tally Phase.leased s.phases = 0 ∧ sh'.staged L = 0) from
    ⟨inv.pending.step (.service s sh' cu' m' move), move.unburdened inv.unburdened,
      ⟨shut, gate.service move⟩, established.1, established.2⟩
  have idle : Staging.submissionsIdle s.shared.admission = true →
      tally Phase.leased s.phases = 0 := by
    rw [Staging.submissionsIdle, gate.leaseCount]
    exact of_decide_eq_true
  obtain ⟨⟨queues, -, -⟩, unburdened, -, exit, returned⟩ := inv
  obtain ⟨sh, phases, cu, m, stoppers⟩ := s
  dsimp only at *
  have elsewhere {m : Mode B} {sh : Shared B H} (away : ¬ m.exiting) :
      (tally Phase.leased phases = 0 → m.clear L sh.queue → sh.staged L = 0) ∧
      (m = .returned → tally Phase.leased phases = 0 ∧ sh.staged L = 0) := by
    refine ⟨fun _ clear => ?_, fun returned => (away (returned ▸ trivial)).elim⟩
    cases m <;> first | exact clear.elim | exact (away trivial).elim
  have popping {p : Partition} {r : B.Pop} (held : cu = .popping p r) : m.dequeues :=
    unburdened.resolve_right fun free => by cases held.symm.trans free
  cases move with
  | quiet => exact ⟨exit, returned⟩
  | popStart _ _ dequeues | release _ _ _ _ dequeues | releaseUnbound _ _ _ _ dequeues
  | wait _ _ dequeues => exact elsewhere dequeues.not_exiting
  | popNext | popNone | popSome => exact elsewhere (popping rfl).not_exiting
  | check =>
    refine ⟨fun _ clear => ?_, fun never => by cases never⟩
    have empty (p : Partition) (zero : L.counts (sh'.queue p) B.size = 0) :
        L.resident (sh'.queue p) = 0 := L.counts_start (queues p) zero
    rw [Shared.staged, empty .High clear.1, empty .Normal (clear.2 .Normal (by decide)),
      empty .Low (clear.2 .Low (by decide))]
    rfl
  | checkNext _ _ _ ran =>
    refine ⟨fun none clear => exit none ⟨?_, clear.2⟩, fun never => by cases never⟩
    exact (L.counts_next ran).symm.trans clear.1
  | checkZero _ _ _ zero follows =>
    exact ⟨fun none clear => exit none (clear_next zero follows clear), fun never => by cases never⟩
  | checkLast _ _ zero last =>
    refine ⟨fun none _ => exit none ⟨(L.counts_done zero).symm, fun p' later => ?_⟩,
      fun never => by cases never⟩
    exact absurd later (not_lt.mpr (rank_last last))
  | idle empty =>
    exact ⟨fun none _ => exit none trivial, fun _ => ⟨idle empty, exit (idle empty) trivial⟩⟩
  | _ => exact elsewhere id

theorem Pipe.Drained.step (inv : s.Drained L) (ran : Pipe.Step s t)
    (orderly : s.Orderly L t) : t.Drained L := by
  obtain ⟨shut, gate⟩ := inv.gate
  obtain ⟨shut', gate', -⟩ := gate.step ran
  have pending := inv.pending.step ran
  cases ran with
  | submission _ _ _ _ found move => exact move.drained inv found orderly
  | service _ _ _ move => exact move.drained inv
  | enter =>
    refine ⟨pending, inv.unburdened, ⟨shut', gate'⟩, ?_, ?_⟩ <;>
      simp [tally_append, tally_cons, tally_nil, Phase.leased]
    · exact inv.exit
    · exact inv.returned
  | _ => exact ⟨pending, inv.unburdened, ⟨shut', gate'⟩, inv.exit, inv.returned⟩

end

theorem Pipe.gate_initial (hsm : AoId → H) : (Pipe.initial d B hsm).Gate false where
  word := rfl
  small := Nat.two_pow_pos 31
  stores _ never := by cases never
  stopped never := by cases never
  stopping never := never.elim

theorem Pipe.drained_initial (L : B.Lawful) (hsm : AoId → H) :
    (Pipe.initial d B hsm).Drained L where
  pending := Pipe.pendingOk_initial L hsm
  unburdened := .inl (.inl rfl)
  gate := ⟨false, Pipe.gate_initial hsm⟩
  exit _ never := never.elim
  returned never := by cases never

/-- The exit test of the drain, left to itself from here on, finds nothing
although a slot is resident. -/
def Sys.Overlooks (L : B.Lawful) (s : Sys d B H) : Prop :=
  s.disp.mode.clear L s.shared.queue ∧ s.shared.staged L ≠ 0

/-- The step gives up the last submission lease. -/
def Sys.releasesLast (label : Label H) (s : Sys d B H) : Bool :=
  match Sys.step label s with
  | .ok t => Staging.leaseCount s.shared.admission ≠ 0 ∧ Staging.leaseCount t.shared.admission = 0
  | .error _ => false

/-- No producer gives up the last lease while the exit test overlooks a slot. -/
def Sys.ExitUndisturbed (L : B.Lawful) (label : Label H) (s : Sys d B H) : Prop :=
  s.releasesLast label = true → ¬ s.Overlooks L

variable {hsm : AoId → H} {s : Sys d B H} {L : B.Lawful}

theorem reaches_drained (run : Reaches Sys.step (Sys.ExitUndisturbed L) (Sys.initial d B hsm) s) :
    s.pipe.Drained L := by
  refine Reaches.invariant (P := fun s => s.pipe.Drained L) run
    (Pipe.drained_initial L hsm) fun label s t inv undisturbed ran => ?_
  have moved := Sys.step_pipe ran
  refine inv.step moved fun some_lease no_lease clear => ?_
  obtain ⟨shut, gate⟩ := inv.gate
  obtain ⟨shut', gate', -⟩ := gate.step moved
  have releases : s.releasesLast label = true := by
    rw [Sys.releasesLast, ran]
    exact decide_eq_true ⟨gate.leaseCount.trans_ne some_lease, gate'.leaseCount.trans no_lease⟩
  by_contra resident
  exact undisturbed releases ⟨clear, resident⟩

/-- When `run()` has returned nothing is left behind, in every run whose drain is
not disturbed. -/
theorem shutdown_complete (k : QueueBackend) {hsm : AoId → H} {s : Sys d (k.impl StagingSlot) H}
    (run : Reaches Sys.step (Sys.ExitUndisturbed (k.laws StagingSlot))
      (Sys.initial d (k.impl StagingSlot) hsm) s) (returned : s.disp = .returned) :
    (∀ p, (k.laws StagingSlot).resident (s.shared.queue p) = 0) ∧
      Staging.leaseCount s.shared.admission = 0 ∧ ∀ ao, s.shared.pending ao = 0 := by
  have inv := reaches_drained run
  have gone : s.pipe.mode = .returned := congrArg Dispatch.Pc.mode returned
  have hand : s.pipe.custody = .free := congrArg Dispatch.Pc.custody returned
  obtain ⟨no_lease, empty⟩ := inv.returned gone
  obtain ⟨shut, gate⟩ := inv.gate
  refine ⟨fun p => ?_, gate.leaseCount.trans no_lease, fun ao => ?_⟩
  · refine Multiset.eq_zero_of_forall_notMem fun v mem => ?_
    have staged : v ∈ s.pipe.shared.staged (k.laws StagingSlot) := mem_staged.mpr ⟨p, mem⟩
    rw [empty] at staged
    exact Multiset.notMem_zero v staged
  · have balance := inv.pending.balance ao
    have none_queued : s.pipe.shared.queued (k.laws StagingSlot) d ao = 0 := by
      rw [Shared.queued, empty]
      rfl
    have none_counted : tally (Phase.counts ao) s.pipe.phases = 0 := by
      refine tally_zero fun ph mem => ?_
      have outside := weight_le_tally (w := Phase.leased) mem
      rw [no_lease] at outside
      cases ph <;> first | rfl | cases outside
    rw [hand, none_queued, none_counted] at balance
    exact balance

/-- The step is not a release of the last lease during the exit test. -/
def Sys.outsideExit (label : Label H) (s : Sys d B H) : Bool :=
  !s.releasesLast label ||
    match s.disp.mode with
    | .checking _ _ | .checkingIdle => false
    | _ => true

theorem Sys.outsideExit_undisturbed (L : B.Lawful) (label : Label H) (s : Sys d B H)
    (outside : s.outsideExit label = true) : s.ExitUndisturbed L label := by
  rintro releases ⟨clear, -⟩
  rw [Sys.outsideExit, releases] at outside
  cases mode : s.disp.mode <;> rw [mode] at outside clear <;>
    first | exact clear.elim | cases outside

/-- An ISR submission queues its event and returns, then the runtime stops. -/
def stopAfterQueued : List (Label Nat) :=
  Label.submit { target := ⟨1⟩, event := 7, fromIsr := true } ::
    List.replicate 9 (Label.call 0 {}) ++
    Label.requestStop :: List.replicate 3 (Label.stopper 0) ++
    List.replicate 28 (Label.dispatcher {})

def stoppedState : Sys singleAo (QueueBackend.SingleCoreCriticalRing.impl StagingSlot) Nat :=
  runOf singleAo _ (fun _ => 0) stopAfterQueued

theorem shutdown_complete_queued :
    stoppedState.disp = .returned ∧ stoppedState.shared.log.length = 4 ∧
      ∀ ao, stoppedState.shared.pending ao = 0 := by
  have outside : passes Sys.outsideExit Sys.step stopAfterQueued (Sys.initial singleAo
      (QueueBackend.SingleCoreCriticalRing.impl StagingSlot) fun _ => 0) = true := by
    decide +kernel
  have run := reaches_passes (Sys.outsideExit_undisturbed
    (QueueBackend.SingleCoreCriticalRing.laws StagingSlot)) outside
  have returned : stoppedState.disp = .returned := by rfl
  exact ⟨returned, by decide +kernel, (shutdown_complete .SingleCoreCriticalRing run returned).2.2⟩

/-- An admitted ISR submission publishes its slot and gives up its lease between
the last size the exit test reads and its look at the lease count. -/
def stopBesideProducer : List (Label Nat) :=
  Label.submit { target := ⟨1⟩, event := 7, fromIsr := true } ::
    List.replicate 3 (Label.call 0 {}) ++
    Label.requestStop :: List.replicate 3 (Label.stopper 0) ++
    List.replicate 5 (Label.dispatcher {}) ++
    List.replicate 6 (Label.call 0 {}) ++ [Label.dispatcher {}]

def leftBehindState : Sys singleAo (QueueBackend.SingleCoreCriticalRing.impl StagingSlot) Nat :=
  runOf singleAo _ (fun _ => 0) stopBesideProducer

theorem shutdown_leaves_slot :
    Reachable (fun _ => 0) leftBehindState ∧ leftBehindState.disp = .returned ∧
      ((QueueBackend.SingleCoreCriticalRing.laws StagingSlot).resident
        (leftBehindState.shared.queue .Normal)).card = 1 ∧
      leftBehindState.shared.pending 0 = 1 :=
  ⟨reachable_runOf (by decide +kernel), by rfl, by decide +kernel, by decide +kernel⟩

section
variable {L : B.Lawful} {s t : Pipe d B H} {left : Multiset StagingSlot}

/-- Everybody is outside the closed gate and the exit test is past the slots. -/
structure Pipe.Lost (L : B.Lawful) (s : Pipe d B H) (left : Multiset StagingSlot) : Prop where
  gate : s.Gate true
  none : tally Phase.leased s.phases = 0
  free : s.custody = .free
  passed : s.mode = .returned ∨ s.mode.clear L s.shared.queue
  staged : s.shared.staged L = left

theorem Serves.lost (lost : s.Lost L left) (move : Serves d s.shared s.custody s.mode sh' cu' m') :
    Pipe.Lost L { s with shared := sh', custody := cu', mode := m' } left := by
  have gate := lost.gate.service move
  have no_lease := lost.gate.leaseCount.trans lost.none
  obtain ⟨-, none, free, passed, staged⟩ := lost
  obtain ⟨sh, phases, cu, m, stoppers⟩ := s
  have gone {m : Mode B} (dequeues : m.dequeues) (passed : m = .returned ∨ m.clear L sh.queue) :
      False := by
    rcases dequeues with rfl | rfl <;> rcases passed with never | never <;> cases never
  cases move with
  | quiet => exact ⟨gate, none, free, passed, staged⟩
  | popStart _ _ dequeues | release _ _ _ _ dequeues | releaseUnbound _ _ _ _ dequeues
  | wait _ _ dequeues => exact (gone dequeues passed).elim
  | popNext | popNone | popSome => cases free
  | checkNext _ _ _ ran =>
    rcases passed with never | clear
    · cases never
    · exact ⟨gate, none, rfl, .inr ⟨(L.counts_next ran).trans clear.1, clear.2⟩, staged⟩
  | checkSome _ _ _ _ _ found =>
    rcases passed with never | clear
    · cases never
    · cases (L.counts_done found).trans clear.1
  | checkZero p r p' zero follows =>
    rcases passed with never | clear
    · cases never
    · refine ⟨gate, none, rfl, .inr ⟨clear.2 p' ?_, fun p₂ later => clear.2 p₂ ?_⟩, staged⟩ <;>
        have place := rank_next follows <;> omega
  | checkLast => exact ⟨gate, none, rfl, .inr trivial, staged⟩
  | idle => exact ⟨gate, none, rfl, .inl rfl, staged⟩
  | busy _ _ some_lease =>
    rw [Staging.submissionsIdle, no_lease] at some_lease
    cases some_lease
  | _ => rcases passed with never | never <;> cases never

theorem Pipe.Lost.step (lost : s.Lost L left) (ran : Pipe.Step s t) : t.Lost L left := by
  obtain ⟨shut, gate, stays⟩ := lost.gate.step ran
  obtain rfl : shut = true := stays rfl
  cases ran with
  | submission i ph sh' ph' found move =>
    have own := weight_le_tally (w := Phase.leased) (List.mem_of_getElem? found)
    have exchanged := tally_set (w := Phase.leased) found ph'
    have none := lost.none
    have outside := move.stays_outside lost.gate.refuses (by omega)
    have same := move.queue_outside outside
    refine ⟨gate, by dsimp only; omega, lost.free, ?_, ?_⟩ <;> dsimp only
    · rw [same]
      exact lost.passed
    · rw [Shared.staged_of_queue same]
      exact lost.staged
  | service _ _ _ move => exact move.lost lost
  | enter =>
    refine ⟨gate, ?_, lost.free, lost.passed, lost.staged⟩
    simp only [tally_append, tally_cons, tally_nil, Phase.leased, Nat.add_zero]
    exact lost.none
  | _ => exact ⟨gate, lost.none, lost.free, lost.passed, lost.staged⟩

end

/-- Giving up the last lease behind the exit test loses the slots it overlooks. -/
theorem Pipe.Gate.lost {s t : Pipe d B H} {shut : Bool} (gate : s.Gate shut)
    (unburdened : s.Unburdened) (clear : s.mode.clear L s.shared.queue)
    (some_lease : tally Phase.leased s.phases ≠ 0) (ran : Pipe.Step s t)
    (no_lease : tally Phase.leased t.phases = 0) : t.Lost L (s.shared.staged L) := by
  have exiting : s.mode.stopping ∧ ¬ s.mode.dequeues := by
    cases mode : s.mode <;> rw [mode] at clear <;>
      first | exact clear.elim | exact ⟨trivial, by rintro (never | never) <;> cases never⟩
  obtain ⟨shut', gate', stays⟩ := gate.step ran
  obtain rfl : shut' = true := stays (gate.stopping exiting.1)
  have free := unburdened.resolve_left exiting.2
  cases ran with
  | submission _ _ _ ph' found move =>
    have mem := List.mem_of_getElem? (getElem?_set_found found ph')
    have outside : ph'.leased = 0 :=
      Nat.le_zero.mp ((weight_le_tally (w := Phase.leased) mem).trans no_lease.le)
    have same := move.queue_outside outside
    refine ⟨gate', no_lease, free, .inr ?_, Shared.staged_of_queue same⟩
    rw [same]
    exact clear
  | enter =>
    simp only [tally_append, tally_cons, tally_nil, Phase.leased, Nat.add_zero] at no_lease
    exact (some_lease no_lease).elim
  | _ => exact (some_lease no_lease).elim

theorem Reachable.gate (run : Reachable hsm s) :
    (∃ shut, s.pipe.Gate shut) ∧ s.pipe.Unburdened := by
  refine run.pipe_invariant (P := fun s => (∃ shut, s.Gate shut) ∧ s.Unburdened)
    ⟨⟨false, Pipe.gate_initial hsm⟩, .inl (.inl rfl)⟩ ?_
  rintro s t ⟨⟨shut, gate⟩, unburdened⟩ ran
  obtain ⟨shut', gate', -⟩ := gate.step ran
  refine ⟨⟨shut', gate'⟩, ?_⟩
  cases ran with
  | service _ _ _ move => exact move.unburdened unburdened
  | _ => exact unburdened

/-- The condition `ExitUndisturbed` cannot be weakened: a slot overlooked
when the last lease goes stays in its queue in every continuation of the run. -/
theorem overlooked_slot_stays (run : Reachable hsm s)
    (ran : Sys.step label s = .ok t) (disturbed : ¬ s.ExitUndisturbed L label)
    (later : Reaches Sys.step Always t u) :
    u.shared.staged L = s.shared.staged L ∧ u.shared.staged L ≠ 0 := by
  obtain ⟨⟨shut, gate⟩, unburdened⟩ := run.gate
  have moved := Sys.step_pipe ran
  obtain ⟨shut', gate', -⟩ := gate.step moved
  rw [Sys.ExitUndisturbed, Classical.not_imp, not_not] at disturbed
  obtain ⟨releases, clear, resident⟩ := disturbed
  rw [Sys.releasesLast, ran] at releases
  obtain ⟨some_lease, no_lease⟩ := of_decide_eq_true releases
  have lost := gate.lost unburdened clear (gate.leaseCount.symm.trans_ne some_lease) moved
    (gate'.leaseCount.symm.trans no_lease)
  have end_lost : u.pipe.Lost L (s.shared.staged L) :=
    Reaches.invariant (P := fun u => u.pipe.Lost L (s.shared.staged L)) later lost
      fun _ _ _ inv _ moved => inv.step (Sys.step_pipe moved)
  exact ⟨end_lost.staged, end_lost.staged.trans_ne resident⟩

/-- The producer of `stopBesideProducer` is about to give up the last lease. -/
def lastLeaseState : Sys singleAo (QueueBackend.SingleCoreCriticalRing.impl StagingSlot) Nat :=
  runOf singleAo _ (fun _ => 0) (stopBesideProducer.take 18)

theorem overlooked_slot_stays_behind :
    leftBehindState.shared.staged (QueueBackend.SingleCoreCriticalRing.laws StagingSlot) ≠ 0 := by
  have disturbed : ¬ lastLeaseState.ExitUndisturbed
      (QueueBackend.SingleCoreCriticalRing.laws StagingSlot) (.call 0 {}) :=
    fun undisturbed => undisturbed (by decide +kernel) ⟨trivial, by decide +kernel⟩
  have ran : Sys.step (.call 0 {}) lastLeaseState =
      .ok (outcome Sys.step [.call 0 {}] lastLeaseState) := by rfl
  have later : Reaches Sys.step Always (outcome Sys.step [.call 0 {}] lastLeaseState)
      leftBehindState := .single ⟨.dispatcher {}, trivial, by rfl⟩
  exact (overlooked_slot_stays (reachable_runOf (by decide +kernel)) ran disturbed later).2

end Coact
