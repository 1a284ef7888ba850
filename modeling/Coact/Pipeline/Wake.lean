import Coact.Pipeline.Queues
import Coact.Queue.Kinds

/-! No lost wake-up. Once the Dispatcher has armed its idle wait, a set latch
means that a signal has been given or is owed, and a clear latch means that the
scan for Ready slots still has every slot of a completed submission ahead. -/
namespace Coact
open Dispatch Foundation

variable {d : Deployment} {B : Backend StagingSlot} {H : Type}

/-- The submission owes the Dispatcher a signal. -/
def Phase.duty : Phase d B → Bool
  | .completed duty | .published _ duty | .left _ duty => duty
  | _ => false

/-- The submission has executed `request_dispatcher_wake()` for its slot. -/
def Phase.woken : Phase d B → Bool
  | .published woken _ => woken
  | .left queued _ => queued
  | _ => false

def Woken (phases : List (Phase d B)) (i : Nat) : Prop :=
  ∃ ph : Phase d B, phases[i]? = some ph ∧ ph.woken = true

/-- The Dispatcher has been signalled, or somebody is about to. -/
def Pipe.Alert (s : Pipe d B H) : Prop :=
  s.shared.token = true ∨ (∃ (i : Nat) (ph : Phase d B), s.phases[i]? = some ph ∧ ph.duty = true) ∨
    ∃ i : Nat, s.stoppers[i]? = some Stopper.signal

def Mode.armedOrAsleep : Mode B → Prop
  | .armed _ _ | .asleep => True
  | _ => False

/-- The idle branch: the stop flag was last read as clear. -/
def Mode.idle : Mode B → Prop
  | .resting | .armed _ _ | .asleep => True
  | _ => False

/-- What the rest of the scan has in front of it. -/
def Pipe.Ahead (L : B.Lawful) (s : Pipe d B H) (p : Partition) (r : B.Ready) : Prop :=
  ∀ p' v, v ∈ L.resident (s.shared.queue p') → Woken s.phases v.sub →
    (p' = p ∧ L.sees (s.shared.queue p) r) ∨ rank p < rank p'

structure Pipe.Wakeful (L : B.Lawful) (s : Pipe d B H) : Prop where
  queues : s.QueuesOk L
  unburdened : s.Unburdened
  latched : s.mode.armedOrAsleep → s.shared.wakePending = true → s.Alert
  stopped : s.mode.idle → s.shared.stop = true → s.Alert
  scanning : ∀ p r, s.mode = .armed p r → s.shared.wakePending = false → s.Ahead L p r
  sleeping : s.mode = .asleep → s.shared.wakePending = false →
    ∀ v ∈ s.shared.staged L, ¬ Woken s.phases v.sub

section
variable {s : Pipe d B H} {i : Nat} {ph ph' : Phase d B} {sh' : Shared B H}

/-- A submission keeps the alert: it gives up its duty only by signalling. -/
theorem Moves.alert (found : s.phases[i]? = some ph) (move : Moves d i s.shared ph sh' ph')
    (alert : s.Alert) : Pipe.Alert { s with shared := sh', phases := s.phases.set i ph' } := by
  have given : (s.shared.token = true → sh'.token = true) ∧
      (ph.duty = true → sh'.token = true ∨ ph'.duty = true) := by
    cases move with
    | depart queued =>
      refine ⟨fun token => token, ?_⟩
      cases queued <;> intro duty <;> cases duty
    | quiet => exact ⟨fun token => token, .inr⟩
    | signalDirect | signalQueued | signalLast => exact ⟨fun _ => rfl, fun _ => .inl rfl⟩
    | _ => exact ⟨fun token => token, fun duty => by cases duty⟩
  rcases alert with token | ⟨j, other, there, duty⟩ | stopper
  · exact .inl (given.1 token)
  · by_cases same : j = i
    · subst same
      cases found.symm.trans there
      rcases given.2 duty with token | still
      · exact .inl token
      · exact .inr (.inl ⟨j, ph', getElem?_set_found found ph', still⟩)
    · refine .inr (.inl ⟨j, other, ?_, duty⟩)
      rw [List.getElem?_set_ne (Ne.symm same)]
      exact there
  · exact .inr (.inr stopper)

/-- The Dispatcher takes the token only on its way out of the idle branch. -/
theorem Serves.alert
    (move : Serves d s.shared s.custody s.mode sh' cu' m') (idle : m'.idle) (alert : s.Alert) :
    Pipe.Alert { s with shared := sh', custody := cu', mode := m' } := by
  have kept : sh'.token = s.shared.token := by
    obtain ⟨sh, phases, cu, m, stoppers⟩ := s
    cases move with
    | wait _ _ enabled => rcases enabled with rfl | rfl <;> exact idle.elim
    | awake => exact idle.elim
    | _ => rfl
  rcases alert with token | duty | stopper
  · exact .inl (kept.trans token)
  · exact .inr (.inl duty)
  · exact .inr (.inr stopper)

end

section
variable {L : B.Lawful} {s t : Pipe d B H} {i : Nat} {ph ph' : Phase d B} {sh' : Shared B H}

theorem Moves.latch (move : Moves d i s.shared ph sh' ph') (pending : sh'.wakePending = true) :
    s.shared.wakePending = true ∨ ph'.duty = true := by
  cases move with
  | rouse | wake => cases clear : s.shared.wakePending <;> simp [Phase.duty]
  | _ => exact .inl pending

/-- While the latch stays clear no submission completes its wake-up request. -/
theorem Moves.unlatched (move : Moves d i s.shared ph sh' ph') (clear : sh'.wakePending = false) :
    s.shared.wakePending = false ∧ ph'.woken = ph.woken := by
  cases move with
  | rouse => cases clear
  | wake => cases clear
  | depart queued => cases queued <;> exact ⟨clear, rfl⟩
  | _ => exact ⟨clear, rfl⟩

/-- A slot that appears in a queue belongs to a submission that has not
requested the wake-up yet, and a push never hides a slot from a scan. -/
theorem Moves.arrivals (queues : s.QueuesOk L) (found : s.phases[i]? = some ph)
    (move : Moves d i s.shared ph sh' ph') (p : Partition) :
    (∀ v ∈ L.resident (sh'.queue p), v ∈ L.resident (s.shared.queue p) ∨
      (v.sub = i ∧ ph'.woken = false)) ∧
    ∀ r, L.sees (s.shared.queue p) r → L.sees (sh'.queue p) r := by
  have pushed : ∀ {b r q out}, ph = .pushing b r →
      B.pushStep b.slot (s.shared.queue (d.partition b.ao)) r = (q, out) →
      (L.resident q = L.resident (s.shared.queue (d.partition b.ao)) ∨
        (b.slot.sub = i ∧ ph'.woken = false ∧
          L.resident q = b.slot ::ₘ L.resident (s.shared.queue (d.partition b.ao)))) →
      (∀ v ∈ L.resident ((s.shared.setQueue (d.partition b.ao) q).queue p),
        v ∈ L.resident (s.shared.queue p) ∨ (v.sub = i ∧ ph'.woken = false)) ∧
      ∀ r, L.sees (s.shared.queue p) r →
        L.sees ((s.shared.setQueue (d.partition b.ao) q).queue p) r := by
    rintro b r q out rfl ran contents
    obtain ⟨ok, under⟩ := queues.pushing found
    by_cases here : p = d.partition b.ao
    · subst here
      simp only [Shared.setQueue_queue, Function.update_self]
      refine ⟨fun v mem => ?_, fun scan sees => ?_⟩
      · rcases contents with same | ⟨sub, unwoken, added⟩
        · exact .inl (same ▸ mem)
        · rw [added, Multiset.mem_cons] at mem
          rcases mem with rfl | earlier
          · exact .inr ⟨sub, unwoken⟩
          · exact .inl earlier
      · have kept := L.sees_push ok under sees
        rwa [ran] at kept
    · simp only [Shared.setQueue_queue, Function.update_of_ne here]
      exact ⟨fun v mem => .inl mem, fun scan sees => sees⟩
  cases move with
  | pushNext _ _ _ _ ran =>
    obtain ⟨ok, under⟩ := queues.pushing found
    exact pushed rfl ran (.inl (L.push_next ok under ran).2)
  | pushFail _ _ _ ran =>
    obtain ⟨ok, under⟩ := queues.pushing found
    exact pushed rfl ran (.inl (L.push_fail ok under ran).2)
  | publish _ _ _ sub ran =>
    obtain ⟨ok, under⟩ := queues.pushing found
    exact pushed rfl ran (.inr ⟨sub, rfl, (L.push_done ok under ran).2⟩)
  | _ => exact ⟨fun v mem => .inl mem, fun scan sees => sees⟩

theorem woken_set (found : s.phases[i]? = some ph)
    (woken : Woken (s.phases.set i ph') j) (same : ph'.woken = ph.woken) :
    Woken s.phases j ∧ (j = i → ph'.woken = true) := by
  obtain ⟨other, there, done⟩ := woken
  by_cases here : j = i
  · subst here
    rw [getElem?_set_found found ph'] at there
    cases there
    exact ⟨⟨ph, found, same ▸ done⟩, fun _ => done⟩
  · rw [List.getElem?_set_ne (Ne.symm here)] at there
    exact ⟨⟨other, there, done⟩, fun eq => absurd eq here⟩

theorem Moves.wakeful (inv : s.Wakeful L) (found : s.phases[i]? = some ph)
    (move : Moves d i s.shared ph sh' ph') :
    Pipe.Wakeful L { s with shared := sh', phases := s.phases.set i ph' } where
  queues := move.queuesOk inv.queues found
  unburdened := inv.unburdened
  latched idle pending := by
    rcases move.latch pending with earlier | duty
    · exact move.alert found (inv.latched idle earlier)
    · exact .inr (.inl ⟨i, ph', getElem?_set_found found ph', duty⟩)
  stopped idle stop := move.alert found (inv.stopped idle (move.stop_kept.symm.trans stop))
  scanning p r scanning clear p' v mem woken := by
    obtain ⟨earlier, same⟩ := move.unlatched clear
    obtain ⟨woken, mine⟩ := woken_set found woken same
    obtain ⟨arrivals, sees⟩ := move.arrivals inv.queues found p'
    rcases arrivals v mem with before | ⟨sub, unwoken⟩
    · rcases inv.scanning p r scanning earlier p' v before woken with ⟨rfl, seen⟩ | later
      · exact .inl ⟨rfl, sees r seen⟩
      · exact .inr later
    · rw [mine sub] at unwoken
      cases unwoken
  sleeping asleep clear v mem woken := by
    obtain ⟨earlier, same⟩ := move.unlatched clear
    obtain ⟨woken, mine⟩ := woken_set found woken same
    obtain ⟨p, mem⟩ := mem_staged.mp mem
    rcases (move.arrivals inv.queues found p).1 v mem with before | ⟨sub, unwoken⟩
    · exact inv.sleeping asleep earlier v (mem_staged.mpr ⟨p, before⟩) woken
    · rw [mine sub] at unwoken
      cases unwoken

/-- The moves of the Dispatcher within its idle branch. -/
inductive Idles : Shared B H → Mode B → Shared B H → Mode B → Prop where
  | stay (sh m c b n t) : Idles sh m (sh.own c b n t) m
  | rest (sh) : sh.stop = false → Idles sh .serving sh .resting
  | arm (sh) : Idles sh .resting sh.arm (.armed .High B.hasReady)
  | scanNext (sh p r r') : B.readyStep (sh.queue p) r = .inl r' →
      Idles sh (.armed p r) sh (.armed p r')
  | scanNone (sh p r p') : B.readyStep (sh.queue p) r = .inr false → next p = some p' →
      Idles sh (.armed p r) sh (.armed p' B.hasReady)
  | sleep (sh p r) : B.readyStep (sh.queue p) r = .inr false → next p = none →
      Idles sh (.armed p r) sh .asleep

theorem Mode.idle_not_dequeues {m : Mode B} (idle : m.idle) : ¬ m.dequeues := by
  rintro (rfl | rfl) <;> exact idle

theorem Serves.idles
    (move : Serves d sh cu m sh' cu' m') (idle : m'.idle) (unburdened : m.dequeues ∨ cu = .free) :
    Idles sh m sh' m' ∧ cu = .free ∧ cu' = .free := by
  have free (same : m' = m) : cu = .free :=
    unburdened.resolve_left (Mode.idle_not_dequeues (same ▸ idle))
  cases move with
  | quiet _ _ c b n t => exact ⟨.stay _ _ c b n t, free rfl, free rfl⟩
  | popStart _ _ dequeues | release _ _ _ _ dequeues | releaseUnbound _ _ _ _ dequeues
  | wait _ _ dequeues => exact (Mode.idle_not_dequeues idle dequeues).elim
  | popNext | popNone | popSome => cases free rfl
  | rest clear => exact ⟨.rest _ clear, rfl, rfl⟩
  | armIdle => exact ⟨.arm _, rfl, rfl⟩
  | scanNext p r r' ran => exact ⟨.scanNext _ p r r' ran, rfl, rfl⟩
  | scanNone p r p' none follows => exact ⟨.scanNone _ p r p' none follows, rfl, rfl⟩
  | sleep p r none last => exact ⟨.sleep _ p r none last, rfl, rfl⟩
  | _ => exact idle.elim

theorem Pipe.Ahead.passed (ahead : s.Ahead L p r)
    (none : B.readyStep (s.shared.queue p) r = .inr false)
    (mem : v ∈ L.resident (s.shared.queue p')) (woken : Woken s.phases v.sub) :
    rank p < rank p' := by
  rcases ahead p' v mem woken with ⟨rfl, seen⟩ | later
  · cases L.sees_done seen none
  · exact later

theorem Pipe.QueuesOk.ahead (queues : s.QueuesOk L) (free : s.custody = .free)
    (later : ∀ p' v, v ∈ L.resident (s.shared.queue p') → Woken s.phases v.sub →
      rank p ≤ rank p') : s.Ahead L p B.hasReady := by
  intro p' v mem woken
  rcases (later p' v mem woken).lt_or_eq with further | here
  · exact .inr further
  · have same : p' = p := by
      cases p <;> cases p' <;> first | rfl | cases here
    subst same
    have inv := queues p'
    rw [free] at inv
    exact .inl ⟨rfl, L.sees_start inv fun empty => by simp [empty] at mem⟩

theorem Serves.wakeful (inv : s.Wakeful L) (move : Serves d s.shared s.custody s.mode sh' cu' m') :
    Pipe.Wakeful L { s with shared := sh', custody := cu', mode := m' } := by
  have queues := move.queuesOk inv.queues
  have unburdened := move.unburdened inv.unburdened
  by_cases idle : m'.idle
  · obtain ⟨idles, free, free'⟩ := move.idles idle inv.unburdened
    have alert := move.alert idle
    obtain ⟨sh, phases, cu, m, stoppers⟩ := s
    obtain ⟨-, -, latched, stopped, scanning, sleeping⟩ := inv
    subst free free'
    cases idles with
    | stay =>
      exact ⟨queues, unburdened, fun armed pending => alert (latched armed pending),
        fun idle stop => alert (stopped idle stop), scanning, sleeping⟩
    | rest clear =>
      refine ⟨queues, unburdened, fun armed => armed.elim, fun _ stop => ?_, ?_, ?_⟩
      · rw [clear] at stop
        cases stop
      · intro p r armed
        cases armed
      · intro asleep
        cases asleep
    | arm =>
      refine ⟨queues, unburdened, fun _ pending => (by cases pending),
        fun _ stop => alert (stopped trivial stop), ?_, fun asleep => by cases asleep⟩
      intro p r armed _
      cases armed
      exact queues.ahead rfl fun p' v _ _ => Nat.zero_le _
    | scanNext p r r' ran =>
      refine ⟨queues, unburdened, fun _ pending => alert (latched trivial pending),
        fun _ stop => alert (stopped trivial stop), ?_, fun asleep => by cases asleep⟩
      intro p₁ r₁ armed clear p' v mem woken
      cases armed
      rcases scanning p r rfl clear p' v mem woken with ⟨rfl, seen⟩ | later
      · exact .inl ⟨rfl, L.sees_next seen ran⟩
      · exact .inr later
    | scanNone p r p' none follows =>
      refine ⟨queues, unburdened, fun _ pending => alert (latched trivial pending),
        fun _ stop => alert (stopped trivial stop), ?_, fun asleep => by cases asleep⟩
      intro p₁ r₁ armed clear
      cases armed
      refine queues.ahead rfl fun p₂ v mem woken => ?_
      rw [rank_next follows]
      exact (scanning p r rfl clear).passed none mem woken
    | sleep p r none last =>
      refine ⟨queues, unburdened, fun _ pending => alert (latched trivial pending),
        fun _ stop => alert (stopped trivial stop), fun _ _ armed => (by cases armed), ?_⟩
      intro _ clear v mem woken
      obtain ⟨p', mem⟩ := mem_staged.mp mem
      have later := (scanning p r rfl clear).passed none mem woken
      exact absurd later (not_lt.mpr (rank_last last))
  · refine ⟨queues, unburdened, fun armed => ?_, fun i => (idle i).elim, ?_, ?_⟩
    · cases m' <;> first | exact armed.elim | exact (idle trivial).elim
    · rintro p r rfl
      exact (idle trivial).elim
    · rintro rfl
      exact (idle trivial).elim

theorem Pipe.Wakeful.aside (inv : s.Wakeful L) (queues : t.QueuesOk L)
    (alert : s.Alert → t.Alert) (stop : t.shared.stop = true → s.shared.stop = true ∨ t.Alert)
    (woken : ∀ j, Woken t.phases j → Woken s.phases j)
    (queue : t.shared.queue = s.shared.queue) (latch : t.shared.wakePending = s.shared.wakePending)
    (custody : t.custody = s.custody) (mode : t.mode = s.mode) : t.Wakeful L := by
  constructor
  case queues => exact queues
  case unburdened =>
    rw [Pipe.Unburdened, custody, mode]
    exact inv.unburdened
  case latched =>
    rw [latch, mode]
    exact fun armed pending => alert (inv.latched armed pending)
  case stopped =>
    rw [mode]
    exact fun idle set => (stop set).elim (fun before => alert (inv.stopped idle before)) id
  case scanning =>
    rw [latch, mode]
    intro p r armed clear p' v
    rw [queue]
    exact fun mem awoken => inv.scanning p r armed clear p' v mem (woken _ awoken)
  case sleeping =>
    rw [latch, mode, Shared.staged, queue]
    exact fun asleep clear v mem awoken => inv.sleeping asleep clear v mem (woken _ awoken)

theorem woken_enter {phases : List (Phase d B)}
    (woken : Woken (phases ++ [.entering]) j) : Woken phases j := by
  obtain ⟨ph, found, woken⟩ := woken
  rcases getElem?_of_append found with ⟨rfl, -⟩ | found
  · cases woken
  · exact ⟨ph, found, woken⟩

theorem Pipe.Alert.kept (alert : s.Alert) (token : s.shared.token = true → t.shared.token = true)
    (phases : ∀ (i : Nat) ph, s.phases[i]? = some ph → t.phases[i]? = some ph)
    (stoppers : ∀ i : Nat, s.stoppers[i]? = some .signal →
      t.stoppers[i]? = some .signal ∨ t.shared.token = true) : t.Alert := by
  rcases alert with given | ⟨i, ph, found, duty⟩ | ⟨i, found⟩
  · exact .inl (token given)
  · exact .inr (.inl ⟨i, ph, phases i ph found, duty⟩)
  · rcases stoppers i found with still | given
    · exact .inr (.inr ⟨i, still⟩)
    · exact .inl given

theorem Pipe.Wakeful.step (inv : s.Wakeful L) (ran : Pipe.Step s t) : t.Wakeful L := by
  have queues := inv.queues.step ran
  cases ran with
  | submission _ _ _ _ found move => exact move.wakeful inv found
  | service _ _ _ move => exact move.wakeful inv
  | enter =>
    refine inv.aside queues (fun alert => ?_) .inl (fun j => woken_enter) rfl rfl rfl rfl
    exact alert.kept id (fun i ph => getElem?_append_found _) fun i => .inl
  | requestStop =>
    refine inv.aside queues (fun alert => ?_) .inl (fun j => id) rfl rfl rfl rfl
    exact alert.kept id (fun i ph => id) fun i there => .inl (getElem?_append_found _ there)
  | close i found =>
    refine inv.aside queues (fun alert => ?_) .inl (fun j => id) rfl rfl rfl rfl
    refine alert.kept id (fun i ph => id) fun j there => .inl ?_
    exact getElem?_set_other found there (by decide)
  | store i found =>
    refine inv.aside queues (fun alert => ?_) (fun _ => .inr ?_) (fun j => id) rfl rfl rfl rfl
    · refine alert.kept id (fun i ph => id) fun j there => .inl ?_
      exact getElem?_set_other found there (by decide)
    · exact .inr (.inr ⟨i, getElem?_set_found found _⟩)
  | signal =>
    refine inv.aside queues (fun _ => .inl rfl) .inl (fun j => id) rfl rfl rfl rfl
  | breaker =>
    exact inv.aside queues (fun alert => alert) .inl (fun j => id) rfl rfl rfl rfl

end

theorem Pipe.wakeful_initial (L : B.Lawful) (hsm : AoId → H) :
    (Pipe.initial d B hsm).Wakeful L where
  queues := Pipe.queuesOk_initial L hsm
  unburdened := .inl (.inl rfl)
  latched armed := armed.elim
  stopped idle := idle.elim
  scanning p r armed := by cases armed
  sleeping asleep := by cases asleep

theorem Reachable.wakeful (L : B.Lawful) {hsm : AoId → H}
    (run : Reachable hsm s) : s.pipe.Wakeful L :=
  run.pipe_invariant (Pipe.wakeful_initial L hsm) Pipe.Wakeful.step

/-- The Dispatcher blocks in its idle wait, nobody is on the way to signal it,
and there is a slot of a submission past its wake-up request or a stop to act on. -/
structure Sys.Stranded (L : B.Lawful) (s : Sys d B H) : Prop where
  blocked : s.disp = .idleWait ∧ s.shared.token = false
  producers : ∀ ph ∈ s.calls.mapIdx Call.phase, ph.duty = false
  stoppers : Stopper.signal ∉ s.stoppers
  unserved : (∃ p, ∃ v ∈ L.resident (s.shared.queue p),
    Woken (s.calls.mapIdx Call.phase) v.sub) ∨ s.shared.stop = true

theorem Sys.Stranded.not_alert {s : Sys d B H} (stranded : s.Stranded L) : ¬ s.pipe.Alert := by
  rintro (token | ⟨i, ph, found, duty⟩ | ⟨i, found⟩)
  · cases stranded.blocked.2.symm.trans token
  · cases (stranded.producers ph (List.mem_of_getElem? found)).symm.trans duty
  · exact stranded.stoppers (List.mem_of_getElem? found)

/-- The Dispatcher is never stranded, with either queue backend. -/
theorem no_lost_wakeup (k : QueueBackend) {hsm : AoId → H} {s : Sys d (k.impl StagingSlot) H}
    (run : Reachable hsm s) : ¬ s.Stranded (k.laws StagingSlot) := by
  intro stranded
  have inv := run.wakeful (k.laws StagingSlot)
  have asleep : s.pipe.mode = .asleep := congrArg Dispatch.Pc.mode stranded.blocked.1
  have armed : s.pipe.mode.armedOrAsleep := asleep ▸ trivial
  rcases stranded.unserved with ⟨p, v, mem, woken⟩ | stop
  · cases latch : s.pipe.shared.wakePending with
    | true => exact stranded.not_alert (inv.latched armed latch)
    | false => exact inv.sleeping asleep latch v (mem_staged.mpr ⟨p, mem⟩) woken
  · exact stranded.not_alert (inv.stopped (asleep ▸ trivial) stop)

/-- The Dispatcher falls asleep on empty queues and an ISR submission goes on
until it has requested the wake-up, with the signal still to be given. -/
def owedSignal : List (Label Nat) :=
  List.replicate 27 (Label.dispatcher {}) ++
    Label.submit { target := ⟨1⟩, event := 7, fromIsr := true } ::
    List.replicate 8 (Label.call 0 {})

def owedSignalState : Sys singleAo (QueueBackend.SingleCoreCriticalRing.impl StagingSlot) Nat :=
  runOf singleAo _ (fun _ => 0) owedSignal

theorem no_lost_wakeup_owed :
    Reachable (fun _ => 0) owedSignalState ∧ owedSignalState.disp = .idleWait ∧
      owedSignalState.shared.token = false ∧ owedSignalState.shared.pending 0 = 1 ∧
      ¬ owedSignalState.Stranded (QueueBackend.SingleCoreCriticalRing.laws StagingSlot) := by
  have run : Reachable (fun _ => 0) owedSignalState := reachable_runOf (by decide +kernel)
  exact ⟨run, by rfl, by decide +kernel, by decide +kernel,
    no_lost_wakeup .SingleCoreCriticalRing run⟩

end Coact
