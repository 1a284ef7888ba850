import Coact.Executor
import Coact.Foundation.History

/-! What has become of the bodies, slot by slot. The history of a slot says whether its
latest body has been entered, what it waits for and whether it has finished; the flags
and the state of the slot agree with that. Two departures from the documentation show:
the argument given to `arm` does not reach the body, and a body that yields `kNone`, which
is no pause, loses its slot. -/
namespace Coact.Executor
open Foundation Function

variable {n : Nat} {σ : Type}

/-- What the history says of a slot. `dropped` is a body that has yielded `kNone`. -/
inductive Tale where
  | vacant
  | armed (arg : ResumeArg)
  | running
  | slept
  | waiting
  | woken (arg : ResumeArg)
  | finished
  | dropped
  deriving DecidableEq, Repr

def Tale.ofReason : WaitReason → Tale
  | .kSleep => .slept
  | .kWaitTask => .waiting
  | .kDone => .finished
  | .kNone => .dropped

def Tale.next (i : Fin n) : Event n → Tale → Tale
  | .armed j arg, tale => if j = i then .armed arg else tale
  | .woken j arg, tale => if j = i then .woken arg else tale
  | .entered j _, tale => if j = i then .running else tale
  | .left j _ reason, tale => if j = i then .ofReason reason else tale

def taleOf (i : Fin n) (log : List (Event n)) : Tale := after (Tale.next i) .vacant log

/-- The argument that a body is to see when it is entered next. -/
def Tale.argument : Tale → Option ResumeArg
  | .armed arg | .woken arg => some arg
  | .slept => some .zero
  | .vacant | .running | .waiting | .finished | .dropped => none

/-- A coroutine whose body has been entered and has not finished. -/
structure Coroutine.Inside (co : Coroutine) : Prop where
  armed : co.armed = true
  running : co.running = true
  started : co.started = true

/-- The slot agrees with its history. -/
def Tale.Fits : Tale → Slot σ → Prop
  | .vacant, slot | .finished, slot | .dropped, slot =>
    slot.state = .kFree ∧ slot.pendingArg = .zero
  | .armed _, slot => slot.state = .kRun ∧ slot.pendingArg = .zero ∧
    slot.co.armed = true ∧ slot.co.running = false ∧ slot.co.started = false
  | .running, slot => slot.state = .kRun ∧ slot.co.Inside
  | .slept, slot => slot.state = .kSleep ∧ slot.co.Inside
  | .waiting, slot => slot.state = .kWaitTask ∧ slot.co.Inside
  | .woken arg, slot => slot.state = .kRun ∧ slot.pendingArg = arg ∧ slot.co.Inside

/-- The slot that an event is about. -/
def Event.slot : Event n → Fin n
  | .armed i _ | .woken i _ | .entered i _ | .left i _ _ => i

/-- The pass is in the body of the slot, or stuck in a call of it. -/
def Machine.InBody (m : Machine n σ) (i : Fin n) : Prop :=
  ∃ pass, m.pass = some pass ∧ pass.index = i ∧ pass.stage ≠ .scan

structure Agrees (m : Machine n σ) : Prop where
  fits : ∀ i, (taleOf i m.log).Fits (m.slots i)
  running : ∀ i, taleOf i m.log = .running ↔ m.InBody i

section
variable {log : List (Event n)} {slot : Slot σ}

theorem taleOf_snoc : taleOf i (log ++ [e]) = Tale.next i e (taleOf i log) := after_snoc ..

theorem taleOf_other (other : e.slot ≠ i) : taleOf i (log ++ [e]) = taleOf i log := by
  rw [taleOf_snoc]
  cases e with
  | _ => exact if_neg other

theorem taleOf_armed : taleOf i (log ++ [.armed i arg]) = .armed arg :=
  taleOf_snoc.trans (if_pos rfl)

theorem taleOf_woken : taleOf i (log ++ [.woken i arg]) = .woken arg :=
  taleOf_snoc.trans (if_pos rfl)

theorem taleOf_entered : taleOf i (log ++ [.entered i arg]) = .running :=
  taleOf_snoc.trans (if_pos rfl)

theorem taleOf_left {returned : Bool} {reason : WaitReason} :
    taleOf i (log ++ [.left i returned reason]) = .ofReason reason :=
  taleOf_snoc.trans (if_pos rfl)

/-- The latest event of a slot that yields `kNone` is in its history. -/
theorem taleOf_ne_dropped (none : ∀ i returned, .left i returned .kNone ∉ log) :
    taleOf i log ≠ .dropped := by
  induction log using List.reverseRecOn with
  | nil => simp [taleOf, after]
  | append_singleton log e ih =>
    have before := ih fun i returned mem => none i returned (List.mem_append_left _ mem)
    by_cases other : e.slot ≠ i
    · rw [taleOf_other other]
      exact before
    · obtain rfl := not_not.mp other
      rw [taleOf_snoc]
      cases e with
      | armed j arg | woken j arg | entered j seen => simp [Tale.next, Event.slot]
      | left j returned reason =>
        have kept : reason ≠ .kNone := by
          rintro rfl
          exact none j returned (List.mem_append_right _ (List.mem_singleton_self _))
        cases reason <;> simp_all [Tale.next, Event.slot, Tale.ofReason]

theorem Tale.Fits.of_free {tale : Tale} (fits : tale.Fits slot) (free : slot.state = .kFree) :
    slot.pendingArg = .zero ∧ (tale = .vacant ∨ tale = .finished ∨ tale = .dropped) := by
  cases tale with
  | vacant => exact ⟨fits.2, .inl rfl⟩
  | finished => exact ⟨fits.2, .inr (.inl rfl)⟩
  | dropped => exact ⟨fits.2, .inr (.inr rfl)⟩
  | _ =>
    have other := fits.1
    rw [free] at other
    cases other

theorem Tale.Fits.of_waiting {tale : Tale} (fits : tale.Fits slot)
    (waiting : slot.state = .kWaitTask) : tale = .waiting ∧ slot.co.Inside := by
  cases tale with
  | waiting => exact ⟨rfl, fits.2⟩
  | _ =>
    have other := fits.1
    rw [waiting] at other
    cases other

theorem Tale.Fits.of_sleep {tale : Tale} (fits : tale.Fits slot) (asleep : slot.state = .kSleep) :
    tale = .slept ∧ slot.co.Inside := by
  cases tale with
  | slept => exact ⟨rfl, fits.2⟩
  | _ =>
    have other := fits.1
    rw [asleep] at other
    cases other

end

section
variable {co : Coroutine}

theorem Coroutine.Inside.enter (inside : co.Inside) :
    co.enter arg = some { co with pendingArg := arg } := by
  simp [Coroutine.enter, Coroutine.resume, inside.started, inside.armed, inside.running]

theorem Coroutine.enter_fresh (armed : co.armed = true) (idle : co.running = false)
    (fresh : co.started = false) :
    co.enter arg = some { co with running := true, started := true, pendingArg := arg } := by
  simp [Coroutine.enter, Coroutine.start, armed, idle, fresh]

end

/-- What happens to a runnable or roused slot when it is entered: the body sees the argument
of the slot, which is that of its history unless it is entered for the first time. -/
structure Entry (tale : Tale) (co : Coroutine) : Prop where
  inside : co.Inside
  given : ∃ arg, tale.argument = some arg ∧
    (co.pendingArg = arg ↔ ∀ initial, tale = .armed initial → initial = .zero)

theorem Tale.Fits.entry {slot slot' : Slot σ} (fits : tale.Fits slot) (idle : tale ≠ .running)
    (from_ : slot.state = .kRun ∧ slot' = slot ∨ slot.state = .kSleep ∧ slot' = slot.rouse) :
    ∃ co, slot'.co.enter slot'.pendingArg = some co ∧ Entry tale co := by
  rcases from_ with ⟨runnable, rfl⟩ | ⟨asleep, rfl⟩
  · cases tale with
    | armed initial =>
      obtain ⟨-, pending, armed, stopped, fresh⟩ := fits
      refine ⟨_, Coroutine.enter_fresh armed stopped fresh, ⟨armed, rfl, rfl⟩, initial, rfl, ?_⟩
      rw [pending]
      constructor
      · rintro rfl other same
        cases same
        rfl
      · intro all
        exact (all initial rfl).symm
    | woken =>
      obtain ⟨-, rfl, inside⟩ := fits
      refine ⟨_, inside.enter, ⟨inside.armed, inside.running, inside.started⟩, _, rfl, ?_⟩
      simp
    | running => exact (idle rfl).elim
    | _ =>
      have other := fits.1
      rw [runnable] at other
      cases other
  · obtain ⟨rfl, inside⟩ := fits.of_sleep asleep
    have roused : slot.rouse.co.Inside := inside
    refine ⟨_, roused.enter,
      ⟨inside.armed, inside.running, inside.started⟩, .zero, rfl, ?_⟩
    simp [Slot.rouse]

theorem Coroutine.Inside.settle {slot : Slot σ} (inside : slot.co.Inside) (how : Leave σ) :
    (Tale.ofReason how.reason).Fits ({ slot with co := slot.co.left how }.settle how) := by
  cases how with
  | finish => exact ⟨rfl, rfl⟩
  | yield y =>
    have kept : y.reason ≠ .kDone → (slot.co.left (.yield y)).Inside := by
      intro other
      rw [Coroutine.left, Leave.reason, if_neg other]
      exact inside
    unfold Slot.settle Leave.reason
    dsimp only
    cases reason : y.reason with
    | kNone => exact ⟨rfl, rfl⟩
    | kDone => exact ⟨rfl, rfl⟩
    | kSleep | kWaitTask => exact ⟨rfl, kept (by simp [reason])⟩

namespace Agrees
variable {m m' : Machine n σ} {label : Label n σ} {pass : Pass} {i : Fin n}

theorem initial {permits : σ → Nat} {binary : σ → Bool} : Agrees (.initial n permits binary) where
  fits _ := ⟨rfl, rfl⟩
  running i := by
    constructor
    · intro never
      cases never
    · rintro ⟨pass, none, -⟩
      cases none

theorem update (agrees : Agrees m) {slot : Slot σ} (about : e.slot = i)
    (slots : m'.slots = update m.slots i slot) (log : m'.log = m.log ++ [e])
    (fits : (taleOf i m'.log).Fits slot) (running : taleOf i m'.log = .running ↔ m'.InBody i)
    (others : ∀ j, j ≠ i → (m'.InBody j ↔ m.InBody j)) : Agrees m' := by
  have away : ∀ {j}, j ≠ i → taleOf j m'.log = taleOf j m.log := by
    intro j other
    rw [log]
    exact taleOf_other (about ▸ Ne.symm other)
  constructor
  · intro j
    by_cases here : j = i
    · subst here
      rw [slots, update_self]
      exact fits
    · rw [slots, update_of_ne here, away here]
      exact agrees.fits j
  · intro j
    by_cases here : j = i
    · rw [here]
      exact running
    · rw [away here, others j here]
      exact agrees.running j

theorem idle (agrees : Agrees m) (outside : ¬ m.InBody i) : taleOf i m.log ≠ .running :=
  fun running => outside ((agrees.running i).mp running)

theorem not_inBody_free (free : m.pass = none) : ¬ m.InBody i := by
  rintro ⟨pass, some, -⟩
  rw [free] at some
  cases some

theorem not_inBody_scan (running : m.pass = some pass) (scan : pass.stage = .scan) :
    ¬ m.InBody i := by
  rintro ⟨pass', some, -, stage⟩
  rw [running] at some
  cases some
  exact stage scan

theorem inBody_other (running : m.pass = some pass) (here : pass.index = i)
    (other : j ≠ i) : ¬ m.InBody j := by
  rintro ⟨pass', some, index, -⟩
  rw [running] at some
  cases some
  exact other (Fin.ext (index.symm.trans here))

theorem repass (agrees : Agrees m) (slots : m'.slots = m.slots) (log : m'.log = m.log)
    (before : ∀ i, ¬ m.InBody i) (after : ∀ i, ¬ m'.InBody i) : Agrees m' where
  fits i := by
    rw [slots, log]
    exact agrees.fits i
  running i := by
    rw [log]
    exact ⟨fun running => (agrees.idle (before i) running).elim, fun inside => (after i inside).elim⟩

theorem entry (agrees : Agrees m) (visited : m.slotAt .scan = some (pass, i)) {slot : Slot σ}
    (from_ : (m.slots i).state = .kRun ∧ slot = m.slots i ∨
      (m.slots i).state = .kSleep ∧ slot = (m.slots i).rouse) :
    ∃ co, slot.co.enter slot.pendingArg = some co ∧ Entry (taleOf i m.log) co := by
  obtain ⟨running, -, scan⟩ := Machine.slotAt_eq_some.mp visited
  exact (agrees.fits i).entry (agrees.idle (not_inBody_scan running scan)) from_

theorem step (agrees : Agrees m) (effect : Effect m label m') : Agrees m' := by
  cases effect with
  | idle slots pass log =>
    constructor
    · intro i
      rw [slots, log]
      exact agrees.fits i
    · intro i
      rw [log, Machine.InBody, pass]
      exact agrees.running i
  | @armed arg i free vacant =>
    obtain ⟨pending, -⟩ := (agrees.fits i).of_free vacant
    refine agrees.update (i := i) rfl rfl rfl ?_ ?_ fun j _ => .rfl
    · exact taleOf_armed ▸ ⟨rfl, pending, rfl, rfl, rfl⟩
    · refine ⟨fun never => ?_, fun inside => (not_inBody_free free inside).elim⟩
      have tale : taleOf i (m.armSlot i arg).log = .armed arg := taleOf_armed
      rw [tale] at never
      cases never
  | @woken arg i free waiting =>
    obtain ⟨-, inside⟩ := (agrees.fits i).of_waiting waiting
    refine agrees.update (i := i) rfl rfl rfl ?_ ?_ fun j _ => .rfl
    · exact taleOf_woken ▸ ⟨rfl, rfl, inside⟩
    · refine ⟨fun never => ?_, fun inside => (not_inBody_free free inside).elim⟩
      have tale : taleOf i (m.wakeSlot i arg).log = .woken arg := taleOf_woken
      rw [tale] at never
      cases never
  | began free =>
    exact agrees.repass rfl rfl (fun i => not_inBody_free free) fun i => not_inBody_scan rfl rfl
  | skipped visited =>
    obtain ⟨running, -, scan⟩ := Machine.slotAt_eq_some.mp visited
    exact agrees.repass rfl rfl (fun i => not_inBody_scan running scan) fun i =>
      not_inBody_scan rfl rfl
  | @entered _ i slot _ visited from_ done =>
    obtain ⟨running, here, scan⟩ := Machine.slotAt_eq_some.mp visited
    obtain ⟨co', done', entry⟩ := agrees.entry visited from_
    cases done.symm.trans done'
    have state : slot.state = .kRun := by
      rcases from_ with ⟨runnable, rfl⟩ | ⟨-, rfl⟩
      · exact runnable
      · rfl
    refine agrees.update (i := i) rfl rfl rfl ?_ ?_ fun j other => ?_
    · exact taleOf_entered ▸ ⟨state, entry.inside⟩
    · exact ⟨fun _ => ⟨_, rfl, here, by simp⟩, fun _ => taleOf_entered⟩
    · refine ⟨?_, fun inside => (not_inBody_scan running scan inside).elim⟩
      rintro ⟨pass', some, index, -⟩
      cases some
      exact (other (Fin.ext (index.symm.trans here))).elim
  | refused visited from_ done =>
    obtain ⟨co, done', -⟩ := agrees.entry visited from_
    rw [done] at done'
    cases done'
  | finished running _ scan =>
    exact agrees.repass rfl rfl (fun i => not_inBody_scan running scan) fun i => not_inBody_free rfl
  | @left _ pass i how m' current slots pass' log =>
    obtain ⟨running, here, body⟩ := Machine.slotAt_eq_some.mp current
    have inside : m.InBody i := ⟨pass, running, here, by simp [body]⟩
    have fits := agrees.fits i
    rw [(agrees.running i).mpr inside] at fits
    have outside : ∀ j, ¬ m'.InBody j := fun j => not_inBody_scan pass' rfl
    have tale : taleOf i m'.log = .ofReason how.reason := by
      rw [log]
      exact taleOf_left
    refine agrees.update (i := i) (e := .left i how.returned how.reason) rfl slots log ?_ ?_
      fun j other => ?_
    · rw [tale]
      exact fits.2.settle how
    · rw [tale]
      refine ⟨fun never => ?_, fun inside => (outside i inside).elim⟩
      cases reason : how.reason <;> rw [reason] at never <;> cases never
    · exact ⟨fun inside => (outside j inside).elim,
        fun inside => (inBody_other running here other inside).elim⟩

theorem reached [DecidableEq σ] {permits : σ → Nat} {binary : σ → Bool}
    (reached : Reaches Machine.step allowed (.initial n permits binary) m) : Agrees m :=
  reached.invariant (P := Agrees) initial
    fun _ _ _ agrees _ ran => agrees.step (Machine.step_effect ran)

end Agrees

section
variable [DecidableEq σ] {permits : σ → Nat} {binary : σ → Bool} {m m' : Machine n σ} {label : Label n σ}

/-- Every entry of a body has an argument that it is to see: that of `arm`, that of `wake`,
or the zero one after a sleep. It sees that argument exactly if it is not entered for the
first time with another than the zero argument. -/
theorem resume_argument_iff (reached : Reaches Machine.step Always (.initial n permits binary) m)
    (ran : Machine.step label m = .ok m') {i : Fin n} {seen : ResumeArg}
    (entry : m'.log = m.log ++ [.entered i seen]) :
    ∃ given, (taleOf i m.log).argument = some given ∧
      (seen = given ↔ ∀ initial, taleOf i m.log = .armed initial → initial = .zero) := by
  have agrees := Agrees.reached reached
  have last {e : Event n} {log : List (Event n)} (same : log ++ [e] = log ++ [.entered i seen]) :
      e = .entered i seen := List.singleton_inj.mp (List.append_cancel_left same)
  cases Machine.step_effect ran with
  | entered visited from_ done =>
    cases last entry
    obtain ⟨co, done', entry⟩ := agrees.entry visited from_
    cases done.symm.trans done'
    exact entry.given
  | idle _ _ log =>
    rw [log] at entry
    cases List.self_eq_append_right.mp entry
  | began | skipped | refused | finished =>
    cases List.self_eq_append_right.mp entry
  | armed => cases last entry
  | woken => cases last entry
  | left _ _ _ log =>
    rw [log] at entry
    cases last entry

end

/-- One slot, and a binary semaphore that nobody uses. -/
def single : Machine 1 Unit := .initial 1 (fun _ => 0) fun _ => true

def await : YieldRequest Unit := ⟨.kWaitTask, 0, 3, 0, none⟩

/-- A body that waits for a task and is woken. -/
def awaited : List (Label 1 Unit) :=
  [.call (.arm .zero), .begin 0, .visit, .leave (.yield await), .finish,
    .call (.wake (Fin.last 0) ⟨true, 3⟩), .begin 1]

theorem resume_argument_iff_awaited :
    ∃ given, (taleOf 0 (outcome Machine.step awaited single).log).argument = some given ∧
      ⟨true, 3⟩ = given := by
  have reached : Reaches Machine.step Always single (outcome Machine.step awaited single) :=
    reaches_outcome (by decide +kernel)
  have entry : (outcome Machine.step (awaited ++ [.visit]) single).log =
      (outcome Machine.step awaited single).log ++ [.entered 0 ⟨true, 3⟩] := by decide +kernel
  have ran : Machine.step .visit (outcome Machine.step awaited single) =
      .ok (outcome Machine.step (awaited ++ [.visit]) single) := rfl
  obtain ⟨given, expected, sees⟩ := resume_argument_iff reached ran entry
  refine ⟨given, expected, sees.mpr fun initial first => ?_⟩
  have woken : taleOf 0 (outcome Machine.step awaited single).log = .woken ⟨true, 3⟩ := by
    decide +kernel
  cases first

/-- The argument that `arm` is given is not the one that the body sees. -/
theorem resume_argument_lost :
    Reaches Machine.step Always single
      (outcome Machine.step [.call (.arm ⟨true, 7⟩), .begin 0, .visit] single) ∧
    (outcome Machine.step [.call (.arm ⟨true, 7⟩), .begin 0, .visit] single).log =
      [.armed 0 ⟨true, 7⟩, .entered 0 .zero] :=
  ⟨reaches_outcome (by decide +kernel), by decide +kernel⟩

section
variable [DecidableEq σ] {permits : σ → Nat} {binary : σ → Bool} {m : Machine n σ}

/-- A slot is free exactly if no body was ever armed in it, or its latest body has returned
or yielded `kDone`, or has yielded `kNone`. So bodies lose their slots early exactly if
they yield `kNone`. -/
theorem retirement_iff (reached : Reaches Machine.step Always (.initial n permits binary) m) :
    ((∀ i, (m.slots i).state = .kFree →
        taleOf i m.log = .vacant ∨ taleOf i m.log = .finished) ↔
      ∀ i, taleOf i m.log ≠ .dropped) ∧
    (∀ i, taleOf i m.log = .dropped → (m.slots i).state = .kFree) ∧
    ((∀ i returned, .left i returned .kNone ∉ m.log) → ∀ i, taleOf i m.log ≠ .dropped) := by
  have agrees := Agrees.reached reached
  have freed : ∀ i, taleOf i m.log = .dropped → (m.slots i).state = .kFree := by
    intro i dropped
    have fits := agrees.fits i
    rw [dropped] at fits
    exact fits.1
  refine ⟨⟨?_, ?_⟩, freed, ?_⟩
  · intro proper i dropped
    rcases proper i (freed i dropped) with vacant | finished
    · rw [dropped] at vacant
      cases vacant
    · rw [dropped] at finished
      cases finished
  · intro kept i free
    rcases ((agrees.fits i).of_free free).2 with vacant | finished | dropped
    · exact .inl vacant
    · exact .inr finished
    · exact (kept i dropped).elim
  · intro none i
    exact taleOf_ne_dropped none

end

theorem retirement_iff_awaited :
    taleOf 0 (outcome Machine.step awaited single).log = .woken ⟨true, 3⟩ ∧
    ∀ i, ((outcome Machine.step awaited single).slots i).state = .kFree →
      taleOf i (outcome Machine.step awaited single).log = .vacant ∨
      taleOf i (outcome Machine.step awaited single).log = .finished := by
  have reached : Reaches Machine.step Always single (outcome Machine.step awaited single) :=
    reaches_outcome (by decide +kernel)
  have retirement := retirement_iff reached
  exact ⟨by decide +kernel, retirement.1.mpr (retirement.2.2 (by decide +kernel))⟩

/-- A body yields `kNone`; a second pass follows. -/
def unpaused : List (Label 1 Unit) :=
  [.call (.arm .zero), .begin 0, .visit, .leave (.yield ⟨.kNone, 0, 0, 0, none⟩), .finish,
    .begin 1, .visit, .finish]

/-- It has lost its slot and is not entered again. -/
theorem retirement_premature :
    Reaches Machine.step Always single (outcome Machine.step unpaused single) ∧
    ((outcome Machine.step unpaused single).slots 0).state = .kFree ∧
    (outcome Machine.step unpaused single).log =
      [.armed 0 .zero, .entered 0 .zero, .left 0 false .kNone] :=
  ⟨reaches_outcome (by decide +kernel), by decide +kernel, by decide +kernel⟩

end Coact.Executor
