import Coact.Diag.Conservation

/-! The writer thread of `LogRtThread` and its `stop` (`diag/log_rtthread.hpp`,
`log_rtthread.cpp`). A pass of the writer pops from both lanes, looks at the stop flag and
at the sizes, and, if it has drained nothing, looks at the flag once more before it waits.
Producers and `stop` get in between any two of these accesses. A record that comes after
the pops of such a pass is lost if the flag is set before the second look. -/
namespace Coact.Diag
open Foundation LogRtThread

def kCriticalDrainBatch : Nat := 4

/-- Where the writer is. `critical i` is the pop of round `i` of the inner loop, which
goes on only after a success, so `drained_any` is known there. -/
inductive WriterPc where
  | critical (i : Nat)
  | emitCritical (i : Nat) (r : LogRecord)
  | normal (drained : Bool)
  | emitNormal (r : LogRecord)
  | firstLoad (drained : Bool)
  | sizeCritical (drained : Bool)
  | sizeNormal (drained : Bool)
  | secondLoad
  | waitBlock
  | join
  | exited

/-- The end of a pass that does not leave the loop. -/
def WriterPc.next (drained : Bool) : WriterPc := if drained then .critical 0 else .secondLoad

def WriterPc.left : WriterPc → Bool
  | .join | .exited => true
  | _ => false

/-- The places that the writer comes to only if it has seen the stop flag. -/
def WriterPc.sawStop : WriterPc → Bool
  | .sizeCritical _ | .sizeNormal _ | .join | .exited => true
  | _ => false

inductive StopPc where
  | notCalled | release | take | returned
  deriving DecidableEq, Repr

/-- `signalling` are the producers that have left the critical section and have not
signalled yet. `accepted` and `emitted` are kept for the proofs. -/
structure Adapter where
  logger : Logger
  signalling : Nat
  wakeSem : Nat
  joinSem : Nat
  stopRequested : Bool
  stopPc : StopPc
  writer : WriterPc
  accepted : List (LogLane × LogRecord)
  emitted : List (LogLane × LogRecord)

inductive Action where
  | record (isr : Bool) (level : LogLevel) (r : LogRecord)
  | signal
  | write
  | stop

inductive Blocked where
  | idle | semaphore | returned

namespace Adapter

def initial (cfg : LoggerConfig) : Adapter where
  logger := { Logger.fresh cfg with hooks := hooks }
  signalling := 0
  wakeSem := 0
  joinSem := 0
  stopRequested := false
  stopPc := .notCalled
  writer := .critical 0
  accepted := []
  emitted := []

/-- The critical section of a record. -/
def record (cfg : LoggerConfig) (a : Adapter) (isr : Bool) (level : LogLevel) (r : LogRecord) :
    Adapter :=
  { a with
    logger := (a.logger.recordImpl cfg isr level r).1
    signalling := a.signalling +
      if (a.logger.recordImpl cfg isr level r).2 && a.logger.canSignal isr then 1 else 0
    accepted := a.accepted ++
      if (a.logger.recordImpl cfg isr level r).2 then [(laneOf level, r)] else [] }

/-- `writer_run`, one access at a time. -/
def write (a : Adapter) : Except Blocked Adapter :=
  match a.writer with
  | .critical i =>
    match a.logger.popFromLane .kCritical with
    | (logger, some r) => .ok { a with logger := logger, writer := .emitCritical i r }
    | (logger, none) => .ok { a with logger := logger, writer := .normal (decide (0 < i)) }
  | .emitCritical i r => .ok { a with
      emitted := a.emitted ++ [(.kCritical, r)]
      writer := if i + 1 < kCriticalDrainBatch then .critical (i + 1) else .normal true }
  | .normal drained =>
    match a.logger.popFromLane .kNormal with
    | (logger, some r) => .ok { a with logger := logger, writer := .emitNormal r }
    | (logger, none) => .ok { a with logger := logger, writer := .firstLoad drained }
  | .emitNormal r => .ok { a with
      emitted := a.emitted ++ [(.kNormal, r)]
      writer := .firstLoad true }
  | .firstLoad drained => .ok { a with
      writer := if a.stopRequested then .sizeCritical drained else .next drained }
  | .sizeCritical drained => .ok { a with
      writer := if a.logger.size .kCritical = 0 then .sizeNormal drained else .next drained }
  | .sizeNormal drained => .ok { a with
      writer := if a.logger.size .kNormal = 0 then .join else .next drained }
  | .secondLoad => .ok { a with writer := if a.stopRequested then .join else .waitBlock }
  | .waitBlock =>
    if a.wakeSem = 0 then .error .semaphore
    else .ok { a with wakeSem := a.wakeSem - 1, writer := .critical 0 }
  | .join => .ok { a with joinSem := a.joinSem + 1, writer := .exited }
  | .exited => .error .returned

/-- `stop` of a started adapter. -/
def stop (a : Adapter) : Except Blocked Adapter :=
  match a.stopPc with
  | .notCalled => .ok { a with stopRequested := true, stopPc := .release }
  | .release => .ok { a with wakeSem := a.wakeSem + 1, stopPc := .take }
  | .take =>
    if a.joinSem = 0 then .error .semaphore
    else .ok { a with joinSem := a.joinSem - 1, stopPc := .returned }
  | .returned => .error .returned

def step (cfg : LoggerConfig) : Action → Adapter → Except Blocked Adapter
  | .record isr level r, a => .ok (a.record cfg isr level r)
  | .signal, a =>
    if a.signalling = 0 then .error .idle
    else .ok { a with signalling := a.signalling - 1, wakeSem := a.wakeSem + 1 }
  | .write, a => a.write
  | .stop, a => a.stop

/-- Producers have finished when `stop` is called and do not record after it. -/
def Quiescent : Action → Adapter → Prop
  | .record _ _ _, a => a.stopPc = .notCalled
  | .stop, a => a.stopPc = .notCalled → a.signalling = 0
  | .signal, _ | .write, _ => True

instance : ∀ (action : Action) (a : Adapter), Decidable (Quiescent action a)
  | .record _ _ _, a => inferInstanceAs (Decidable (a.stopPc = .notCalled))
  | .stop, a => inferInstanceAs (Decidable (a.stopPc = .notCalled → a.signalling = 0))
  | .signal, _ | .write, _ => isTrue trivial

/-- Nothing is behind the writer: if it is past a pop in a pass that has drained nothing, it
has left no record there that this pass does not come to. -/
def Settled (a : Adapter) : Prop :=
  match a.writer with
  | .normal false => a.logger.contents .kCritical = [] ∨ a.logger.contents .kNormal ≠ []
  | .firstLoad false | .sizeCritical false | .sizeNormal false | .secondLoad | .join | .exited =>
    ∀ lane, a.logger.contents lane = []
  | _ => True

def acceptedOf (a : Adapter) (lane : LogLane) : List LogRecord :=
  a.accepted.filterMap fun entry => if entry.1 = lane then some entry.2 else none

def emittedOf (a : Adapter) (lane : LogLane) : List LogRecord :=
  a.emitted.filterMap fun entry => if entry.1 = lane then some entry.2 else none

end Adapter

/-- The record that the writer has popped and not emitted. -/
def WriterPc.inHand : WriterPc → LogLane → List LogRecord
  | .emitCritical _ r, .kCritical | .emitNormal r, .kNormal => [r]
  | _, _ => []

namespace Adapter
variable {cfg : LoggerConfig} {a : Adapter} {action : Action}

/-- A record is popped from a lane. -/
structure Takes (cfg : LoggerConfig) (l : Logger) (lane : LogLane) (r : LogRecord) (l' : Logger) :
    Prop where
  first : l.contents lane = r :: l'.contents lane
  others : ∀ lane', lane' ≠ lane → l'.contents lane' = l.contents lane'
  ready : l'.Ready cfg

theorem takes_of_pop {l : Logger} (ready : l.Ready cfg) (popped : l.popFromLane lane = (l', some r)) :
    Takes cfg l lane r l' := by
  rcases ready.popFromLane_cases lane with ⟨_, _, done, first, others, kept⟩ | ⟨_, done⟩
  · cases done.symm.trans popped
    exact ⟨first, others, kept⟩
  · cases done.symm.trans popped

theorem empty_of_pop {l : Logger} (ready : l.Ready cfg) (popped : l.popFromLane lane = (l', none)) :
    l' = l ∧ l.contents lane = [] := by
  rcases ready.popFromLane_cases lane with ⟨_, _, done, _⟩ | ⟨empty, done⟩
  · cases done.symm.trans popped
  · cases done.symm.trans popped
    exact ⟨rfl, empty⟩

theorem contents_of_size (ready : a.logger.Ready cfg) {lane : LogLane}
    (zero : a.logger.size lane = 0) : a.logger.contents lane = [] := by
  rw [Logger.size_eq ready.bound] at zero
  exact List.length_eq_zero_iff.mp zero

/-- Where each accepted record is, and that `stop` returns after the writer. -/
structure Books (cfg : LoggerConfig) (a : Adapter) : Prop where
  ready : a.logger.Ready cfg
  order : ∀ lane, a.acceptedOf lane =
    a.emittedOf lane ++ a.writer.inHand lane ++ a.logger.contents lane
  joined : 0 < a.joinSem ∨ a.stopPc = .returned → a.writer = .exited

theorem books_initial (cfg : LoggerConfig) : Books cfg (initial cfg) where
  ready := ⟨rfl, fun _ => rfl⟩
  order _ := rfl
  joined posted := by
    rcases posted with posted | posted <;> cases posted

section
variable {lane : LogLane} {entry : LogLane × LogRecord} {entries : List (LogLane × LogRecord)}

theorem filterMap_entry : (entries ++ [entry]).filterMap
    (fun entry => if entry.1 = lane then some entry.2 else none) =
    entries.filterMap (fun entry => if entry.1 = lane then some entry.2 else none) ++
      if entry.1 = lane then [entry.2] else [] := by
  by_cases here : entry.1 = lane <;> simp [here]

end

theorem Books.record (books : Books cfg a) {level : LogLevel} :
    Books cfg (a.record cfg isr level r) where
  ready := books.ready.recordImpl
  order lane := by
    have contents : (a.logger.recordImpl cfg isr level r).1.contents lane = _ :=
      books.ready.contents_recordImpl
    have kept := books.order lane
    unfold acceptedOf at kept ⊢
    dsimp only [Adapter.record]
    rw [contents]
    cases (a.logger.recordImpl cfg isr level r).2 with
    | false =>
      simp only [Bool.false_eq_true, false_and, if_false, List.append_nil]
      exact kept
    | true =>
      simp only [if_true, true_and]
      rw [filterMap_entry, kept, List.append_assoc]
      simp only [eq_comm]
      rfl
  joined := books.joined

theorem Takes.lane {lane lane' : LogLane} (takes : Takes cfg l lane r l') :
    l.contents lane' = (if lane = lane' then [r] else []) ++ l'.contents lane' := by
  by_cases here : lane = lane'
  · subst here
    rw [if_pos rfl, takes.first]
    rfl
  · rw [if_neg here, takes.others lane' (Ne.symm here)]
    rfl

theorem Books.unposted (books : Books cfg a) (running : a.writer ≠ .exited) {pc : WriterPc} :
    0 < a.joinSem ∨ a.stopPc = .returned → pc = .exited :=
  fun posted => (running (books.joined posted)).elim

theorem Books.pass (books : Books cfg a) (place : a.writer = pc) (running : pc ≠ .exited)
    (free : ∀ lane, pc.inHand lane = []) (free' : ∀ lane, pc'.inHand lane = []) {wakeSem : Nat} :
    Books cfg { a with writer := pc', wakeSem := wakeSem } where
  ready := books.ready
  order lane := by
    have kept := books.order lane
    rw [place, free] at kept
    exact kept.trans (by rw [free']; rfl)
  joined := books.unposted (place ▸ running)

theorem next_inHand {drained : Bool} {lane : LogLane} :
    (WriterPc.next drained).inHand lane = [] := by
  cases drained <;> rfl

section
variable (books : Books cfg a)
include books

theorem Books.pop (place : a.writer = pc) (running : pc ≠ .exited)
    (takes : Takes cfg a.logger lane r l) (free : ∀ lane, pc.inHand lane = [])
    (held : ∀ lane', pc'.inHand lane' = if lane = lane' then [r] else []) :
    Books cfg { a with logger := l, writer := pc' } where
  ready := takes.ready
  order lane' := by
    have kept := books.order lane'
    rw [place, free, takes.lane, List.append_nil, ← List.append_assoc, ← held] at kept
    exact kept
  joined := books.unposted (place ▸ running)

theorem Books.emit (place : a.writer = pc) (running : pc ≠ .exited)
    (held : ∀ lane', pc.inHand lane' = if lane = lane' then [r] else [])
    (free : ∀ lane, pc'.inHand lane = []) :
    Books cfg { a with emitted := a.emitted ++ [(lane, r)], writer := pc' } where
  ready := books.ready
  order lane' := by
    have kept := books.order lane'
    rw [place, held] at kept
    refine kept.trans ?_
    unfold emittedOf
    rw [filterMap_entry, free, List.append_nil]
  joined := books.unposted (place ▸ running)

theorem Books.write (ran : a.write = .ok b) : Books cfg b := by
  unfold Adapter.write at ran
  split at ran
  case h_1 place | h_3 place =>
    split at ran <;> cases ran
    · refine books.pop place (by simp) (takes_of_pop books.ready ‹_›) (fun _ => rfl) fun lane => ?_
      cases lane <;> rfl
    · obtain ⟨rfl, -⟩ := empty_of_pop books.ready ‹_›
      exact books.pass place (by simp) (fun _ => rfl) fun _ => rfl
  case h_2 place =>
    cases ran
    refine books.emit place (by simp) (fun lane => ?_) fun _ => ?_
    · cases lane <;> rfl
    · split <;> rfl
  case h_4 place =>
    cases ran
    refine books.emit place (by simp) (fun lane => ?_) fun _ => rfl
    cases lane <;> rfl
  case h_5 place | h_6 place | h_7 place =>
    cases ran
    refine books.pass place (by simp) (fun _ => rfl) fun _ => ?_
    split
    · rfl
    · exact next_inHand
  case h_8 place =>
    cases ran
    refine books.pass place (by simp) (fun _ => rfl) fun _ => ?_
    split <;> rfl
  case h_9 place =>
    split at ran <;> cases ran
    exact books.pass place (by simp) (fun _ => rfl) fun _ => rfl
  case h_10 place =>
    cases ran
    refine ⟨books.ready, fun lane => ?_, fun _ => rfl⟩
    have kept := books.order lane
    rw [place] at kept
    exact kept
  case h_11 => cases ran

theorem Books.step (ran : Adapter.step cfg action a = .ok b) : Books cfg b := by
  cases action with
  | record =>
    cases ran
    exact books.record
  | signal =>
    simp only [Adapter.step] at ran
    split at ran <;> cases ran
    exact { books with }
  | write => exact books.write ran
  | stop =>
    simp only [Adapter.step, Adapter.stop] at ran
    (repeat' split at ran) <;> cases ran
    · exact { books with joined := fun posted => books.joined (posted.imp_right (by simp)) }
    · exact { books with joined := fun posted => books.joined (posted.imp_right (by simp)) }
    · exact { books with joined := fun _ => books.joined (.inl (Nat.pos_of_ne_zero ‹_›)) }

theorem Books.run (reached : Reaches (Adapter.step cfg) Quiescent a b) : Books cfg b :=
  reached.invariant (P := Books cfg) books fun _ _ _ books _ ran => books.step ran

end

/-- After the call of `stop`: no producer runs, and a writer that is at the size of the
normal lane has found the critical one empty. -/
structure Stopping (a : Adapter) : Prop where
  requested : a.stopRequested = true
  called : a.stopPc ≠ .notCalled
  checked : ∀ drained, a.writer = .sizeNormal drained → a.logger.contents .kCritical = []

theorem next_ne_sizeNormal : WriterPc.next drained ≠ .sizeNormal d := by
  cases drained <;> simp [WriterPc.next]

theorem Stopping.write (stopping : Stopping a) (ready : a.logger.Ready cfg)
    (ran : a.write = .ok b) : Stopping b ∧ (b.Settled ↔ a.Settled) := by
  unfold Adapter.write at ran
  split at ran
  case h_1 i place =>
    split at ran <;> cases ran
    · exact ⟨{ stopping with checked := by simp }, by simp [Settled, place]⟩
    · obtain ⟨rfl, empty⟩ := empty_of_pop ready ‹_›
      refine ⟨{ stopping with checked := by simp }, ?_⟩
      unfold Settled
      rw [place]
      cases i with
      | zero => exact ⟨fun _ => trivial, fun _ => .inl empty⟩
      | succ => exact .rfl
  case h_2 place =>
    cases ran
    split <;> exact ⟨{ stopping with checked := by simp }, by simp [Settled, place]⟩
  case h_3 drained place =>
    split at ran <;> cases ran
    · refine ⟨{ stopping with checked := by simp }, ?_⟩
      unfold Settled
      rw [place]
      cases drained
      · refine ⟨fun _ => .inr ?_, fun _ => trivial⟩
        rw [(takes_of_pop ready ‹_›).first]
        exact List.cons_ne_nil _ _
      · exact .rfl
    · obtain ⟨rfl, empty⟩ := empty_of_pop ready ‹_›
      refine ⟨{ stopping with checked := by simp }, ?_⟩
      unfold Settled
      rw [place]
      cases drained
      · constructor
        · intro all
          exact .inl (all .kCritical)
        · rintro (critical | normal) lane
          · cases lane
            · exact critical
            · exact empty
          · exact (normal empty).elim
      · exact .rfl
  case h_4 place =>
    cases ran
    exact ⟨{ stopping with checked := by simp }, by simp [Settled, place]⟩
  case h_5 drained place =>
    cases ran
    rw [if_pos stopping.requested]
    refine ⟨{ stopping with checked := by simp }, ?_⟩
    unfold Settled
    rw [place]
    cases drained <;> exact .rfl
  case h_6 drained place =>
    cases ran
    split
    · refine ⟨{ stopping with checked := fun _ _ => contents_of_size ready ‹_› }, ?_⟩
      unfold Settled
      rw [place]
      cases drained <;> exact .rfl
    · refine ⟨{ stopping with checked := by simp [next_ne_sizeNormal] }, ?_⟩
      unfold Settled
      rw [place]
      cases drained <;> exact .rfl
  case h_7 drained place =>
    cases ran
    split
    · have none : ∀ lane, a.logger.contents lane = [] := by
        intro lane
        cases lane
        · exact stopping.checked drained place
        · exact contents_of_size ready ‹_›
      refine ⟨{ stopping with checked := by simp }, ?_⟩
      unfold Settled
      rw [place]
      cases drained
      · exact .rfl
      · exact ⟨fun _ => trivial, fun _ => none⟩
    · refine ⟨{ stopping with checked := by simp [next_ne_sizeNormal] }, ?_⟩
      unfold Settled
      rw [place]
      cases drained <;> exact .rfl
  case h_8 place =>
    cases ran
    rw [if_pos stopping.requested]
    exact ⟨{ stopping with checked := by simp }, by simp [Settled, place]⟩
  case h_9 place =>
    split at ran <;> cases ran
    exact ⟨{ stopping with checked := by simp }, by simp [Settled, place]⟩
  case h_10 place =>
    cases ran
    exact ⟨{ stopping with checked := by simp }, by simp [Settled, place]⟩
  case h_11 => cases ran

theorem Stopping.step (stopping : Stopping a) (ready : a.logger.Ready cfg)
    (quiet : Quiescent action a) (ran : Adapter.step cfg action a = .ok b) :
    Stopping b ∧ (b.Settled ↔ a.Settled) := by
  cases action with
  | record => exact (stopping.called quiet).elim
  | signal =>
    simp only [Adapter.step] at ran
    split at ran <;> cases ran
    exact ⟨{ stopping with }, .rfl⟩
  | write => exact stopping.write ready ran
  | stop =>
    simp only [Adapter.step, Adapter.stop] at ran
    (repeat' split at ran) <;> cases ran
    · exact (stopping.called ‹_›).elim
    · exact ⟨{ stopping with called := by simp }, .rfl⟩
    · exact ⟨{ stopping with called := by simp }, .rfl⟩

theorem Stopping.run (books : Books cfg a) (stopping : Stopping a)
    (reached : Reaches (Adapter.step cfg) Quiescent a b) : b.Settled ↔ a.Settled := by
  refine (reached.invariant (P := fun b => Books cfg b ∧ Stopping b ∧ (b.Settled ↔ a.Settled))
    ⟨books, stopping, .rfl⟩ ?_).2.2
  rintro action b c ⟨books, stopping, same⟩ quiet ran
  obtain ⟨stopping, same'⟩ := stopping.step books.ready quiet ran
  exact ⟨books.step ran, stopping, same'.trans same⟩

/-- Before `stop` is called the writer has not seen the flag. -/
def Early (a : Adapter) : Prop :=
  a.stopPc = .notCalled → a.stopRequested = false ∧ a.writer.sawStop = false

theorem Early.write (early : Early a) (ran : a.write = .ok b) : Early b := by
  unfold Adapter.write at ran
  split at ran
  case h_5 drained place =>
    cases ran
    intro uncalled
    have unseen := early uncalled
    rw [if_neg (by simp [unseen.1])]
    exact ⟨unseen.1, by cases drained <;> rfl⟩
  case h_8 place =>
    cases ran
    intro uncalled
    have unseen := early uncalled
    rw [if_neg (by simp [unseen.1])]
    exact ⟨unseen.1, rfl⟩
  case h_6 place | h_7 place | h_10 place =>
    cases ran
    intro uncalled
    have unseen := (early uncalled).2
    rw [place] at unseen
    cases unseen
  all_goals
    (repeat' split at ran) <;> cases ran <;> exact fun uncalled => ⟨(early uncalled).1, rfl⟩

theorem Early.reached (reached : Reaches (Adapter.step cfg) Quiescent (initial cfg) a) :
    Early a := by
  refine reached.invariant (P := Early) (fun _ => ⟨rfl, rfl⟩) ?_
  intro action a b early _ ran
  cases action with
  | record =>
    cases ran
    exact early
  | signal =>
    simp only [Adapter.step] at ran
    split at ran <;> cases ran
    exact early
  | write => exact early.write ran
  | stop =>
    simp only [Adapter.step, Adapter.stop] at ran
    (repeat' split at ran) <;> cases ran <;> intro uncalled <;> cases uncalled

/-- If the writer has left its loop, the lanes are empty iff everything is settled. -/
theorem settled_of_left (left : a.writer.left = true) :
    a.Settled ↔ ∀ lane, a.logger.contents lane = [] := by
  unfold Settled
  cases place : a.writer with
  | join | exited => exact .rfl
  | _ => simp [place, WriterPc.left] at left

theorem Books.emitted_iff (books : Books cfg a) (left : a.writer.left = true) :
    (∀ lane, a.emittedOf lane = a.acceptedOf lane) ↔ ∀ lane, a.logger.contents lane = [] := by
  have none : ∀ lane, a.writer.inHand lane = [] := by
    intro lane
    cases place : a.writer with
    | join | exited => rfl
    | _ => simp [place, WriterPc.left] at left
  refine forall_congr' fun lane => ?_
  rw [books.order lane, none, List.append_nil]
  exact List.self_eq_append_right

end Adapter

/-- When the writer leaves its loop the lanes are empty, and every accepted record has been
emitted once and in order, exactly if nothing was behind the writer when `stop` set its
flag; and `stop` does not return before the writer has left. -/
theorem stop_drains_iff_settled {cfg : LoggerConfig} {a b c : Adapter}
    (reached : Reaches (Adapter.step cfg) Adapter.Quiescent (.initial cfg) a)
    (uncalled : a.stopPc = .notCalled) (called : Adapter.step cfg .stop a = .ok b)
    (run : Reaches (Adapter.step cfg) Adapter.Quiescent b c) :
    (c.writer.left = true → ((∀ lane, c.logger.contents lane = []) ↔ a.Settled)) ∧
    (c.writer.left = true → ((∀ lane, c.emittedOf lane = c.acceptedOf lane) ↔ a.Settled)) ∧
    (c.stopPc = .returned → c.writer.left = true) := by
  have before := (Adapter.books_initial cfg).run reached
  have early := (Adapter.Early.reached reached uncalled).2
  have after := before.step called
  have later := after.run run
  have stopping : b.Stopping ∧ (b.Settled ↔ a.Settled) := by
    rw [Adapter.step, Adapter.stop, uncalled] at called
    cases called
    refine ⟨⟨rfl, by simp, fun drained place => ?_⟩, .rfl⟩
    have seen : a.writer = .sizeNormal drained := place
    rw [seen] at early
    cases early
  have decided := (stopping.1.run after run).trans stopping.2
  refine ⟨?_, ?_, ?_⟩
  · intro left
    exact (Adapter.settled_of_left left).symm.trans decided
  · intro left
    exact (later.emitted_iff left).trans ((Adapter.settled_of_left left).symm.trans decided)
  · intro returned
    have exited := later.joined (.inr returned)
    rw [exited]
    rfl

/-- A record that is there before the writer's first pass, and `stop` after it. -/
def promptRecord : Adapter :=
  outcome (Adapter.step config)
    [.record false .kInfo ⟨0, 1, 2, 3, 0, 0, 0⟩, .signal] (.initial config)

def promptStop : Adapter := { promptRecord with stopRequested := true, stopPc := .release }

def promptEnd : Adapter :=
  outcome (Adapter.step config)
    [.stop, .write, .write, .write, .write, .write, .write, .write, .stop] promptStop

theorem stop_drains_iff_settled_prompt : promptEnd.stopPc = .returned ∧
    ∀ lane, promptEnd.emittedOf lane = promptEnd.acceptedOf lane := by
  have settled : promptRecord.Settled := trivial
  have drains := stop_drains_iff_settled (a := promptRecord) (b := promptStop) (c := promptEnd)
    (reaches_decided (by decide +kernel))
    rfl rfl
    (reaches_decided (by decide +kernel))
  have returned : promptEnd.stopPc = .returned := by decide +kernel
  exact ⟨returned, (drains.2.1 (drains.2.2 returned)).mpr settled⟩

/-- A record and its signal while the writer is between its pops and the first look at the
flag. -/
def latecomer : List Action :=
  [.write, .write, .record false .kInfo ⟨0, 1, 2, 3, 0, 0, 0⟩, .signal]

/-- The writer sees the flag, a record in the normal lane, and the flag again, and leaves. -/
def lateStop : List Action :=
  latecomer ++ [Action.stop, .stop, .write, .write, .write, .write, .write, .stop]

/-- `stop` returns, and an accepted record is still in its lane. -/
theorem stop_loses_record :
    Reaches (Adapter.step config) Adapter.Quiescent (.initial config)
      (outcome (Adapter.step config) lateStop (.initial config)) ∧
    (outcome (Adapter.step config) lateStop (.initial config)).stopPc =
      .returned ∧
    (outcome (Adapter.step config) lateStop (.initial config)).emitted = [] ∧
    (outcome (Adapter.step config) lateStop
      (.initial config)).logger.contents .kNormal = [⟨0, 1, 2, 3, 0, 0, 0⟩] := by
  refine ⟨?_, by decide +kernel, by decide +kernel, by decide +kernel⟩
  exact reaches_decided (by decide +kernel)

end Coact.Diag
