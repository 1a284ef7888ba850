import Coact.Coro.Group

/-! The reports of a group. Its log has one shape: observations that do not satisfy the
policy, then one that does, directly followed by the one call of `complete` on the
aggregate task, and after it only further returns. -/
namespace Coact.Coro.Group
open Foundation

variable {T : Type} {capacity n m : Nat}

/-- What may be reported before the group is settled. -/
def Event.Open (liveCount : UInt16) : Event → Prop
  | .observed call status => call.satisfied liveCount status = false
  | .completed _ _ _ _ => False
  | .returned result => result ≠ .ok true
  | .released _ => True

/-- What may be reported after. -/
def Event.Quiet : Event → Prop
  | .observed _ _ | .completed _ _ _ _ => False
  | .returned _ | .released _ => True

/-- The aggregate task has no waiter, or its one completion event was delivered to it. -/
def Delivered (waiter : Option TargetId) (delivery : Delivery) (posted : Option Posting) : Prop :=
  ∃ target, waiter = some target ∧
    (target = kInvalidTarget ∧ posted = none ∨
      target ≠ kInvalidTarget ∧ ∃ posting disposition, posted = some posting ∧
        posting.target = target ∧ delivery = .submitted disposition ∧
        Registry.delivered disposition = true)

def Stage.counting : Stage capacity → Bool
  | .look _ | .check _ | .blame _ => true
  | .judge | .done _ => false

/-- The group has been settled: by the call of `complete` right after the first observation
that satisfied its policy. Nothing is counted or completed after it. -/
structure Closed (w : World T capacity n m) (call : Call) (before : List Event)
    (waiter : Option TargetId) (delivery : Delivery) (answer : Answer GroupStatus)
    (rest : List Event) : Prop where
  log : w.log = before ++ .observed call w.group.status ::
    .completed w.group.status waiter delivery answer :: rest
  early : ∀ e ∈ before, e.Open w.group.liveCount
  satisfied : call.satisfied w.group.liveCount w.group.status = true
  delivered : answer.result.isOk = true → Delivered waiter delivery answer.posted
  quiet : ∀ e ∈ rest, e.Quiet
  settled : w.group.isValid = true → w.group.settled = true
  running : ∀ call stage, w.call = some (call, stage) →
    w.group.isValid = true ∧ stage = .done (World.verdict answer.result)

/-- The three phases of a group. -/
inductive Shaped (w : World T capacity n m) : Prop where
  | opened : (∀ e ∈ w.log, e.Open w.group.liveCount) → w.group.settled = false →
      (∀ call stage, w.call = some (call, stage) →
        w.group.isValid = true ∧ stage.counting = true) → Shaped w
  | judging {call before} : w.call = some (call, .judge) → w.group.isValid = true →
      w.group.settled = false → w.log = before ++ [.observed call w.group.status] →
      (∀ e ∈ before, e.Open w.group.liveCount) → Shaped w
  | closed {call before waiter delivery answer rest} :
      Closed w call before waiter delivery answer rest → Shaped w

section
variable {r : Registry T n} {delivery : Delivery} {op : Op T} {id : TaskId}
  {posted : Option Posting}

theorem delivered_of_concluded (effect : Effect r delivery op r' (.concluded id) posted) :
    Delivered ((r.findLocked id).map fun i => (r.slots i).waiter) delivery posted := by
  cases effect with
  | @silent _ _ _ _ found _ silent =>
    rw [found]
    exact ⟨_, rfl, .inl ⟨silent, rfl⟩⟩
  | @posted _ _ _ disposition _ found _ waited submitted arrived =>
    rw [found]
    exact ⟨_, rfl, .inr ⟨waited, _, disposition, rfl, rfl, submitted, arrived⟩⟩

theorem delivered_complete {value : T}
    (done : (r.apply (.complete id value) delivery).2.result.isOk = true) :
    Delivered ((r.findLocked id).map fun i => (r.slots i).waiter) delivery
      (r.apply (.complete id value) delivery).2.posted := by
  have effect := effect_apply r delivery (.complete id value)
  cases result : (r.apply (.complete id value) delivery).2.result with
  | error =>
    rw [result] at done
    cases done
  | ok =>
    rw [result] at effect
    exact delivered_of_concluded effect

end

namespace Shaped
variable {w w' : World T capacity n m} {label : Label T}

theorem forall_append {P : Event → Prop} {log : List Event}
    (before : ∀ e' ∈ log, P e') (last : P e) : ∀ e' ∈ log ++ [e], P e' := by
  intro e' mem
  rcases List.mem_append.mp mem with earlier | new
  · exact before e' earlier
  · rw [List.mem_singleton.mp new]
    exact last

theorem promised (valid : w.group.isValid = true) : w.group.promise.isValid = true :=
  w.group.promised (of_decide_eq_true valid)

section
variable (shaped : Shaped w)
include shaped

theorem count {stage stage' : Stage capacity}
    (place : w.call = some (call, stage)) (counting : stage.counting = true)
    (counting' : stage'.counting = true) (liveCount : g.liveCount = w.group.liveCount)
    (settled : g.settled = w.group.settled) (valid : g.isValid = w.group.isValid) :
    Shaped { w with group := g, call := some (call, stage') } := by
  cases shaped with
  | opened early unsettled running =>
    refine .opened ?_ (settled.trans unsettled) ?_
    · rw [liveCount]
      exact early
    · intro call' stage'' same
      cases same
      exact ⟨valid.trans (running call stage place).1, counting'⟩
  | judging there =>
    cases place.symm.trans there
    cases counting
  | closed closed =>
    obtain rfl := (closed.running call stage place).2
    cases counting

/-- Reports outside of a call, and the return of a call that has settled the group. -/
theorem report (judged : ∀ call, w.call ≠ some (call, .judge))
    (log : w'.log = w.log ++ [e]) (early : w.group.settled = false → e.Open w.group.liveCount)
    (quiet : e.Quiet) (call : w'.call = none) (status : w'.group.status = w.group.status)
    (liveCount : w'.group.liveCount = w.group.liveCount)
    (settled : w.group.settled = false → w'.group.settled = false)
    (valid : w'.group.isValid = true → w.group.isValid = true ∧ w'.group.settled = w.group.settled) :
    Shaped w' := by
  cases shaped with
  | opened before unsettled =>
    refine .opened ?_ (settled unsettled) ?_
    · rw [log, liveCount]
      exact forall_append before (early unsettled)
    · intro call' stage never
      cases call.symm.trans never
  | judging place => exact (judged _ place).elim
  | @closed call' before waiter delivery answer rest closed =>
    have shape : w'.log = before ++ .observed call' w'.group.status ::
        .completed w'.group.status waiter delivery answer :: (rest ++ [e]) := by
      rw [log, closed.log, status, List.append_assoc, List.cons_append, List.cons_append]
    refine .closed ⟨shape, ?_, ?_, closed.delivered, forall_append closed.quiet quiet, ?_, ?_⟩
    · rw [liveCount]
      exact closed.early
    · rw [liveCount, status]
      exact closed.satisfied
    · intro still
      obtain ⟨before, same⟩ := valid still
      exact same.trans (closed.settled before)
    · intro call'' stage never
      cases call.symm.trans never

theorem returns (judged : ∀ call, w.call ≠ some (call, .judge))
    (early : w.group.settled = false → result ≠ .ok true) : Shaped (w.returns result) :=
  shaped.report judged rfl early trivial rfl rfl rfl id fun valid => ⟨valid, rfl⟩

theorem settled_of_done {call : Call} {result : Except GroupError Bool}
    (place : w.call = some (call, .done result)) : w.group.settled = true := by
  cases shaped with
  | opened _ _ running => cases (running _ _ place).2
  | judging there => cases place.symm.trans there
  | closed closed => exact closed.settled (closed.running _ _ place).1

theorem judging_of_judge {call : Call} (place : w.call = some (call, .judge)) :
    w.group.isValid = true ∧ w.group.settled = false ∧ ∃ before,
      w.log = before ++ [.observed call w.group.status] ∧
      ∀ e ∈ before, e.Open w.group.liveCount := by
  cases shaped with
  | opened _ _ running => cases (running _ _ place).2
  | judging there valid unsettled log early =>
    cases place.symm.trans there
    exact ⟨valid, unsettled, _, log, early⟩
  | closed closed => cases (closed.running _ _ place).2

theorem enter (idle : w.call = none) : Shaped (w.enter call) := by
  unfold World.enter
  split
  · exact shaped.returns (by simp [idle]) (by simp)
  rename_i valid
  split
  · exact shaped.returns (by simp [idle]) (by simp [*])
  · rename_i unsettled
    cases shaped with
    | opened early unsettled =>
      refine .opened early unsettled fun call stage same => ?_
      cases same
      exact ⟨Bool.eq_true_of_not_eq_false valid, rfl⟩
    | judging place => cases idle.symm.trans place
    | closed closed =>
      exact (unsettled (closed.settled (Bool.eq_true_of_not_eq_false valid))).elim

theorem look (place : w.call = some (call, .look i)) : Shaped (w.look call i) := by
  unfold World.look
  split
  · split
    · exact shaped.count place rfl rfl rfl rfl rfl
    · split <;> exact shaped.count place rfl rfl rfl rfl rfl
  · cases shaped with
    | opened early unsettled running =>
      exact .judging rfl (running _ _ place).1 unsettled rfl early
    | judging there => cases place.symm.trans there
    | closed closed => cases (closed.running _ _ place).2

theorem judge (place : w.call = some (call, .judge)) : Shaped (w.judge call delivery) := by
  obtain ⟨valid, unsettled, before, log, early⟩ := shaped.judging_of_judge place
  unfold World.judge
  split
  · rename_i satisfied
    rw [if_neg (by simp [valid, unsettled, promised valid])]
    have shape : w.log ++ [.completed w.group.status w.waiter delivery (w.complete delivery).2] =
        before ++ .observed call w.group.status ::
          .completed w.group.status w.waiter delivery (w.complete delivery).2 :: [] := by
      rw [log, List.append_assoc]
      rfl
    refine .closed ⟨shape, early, satisfied, delivered_complete, ?_, fun _ => rfl, ?_⟩
    · intro e never
      cases never
    · intro call' stage same
      cases same
      exact ⟨valid, rfl⟩
  · rename_i unsatisfied
    refine .opened ?_ unsettled fun call stage never => by cases never
    rw [World.returns_log, log]
    refine forall_append (forall_append early ?_) (by simp [Event.Open])
    exact Bool.eq_false_of_not_eq_true unsatisfied

theorem release (idle : w.call = none) : Shaped w.release := by
  unfold World.release
  split
  · exact shaped.report (by simp [idle]) rfl (fun _ => trivial) trivial idle rfl rfl id
      fun valid => ⟨valid, rfl⟩
  · refine shaped.report (by simp [idle]) rfl (fun _ => trivial) trivial idle rfl rfl
      (fun _ => rfl) fun never => ?_
    exact ((of_decide_eq_true never) rfl).elim

theorem advance (place : w.call = some (call, stage)) : Shaped (w.advance call delivery stage) := by
  cases stage with
  | look => exact shaped.look place
  | check =>
    rw [World.advance, World.check]
    split
    · split <;> exact shaped.count place rfl rfl rfl rfl rfl
    · exact shaped.count place rfl rfl rfl rfl rfl
  | blame => exact shaped.count place rfl rfl rfl rfl rfl
  | judge => exact shaped.judge place
  | done => exact shaped.returns (by simp [place]) (by simp [shaped.settled_of_done place])

theorem step (ran : World.step label w = .ok w') : Shaped w' := by
  cases label with
  | evaluate =>
    rw [World.step] at ran
    split at ran <;> cases ran
    exact shaped.enter ‹_›
  | proceed =>
    rw [World.step] at ran
    split at ran <;> cases ran
    exact shaped.advance ‹_›
  | release =>
    rw [World.step] at ran
    split at ran <;> cases ran
    exact shaped.release ‹_›
  | input | aggregate =>
    cases ran
    cases shaped with
    | opened early unsettled running => exact .opened early unsettled running
    | judging place valid unsettled log early => exact .judging place valid unsettled log early
    | closed closed => exact .closed { closed with }

end

theorem reached {start : World T capacity n m}
    (reached : Reaches World.step allowed start w) (initial : Shaped start) : Shaped w :=
  reached.invariant initial fun _ _ _ shaped _ ran => shaped.step ran

theorem closed_of_late (shaped : Shaped w) (there : e ∈ w.log)
    (late : ¬ e.Open w.group.liveCount) (report : ∀ call status, e ≠ .observed call status) :
    ∃ call before waiter delivery answer rest,
      Closed w call before waiter delivery answer rest := by
  cases shaped with
  | opened early => exact (late (early e there)).elim
  | judging _ _ _ log early =>
    rw [log] at there
    rcases List.mem_append.mp there with before | last
    · exact (late (early e before)).elim
    · exact (report _ _ (List.mem_singleton.mp last)).elim
  | closed closed => exact ⟨_, _, _, _, _, _, closed⟩

variable {answer : Answer GroupStatus}

theorem closed_of_completed (shaped : Shaped w) {status : GroupStatus} {waiter : Option TargetId}
    {delivery : Delivery} (there : .completed status waiter delivery answer ∈ w.log) :
    ∃ call before waiter delivery answer rest, Closed w call before waiter delivery answer rest :=
  shaped.closed_of_late there id fun _ _ => by simp

theorem completed_unique (shaped : Shaped w) {status status' : GroupStatus}
    {waiter waiter' : Option TargetId} {delivery delivery' : Delivery}
    (there : .completed status waiter delivery answer ∈ w.log)
    (there' : .completed status' waiter' delivery' answer' ∈ w.log) : answer = answer' := by
  obtain ⟨call, before, waiter₀, delivery₀, answer₀, rest, closed⟩ := shaped.closed_of_completed there
  have own {status : GroupStatus} {waiter : Option TargetId} {delivery : Delivery}
      {answer : Answer GroupStatus} (there : .completed status waiter delivery answer ∈ w.log) :
      answer = answer₀ := by
    rw [closed.log] at there
    simp only [List.mem_append, List.mem_cons] at there
    rcases there with before | never | same | after
    · exact (closed.early _ before).elim
    · cases never
    · cases same
      rfl
    · exact (closed.quiet _ after).elim
  rw [own there, own there']

theorem completed_before (shaped : Shaped w) {before rest : List Event}
    (split : w.log = before ++ .returned (.ok true) :: rest) :
    ∃ status waiter delivery answer, .completed status waiter delivery answer ∈ before ∧
      (answer.result.isOk = true → Delivered waiter delivery answer.posted) := by
  have there : .returned (.ok true) ∈ w.log := by
    rw [split]
    exact List.mem_append_right _ List.mem_cons_self
  have late : ¬ Event.Open w.group.liveCount (.returned (.ok true)) := fun early => early rfl
  obtain ⟨call, before₀, waiter, delivery, answer, rest₀, closed⟩ :=
    shaped.closed_of_late there late fun _ _ => by simp
  refine ⟨w.group.status, waiter, delivery, answer, ?_, closed.delivered⟩
  rw [closed.log] at split
  rcases List.append_eq_append_iff.mp split with ⟨middle, rfl, tail⟩ | ⟨middle, same, tail⟩
  · -- The report comes after the observations, so it is neither the last one nor `complete`.
    cases middle with
    | nil => cases tail
    | cons _ middle =>
      obtain ⟨-, tail'⟩ := List.cons.inj tail
      cases middle with
      | nil => cases tail'
      | cons =>
        obtain ⟨rfl, -⟩ := List.cons.inj tail'
        simp
  · cases middle with
    | nil => cases tail
    | cons =>
      obtain ⟨rfl, -⟩ := List.cons.inj tail
      refine (late (closed.early _ ?_)).elim
      rw [same]
      exact List.mem_append_right _ List.mem_cons_self

end Shaped

section
variable {w : World T capacity n m}

/-- `complete` on the aggregate task has failed. -/
def World.Failed (w : World T capacity n m) : Prop :=
  ∃ status waiter delivery answer, .completed status waiter delivery answer ∈ w.log ∧
    answer.result.isOk = false

/-- Every `success(true)` of `evaluate` comes after a call of `complete` that succeeded and whose
event was delivered to the waiter, if there is one. -/
def Truthful (log : List Event) : Prop :=
  ∀ before rest, log = before ++ Event.returned (.ok true) :: rest →
    ∃ status waiter delivery answer, .completed status waiter delivery answer ∈ before ∧
      answer.result.isOk = true ∧ Delivered waiter delivery answer.posted

theorem Shaped.truthful (shaped : Shaped w) (sound : ¬ w.Failed) : Truthful w.log := by
  intro before rest split
  obtain ⟨status, waiter, delivery, answer, there, delivered⟩ := shaped.completed_before split
  have arrived : answer.result.isOk = true := by
    by_contra failed
    refine sound ⟨status, waiter, delivery, answer, ?_, Bool.eq_false_of_not_eq_true failed⟩
    rw [split]
    exact List.mem_append_left _ there
  exact ⟨status, waiter, delivery, answer, there, arrived, delivered arrived⟩

theorem Shaped.untruthful (shaped : Shaped w) (failed : w.Failed) :
    ¬ Truthful (w.log ++ [.returned (.ok true)]) := by
  intro truthful
  obtain ⟨status, waiter, delivery, answer, there, failed⟩ := failed
  obtain ⟨status', waiter', delivery', answer', there', done, -⟩ := truthful w.log [] rfl
  rw [shaped.completed_unique there there', done] at failed
  cases failed

theorem Shaped.settled_of_failed (shaped : Shaped w) (failed : w.Failed)
    (valid : w.group.isValid = true) : w.group.settled = true := by
  obtain ⟨status, waiter, delivery, answer, there, -⟩ := failed
  obtain ⟨_, _, _, _, _, _, closed⟩ := shaped.closed_of_completed there
  exact closed.settled valid

theorem World.enter_settled (valid : w.group.isValid = true) (settled : w.group.settled = true)
    (call : Call) : w.enter call = w.returns (.ok true) := by
  rw [enter, if_neg (by simp [valid]), if_pos settled]

end

section
variable {w : World T capacity n m} {fits : capacity ≤ 32} {registry registry' : Registry GroupStatus m}
  {inputs : Fin capacity → TaskId} {count signal : UInt16} {waiter : TargetId}
  {group : TaskGroup capacity} {inputRegistry : Registry T n}

theorem shaped_make
    (made : TaskGroup.make fits registry inputs count waiter signal = (registry', .ok group)) :
    Shaped (World.initial inputRegistry registry' group) := by
  refine .opened ?_ (TaskGroup.fresh_make made).settled ?_
  · intro e never
    cases never
  · intro call stage never
    cases never

/-- While `complete` on the aggregate task has not failed, `evaluate` returns `success(true)`
only after it has succeeded and its event was delivered. Once it has failed, and as long as
the group is not released, the next `evaluate` returns `success(true)` nevertheless. -/
theorem evaluate_truthful_iff
    (made : TaskGroup.make fits registry inputs count waiter signal = (registry', .ok group))
    (reached : Reaches World.step Always (.initial inputRegistry registry' group) w) :
    (¬ w.Failed → Truthful w.log) ∧
    (w.call = none → w.group.isValid = true →
      ((∀ call w', World.step (.evaluate call) w = .ok w' → Truthful w'.log) ↔ ¬ w.Failed)) := by
  have shaped := Shaped.reached reached (shaped_make made)
  refine ⟨shaped.truthful, fun idle valid => ?_⟩
  have ran (call : Call) : World.step (.evaluate call) w = .ok (w.enter call) := by
    simp only [World.step, idle]
  constructor
  · intro truthful failed
    have report := truthful ⟨.kAny, 0⟩ _ (ran _)
    rw [World.enter_settled valid (shaped.settled_of_failed failed valid)] at report
    exact shaped.untruthful failed report
  · intro sound call w' ran'
    cases (ran call).symm.trans ran'
    refine (shaped.enter idle).truthful fun failed => sound ?_
    obtain ⟨status, waiter, delivery, answer, there, failed⟩ := failed
    refine ⟨status, waiter, delivery, answer, ?_, failed⟩
    unfold World.enter at there
    split at there
    · simpa using there
    · split at there
      · simpa using there
      · exact there

end

/-- A registry of one task, which nobody waits for and which has been completed. -/
def finished : Registry Unit 1 :=
  (((Registry.single Unit 1).create kInvalidTarget 0
    ⟨false, false⟩).1.apply (.complete ⟨256⟩ ()) .poolExhausted).1

/-- A group of that task, with a waiter. -/
def made : Registry GroupStatus 1 × Except GroupError (TaskGroup 1) :=
  TaskGroup.make (by decide) (.single GroupStatus 1) (fun _ => ⟨256⟩) 1 ⟨1⟩ 7

theorem first_promised (valid : (⟨256⟩ : TaskId) ≠ kInvalidTaskId) :
    (Promise.mk true ⟨256⟩).isValid = true := TaskGroup.promised_same valid

def single : TaskGroup 1 where
  inputs := Function.update (fun _ => kInvalidTaskId) 0 ⟨256⟩
  groupId := ⟨256⟩
  liveCount := 1
  promise := ⟨true, ⟨256⟩⟩
  fits := by decide
  live_le := le_rfl
  promised := first_promised

def start : World Unit 1 1 1 := .initial finished made.1 single

/-- Two calls of `evaluate`, where the completion event of the aggregate task fares as given. -/
def evaluateTwice (delivery : Delivery) : List (Label Unit) :=
  [.evaluate ⟨.kAll, 0⟩, .proceed delivery, .proceed delivery, .proceed delivery, .proceed delivery,
    .proceed delivery, .evaluate ⟨.kAll, 0⟩]

theorem evaluate_truthful_iff_delivered :
    (outcome World.step (evaluateTwice (.submitted .Direct)) start).log.getLast? =
      some (.returned (.ok true)) ∧
    Truthful (outcome World.step (evaluateTwice (.submitted .Direct)) start).log := by
  have reached : Reaches World.step Always start
      (outcome World.step (evaluateTwice (.submitted .Direct)) start) :=
    reaches_outcome (by decide +kernel)
  have log : (outcome World.step (evaluateTwice (.submitted .Direct)) start).log =
      [.observed ⟨.kAll, 0⟩ ⟨1, 0, .kOk⟩,
        .completed ⟨1, 0, .kOk⟩ (some ⟨1⟩) (.submitted .Direct)
          ⟨.ok .unit, some ⟨⟨1⟩, 7, ⟨false, false⟩, ⟨256, 0, 0, 0⟩⟩⟩,
        .returned (.ok true), .returned (.ok true)] := by decide +kernel
  have groups : made = (made.1, .ok single) := rfl
  refine ⟨by decide +kernel, (evaluate_truthful_iff groups reached).1 ?_⟩
  rintro ⟨status, waiter, delivery, answer, there, failed⟩
  rw [log] at there
  simp at there
  obtain ⟨-, -, -, rfl⟩ := there
  cases failed

/-- The pool has no block for the completion event: `evaluate` first returns an error, and then
`success(true)`. -/
theorem failed_settlement_reported : ∃ w : World Unit 1 1 1, made = (made.1, .ok single) ∧
    Reaches World.step Always start w ∧
    w.log = [.observed ⟨.kAll, 0⟩ ⟨1, 0, .kOk⟩,
      .completed ⟨1, 0, .kOk⟩ (some ⟨1⟩) .poolExhausted ⟨.error .kPoolExhausted, none⟩,
      .returned (.error .kRegistryFull), .returned (.ok true)] ∧
    ¬ Truthful w.log := by
  have log : (outcome World.step (evaluateTwice .poolExhausted) start).log =
      [.observed ⟨.kAll, 0⟩ ⟨1, 0, .kOk⟩,
        .completed ⟨1, 0, .kOk⟩ (some ⟨1⟩) .poolExhausted ⟨.error .kPoolExhausted, none⟩,
        .returned (.error .kRegistryFull), .returned (.ok true)] := by decide +kernel
  have reached : Reaches World.step Always start
      (outcome World.step (evaluateTwice .poolExhausted) start) := reaches_outcome (by decide +kernel)
  refine ⟨_, rfl, reached, log, ?_⟩
  intro truthful
  obtain ⟨status, waiter, delivery, answer, there, done, -⟩ := truthful
    [.observed ⟨.kAll, 0⟩ ⟨1, 0, .kOk⟩,
      .completed ⟨1, 0, .kOk⟩ (some ⟨1⟩) .poolExhausted ⟨.error .kPoolExhausted, none⟩,
      .returned (.error .kRegistryFull)] [] rfl
  simp at there
  obtain ⟨-, -, -, rfl⟩ := there
  cases done

end Coact.Coro.Group
