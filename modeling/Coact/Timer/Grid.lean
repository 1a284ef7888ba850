import Mathlib.Tactic.Ring
import Coact.Foundation.History
import Coact.Timer.Ids

/-! Timers keep their phase. The history of a task is read on its own: when and with
which period it was scheduled, when it was polled last, whether it is still alive. The
next fire time of its slot is then the least point of its grid after the last poll, so
that comparing it with the time of a poll tells whether the poll has passed a point of
the grid. -/
namespace Coact.Timer
open Foundation Function

variable {maxTasks : Nat}

/-- A task as its history has it. `last` is the time of the latest poll since the task
was scheduled, and until then the time when it was. -/
structure Life where
  start : Nat
  periodNs : Nat
  oneShot : Bool
  last : Nat
  alive : Bool

/-- A cancelled task and a one-shot task that has fired are not alive. -/
def Life.next (task : Nat) : Event → Option Life → Option Life
  | .scheduled n _ now period oneShot, life =>
    if n = task then some ⟨now, period, oneShot, now, true⟩ else life
  | .cancelled n, life => if n = task then life.map ({ · with alive := false }) else life
  | .polled now tasks, life =>
    life.map fun l =>
      { l with last := now, alive := l.alive && !(l.oneShot && decide (task ∈ tasks)) }
  | .refused _, life | .submitted _ _, life | .skipped _, life => life

def lifeOf (task : Nat) (log : List Event) : Option Life := after (Life.next task) none log

/-- The points of the grid that have not been polled. -/
def Life.Ahead (l : Life) (point : Nat) : Prop :=
  ∃ k, 1 ≤ k ∧ point = l.start + k * l.periodNs ∧ l.last < point

/-- A poll at `now` fires the task. -/
def Life.Due (l : Life) (now : Nat) : Prop :=
  if l.oneShot then l.start + l.periodNs ≤ now else ∃ point, l.Ahead point ∧ point ≤ now

/-- A fire time in phase with the task. -/
structure Life.Tuned (l : Life) (next : Nat) : Prop where
  positive : 0 < l.periodNs
  started : l.start ≤ l.last
  ahead : l.last < next
  close : next ≤ l.last + l.periodNs
  grid : ∃ k, next = l.start + (k + 1) * l.periodNs ∧ (l.oneShot = true → k = 0)

/-- Time does not go backwards, and a period from now is within 64 bits. -/
def Timely : Label → World maxTasks → Prop
  | .schedule request now, s => s.clock ≤ now ∧ now + request.intervalNs < 2 ^ 64
  | .poll now, s =>
    s.clock ≤ now ∧ ∀ i, (s.timer.slots i).active = true → now + (s.timer.slots i).periodNs < 2 ^ 64
  | .cancel _, _ | .submit _, _ => True

instance : ∀ (label : Label) (s : World maxTasks), Decidable (Timely label s)
  | .schedule _ _, _ | .poll _, _ => inferInstanceAs (Decidable (_ ∧ _))
  | .cancel _, _ | .submit _, _ => isTrue trivial

section
variable {now period next : Nat}

theorem catchUp_lands (positive : 0 < period) (room : now + period < 2 ^ 64)
    (close : next ≤ now + period) (enough : now < next + rounds) :
    ∃ k, catchUp now period (rounds + 1) next = some (next + k * period) ∧
      now < next + k * period ∧ next + k * period ≤ now + period := by
  induction rounds generalizing next with
  | zero =>
    have passed : ¬ next ≤ now := by omega
    refine ⟨0, ?_, by omega, by omega⟩
    rw [catchUp, if_neg passed, Nat.zero_mul, Nat.add_zero]
  | succ rounds ih =>
    by_cases late : next ≤ now
    · have inside : (next + period) % 2 ^ 64 = next + period := Nat.mod_eq_of_lt (by omega)
      have close' : next + period ≤ now + period := by omega
      obtain ⟨k, lands, after, near⟩ := ih close' (by omega)
      have shift : next + (k + 1) * period = next + period + k * period := by
        rw [Nat.add_mul, Nat.one_mul]
        omega
      refine ⟨k + 1, ?_, by omega, by omega⟩
      rw [catchUp, if_pos late, inside, lands, shift]
    · refine ⟨0, ?_, by omega, by omega⟩
      rw [catchUp, if_neg late, Nat.zero_mul, Nat.add_zero]

end

namespace Life.Tuned
variable {l : Life} {next now : Nat}

theorem least (tuned : l.Tuned next) : IsLeast {point | l.Ahead point} next := by
  obtain ⟨k, onGrid, -⟩ := tuned.grid
  constructor
  · exact ⟨k + 1, Nat.succ_pos k, onGrid, tuned.ahead⟩
  · rintro point ⟨m, -, rfl, ahead⟩
    by_contra below
    have before : m < k + 1 := by
      by_contra later
      have := Nat.mul_le_mul_right l.periodNs (not_lt.mp later)
      omega
    have gap : (m + 1) * l.periodNs ≤ (k + 1) * l.periodNs :=
      Nat.mul_le_mul_right l.periodNs before
    rw [Nat.add_mul, Nat.one_mul] at gap
    have := tuned.close
    omega

theorem due_iff (tuned : l.Tuned next) : l.Due now ↔ next ≤ now := by
  unfold Due
  split
  · rename_i once
    obtain ⟨k, onGrid, single⟩ := tuned.grid
    rw [onGrid, single once, Nat.zero_add, Nat.one_mul]
  · constructor
    · rintro ⟨point, ahead, reached⟩
      exact (tuned.least.2 ahead).trans reached
    · intro reached
      exact ⟨next, tuned.least.1, reached⟩

theorem wait (tuned : l.Tuned next) (forward : l.last ≤ now) (early : now < next) (alive : Bool) :
    Tuned { l with last := now, alive := alive } next where
  positive := tuned.positive
  started := tuned.started.trans forward
  ahead := early
  close := tuned.close.trans (Nat.add_le_add_right forward _)
  grid := tuned.grid

theorem catchUp (tuned : l.Tuned next) (periodic : l.oneShot = false) (forward : l.last ≤ now)
    (due : next ≤ now) (room : now + l.periodNs < 2 ^ 64) (alive : Bool) :
    ∃ next', Timer.catchUp now l.periodNs (2 ^ 64) ((next + l.periodNs) % 2 ^ 64) = some next' ∧
      Tuned { l with last := now, alive := alive } next' := by
  have positive := tuned.positive
  rw [Nat.mod_eq_of_lt (by omega)]
  have close : next + l.periodNs ≤ now + l.periodNs := by omega
  have enough : now < next + l.periodNs + (2 ^ 64 - 1) := by omega
  obtain ⟨m, lands, after, near⟩ := catchUp_lands positive room close enough
  obtain ⟨k, onGrid, -⟩ := tuned.grid
  refine ⟨_, lands, positive, tuned.started.trans forward, after, near, k + 1 + m, ?_, ?_⟩
  · have total : (k + 1 + m + 1) * l.periodNs =
        (k + 1) * l.periodNs + l.periodNs + m * l.periodNs := by ring
    dsimp only
    omega
  · intro once
    rw [periodic] at once
    cases once

end Life.Tuned

section
variable {task n id now period : Nat} {oneShot : Bool} {log : List Event} {tasks : List Nat}

theorem lifeOf_snoc : lifeOf task (log ++ [e]) = Life.next task e (lifeOf task log) :=
  after_snoc ..

theorem lifeOf_scheduled_self :
    lifeOf task (log ++ [.scheduled task id now period oneShot]) =
      some ⟨now, period, oneShot, now, true⟩ := by
  rw [lifeOf_snoc, Life.next, if_pos rfl]

theorem lifeOf_scheduled_other (other : n ≠ task) :
    lifeOf task (log ++ [.scheduled n id now period oneShot]) = lifeOf task log := by
  rw [lifeOf_snoc, Life.next, if_neg other]

theorem lifeOf_cancelled_self : lifeOf task (log ++ [.cancelled task]) =
    (lifeOf task log).map ({ · with alive := false }) := by
  rw [lifeOf_snoc, Life.next, if_pos rfl]

theorem lifeOf_cancelled_other (other : n ≠ task) :
    lifeOf task (log ++ [.cancelled n]) = lifeOf task log := by
  rw [lifeOf_snoc, Life.next, if_neg other]

theorem lifeOf_polled : lifeOf task (log ++ [.polled now tasks]) =
    (lifeOf task log).map fun l =>
      { l with last := now, alive := l.alive && !(l.oneShot && decide (task ∈ tasks)) } := lifeOf_snoc

theorem lifeOf_refused {error : TimerError} :
    lifeOf task (log ++ [.refused error]) = lifeOf task log := lifeOf_snoc

theorem lifeOf_fired {fire : PendingFire} {allocated : Bool} :
    lifeOf task (log ++ [if allocated then .submitted n fire else .skipped n]) =
      lifeOf task log := by
  rw [lifeOf_snoc]
  cases allocated <;> rfl

end

namespace World
variable {s t : World maxTasks} {label : Label} {i j : Fin maxTasks} {task now : Nat}

/-- The slot holds a living task and is in phase with it. -/
structure Holds (s : World maxTasks) (i : Fin maxTasks) (l : Life) : Prop where
  life : lifeOf (s.owner i) s.log = some l
  alive : l.alive = true
  period : (s.timer.slots i).periodNs = l.periodNs
  oneShot : (s.timer.slots i).oneShot = l.oneShot
  tuned : l.Tuned (s.timer.slots i).nextFireNs
  past : l.last ≤ s.clock

/-- The active slots and the living tasks are one to one. -/
structure Phased (s : World maxTasks) : Prop extends Numbered s where
  holds : ∀ i, (s.timer.slots i).active = true → ∃ l, s.Holds i l
  held : ∀ task l, lifeOf task s.log = some l → l.alive = true →
    ∃ i, (s.timer.slots i).active = true ∧ s.owner i = task
  known : ∀ task, s.tasks ≤ task → lifeOf task s.log = none

theorem phased_initial : Phased (initial maxTasks) where
  toNumbered := numbered_initial
  holds i active := by cases active
  held task l life := by cases life
  known _ _ := rfl

theorem Holds.kept (holds : s.Holds i l) (slot : t.timer.slots i = s.timer.slots i)
    (life : lifeOf (t.owner i) t.log = lifeOf (s.owner i) s.log) (forward : s.clock ≤ t.clock) :
    t.Holds i l where
  life := life.trans holds.life
  alive := holds.alive
  period := slot ▸ holds.period
  oneShot := slot ▸ holds.oneShot
  tuned := slot ▸ holds.tuned
  past := holds.past.trans forward

theorem Phased.quiet (phased : Phased s) (numbered : Numbered t)
    (slots : t.timer.slots = s.timer.slots)
    (owner : t.owner = s.owner) (tasks : t.tasks = s.tasks) (clock : t.clock = s.clock)
    (lives : ∀ task, lifeOf task t.log = lifeOf task s.log) : Phased t where
  toNumbered := numbered
  holds i active := by
    rw [slots] at active
    obtain ⟨l, holds⟩ := phased.holds i active
    exact ⟨l, holds.kept (congrFun slots i) (by rw [lives, owner]) clock.ge⟩
  held task l life alive := by
    rw [lives] at life
    rw [slots, owner]
    exact phased.held task l life alive
  known task beyond := by
    rw [lives]
    exact phased.known task (tasks ▸ beyond)

section
variable {request : Request} {timer : TimerScheduler maxTasks}

theorem Phased.schedule (phased : Phased s) (free : (s.timer.slots i).active = false)
    (asked : request.intervalMs ≠ 0) (forward : s.clock ≤ now)
    (room : now + request.intervalNs < 2 ^ 64)
    (armed : timer.slots = update s.timer.slots i (s.timer.armed request now))
    (numbered : Numbered (s.enroll request now i timer)) :
    Phased (s.enroll request now i timer) := by
  have fresh : lifeOf s.tasks (s.enroll request now i timer).log =
      some ⟨now, request.intervalNs, request.oneShot, now, true⟩ := lifeOf_scheduled_self
  have old : ∀ {task}, task ≠ s.tasks →
      lifeOf task (s.enroll request now i timer).log = lifeOf task s.log :=
    fun other => lifeOf_scheduled_other (Ne.symm other)
  have here : (s.enroll request now i timer).timer.slots i = s.timer.armed request now :=
    (congrFun armed i).trans (update_self ..)
  have away : ∀ {j}, j ≠ i → (s.enroll request now i timer).timer.slots j = s.timer.slots j ∧
      (s.enroll request now i timer).owner j = s.owner j := fun other =>
    ⟨(congrFun armed _).trans (update_of_ne other ..), update_of_ne other ..⟩
  have owned : (s.enroll request now i timer).owner i = s.tasks := update_self ..
  refine ⟨numbered, ?_, ?_, ?_⟩
  · intro j active
    by_cases same : j = i
    · subst same
      refine ⟨⟨now, request.intervalNs, request.oneShot, now, true⟩, ?_, rfl, ?_, ?_, ?_, le_rfl⟩
      · rw [owned]
        exact fresh
      · rw [here]
        rfl
      · rw [here]
        rfl
      · have positive : 0 < request.intervalNs := Nat.mul_pos
          (Nat.pos_of_ne_zero fun zero => asked (UInt32.toNat.inj zero)) (by decide)
        have next : (s.timer.armed request now).nextFireNs = now + request.intervalNs :=
          Nat.mod_eq_of_lt room
        rw [here, next]
        exact ⟨positive, le_rfl, Nat.lt_add_of_pos_right positive, le_rfl, 0,
          by simp, fun _ => rfl⟩
    · rw [(away same).1] at active
      obtain ⟨l, holds⟩ := phased.holds j active
      have older := Nat.ne_of_lt (phased.ids j active).2
      exact ⟨l, holds.kept (away same).1 (by rw [(away same).2, old older]) forward⟩
  · intro task l life alive
    by_cases new : task = s.tasks
    · refine ⟨i, ?_, owned.trans new.symm⟩
      rw [here]
      rfl
    · rw [old new] at life
      obtain ⟨j, active, owner⟩ := phased.held task l life alive
      have other : j ≠ i := by
        rintro rfl
        rw [free] at active
        cases active
      refine ⟨j, ?_, (away other).2.trans owner⟩
      rw [(away other).1]
      exact active
  · intro task beyond
    rw [old (Nat.ne_of_gt beyond)]
    exact phased.known task (Nat.le_of_succ_le beyond)

end

theorem Phased.cancel (phased : Phased s) (active : (s.timer.slots i).active = true)
    (numbered : Numbered { s with
      timer := s.timer.disarm i, log := s.log ++ [.cancelled (s.owner i)] }) :
    Phased { s with timer := s.timer.disarm i, log := s.log ++ [.cancelled (s.owner i)] } := by
  have lives : ∀ {j}, (s.timer.slots j).active = true → j ≠ i →
      lifeOf (s.owner j) (s.log ++ [.cancelled (s.owner i)]) = lifeOf (s.owner j) s.log := by
    intro j live other
    exact lifeOf_cancelled_other fun same => other (phased.apart i j active live same).symm
  refine ⟨numbered, ?_, ?_, ?_⟩
  · intro j live
    obtain ⟨other, live'⟩ := TimerScheduler.disarm_active.mp live
    obtain ⟨l, holds⟩ := phased.holds j live'
    exact ⟨l, holds.kept (TimerScheduler.disarm_same live) (lives live' other) le_rfl⟩
  · intro task l life alive
    by_cases mine : s.owner i = task
    · subst mine
      rw [lifeOf_cancelled_self] at life
      obtain ⟨old, -, rfl⟩ := Option.map_eq_some_iff.mp life
      cases alive
    · rw [lifeOf_cancelled_other mine] at life
      obtain ⟨j, live, owner⟩ := phased.held task l life alive
      have other : j ≠ i := by
        rintro rfl
        exact mine owner
      exact ⟨j, TimerScheduler.disarm_active.mpr ⟨other, live⟩, owner⟩
  · intro task beyond
    rw [lifeOf_snoc, phased.known task beyond]
    exact ite_self ..

section
variable {collected : TimerScheduler.Collected maxTasks}

theorem firings_eq (collects : s.timer.collect now = some collected) :
    collected.2.map (fun firing => s.owner firing.1) =
      ((List.finRange maxTasks).filter fun i => (s.timer.slots i).due now).map s.owner := by
  rw [(TimerScheduler.collect_scanned collects).firings]
  simp [comp_def]

theorem Phased.mem_firings (phased : Phased s) (collects : s.timer.collect now = some collected)
    (active : (s.timer.slots i).active = true) :
    s.owner i ∈ collected.2.map (fun firing => s.owner firing.1) ↔
      (s.timer.slots i).nextFireNs ≤ now := by
  rw [firings_eq collects]
  constructor
  · intro mem
    obtain ⟨j, inside, same⟩ := List.mem_map.mp mem
    have due := (List.mem_filter.mp inside).2
    rw [TaskSlot.due, Bool.and_eq_true, decide_eq_true_eq] at due
    rw [← phased.apart j i due.1 active same]
    exact due.2
  · intro reached
    refine List.mem_map.mpr ⟨i, List.mem_filter.mpr ⟨List.mem_finRange i, ?_⟩, rfl⟩
    rw [TaskSlot.due, active, decide_eq_true reached]
    rfl

theorem Phased.firings_nodup (phased : Phased s) (collects : s.timer.collect now = some collected) :
    (collected.2.map fun firing => s.owner firing.1).Nodup := by
  rw [firings_eq collects]
  refine List.Nodup.map_on ?_ ((List.nodup_finRange maxTasks).filter _)
  intro i here j there same
  have due := (List.mem_filter.mp here).2
  have due' := (List.mem_filter.mp there).2
  rw [TaskSlot.due, Bool.and_eq_true] at due due'
  exact phased.apart i j due.1 due'.1 same

/-- A poll fires a task iff it lives and a point of its grid has come. -/
theorem Phased.fires_iff (phased : Phased s) (collects : s.timer.collect now = some collected) :
    task ∈ collected.2.map (fun firing => s.owner firing.1) ↔
      ∃ l, lifeOf task s.log = some l ∧ l.alive = true ∧ l.Due now := by
  constructor
  · intro mem
    have inside := mem
    rw [firings_eq collects] at inside
    obtain ⟨i, filtered, rfl⟩ := List.mem_map.mp inside
    have due := (List.mem_filter.mp filtered).2
    rw [TaskSlot.due, Bool.and_eq_true] at due
    obtain ⟨l, holds⟩ := phased.holds i due.1
    exact ⟨l, holds.life, holds.alive,
      holds.tuned.due_iff.mpr ((phased.mem_firings collects due.1).mp mem)⟩
  · rintro ⟨l, life, alive, due⟩
    obtain ⟨i, active, rfl⟩ := phased.held task l life alive
    obtain ⟨l', holds⟩ := phased.holds i active
    cases holds.life.symm.trans life
    exact (phased.mem_firings collects active).mpr (holds.tuned.due_iff.mp due)

/-- What a poll makes of an active slot: it waits, it has fired for good, or its fire time
is in phase again. -/
theorem Holds.scan (holds : s.Holds i l) (active : (s.timer.slots i).active = true)
    (forward : s.clock ≤ now) (room : now + (s.timer.slots i).periodNs < 2 ^ 64) :
    ∃ slot, (s.timer.slots i).scan now = some slot ∧
      (slot.active = true ↔ ¬ (l.oneShot = true ∧ (s.timer.slots i).nextFireNs ≤ now)) ∧
      (slot.active = true → slot.periodNs = l.periodNs ∧ slot.oneShot = l.oneShot ∧
        ∀ alive, Life.Tuned { l with last := now, alive := alive } slot.nextFireNs) := by
  have late := holds.past.trans forward
  unfold TaskSlot.scan TaskSlot.due
  by_cases reached : (s.timer.slots i).nextFireNs ≤ now
  · rw [active, decide_eq_true reached, Bool.and_self, if_pos rfl, TaskSlot.expire, holds.oneShot]
    cases single : l.oneShot with
    | true =>
      refine ⟨_, rfl, ?_, ?_⟩
      · simp [reached]
      · intro never
        cases never
    | false =>
      rw [holds.period] at room ⊢
      obtain ⟨next, lands, -⟩ := holds.tuned.catchUp single late reached room true
      rw [if_neg Bool.false_ne_true, lands]
      refine ⟨_, rfl, ?_, fun _ => ⟨rfl, rfl, fun alive => ?_⟩⟩
      · simp [active]
      · obtain ⟨next', lands', tuned⟩ := holds.tuned.catchUp single late reached room alive
        rw [lands] at lands'
        cases lands'
        rw [← single]
        exact tuned
  · rw [active, decide_eq_false reached, Bool.and_false, if_neg Bool.false_ne_true]
    refine ⟨_, rfl, ?_, fun _ => ⟨holds.period, holds.oneShot, fun alive => ?_⟩⟩
    · simp [active, reached]
    · exact holds.tuned.wait late (not_le.mp reached) alive

theorem scan_inactive (free : (s.timer.slots i).active = false) :
    (s.timer.slots i).scan now = some (s.timer.slots i) := by
  rw [TaskSlot.scan, TaskSlot.due, free, Bool.false_and, if_neg Bool.false_ne_true]

theorem Phased.collect_ends (phased : Phased s) (timely : Timely (.poll now) s) :
    ∃ collected, s.timer.collect now = some collected := by
  apply TimerScheduler.collect_ends
  intro i
  by_cases active : (s.timer.slots i).active = true
  · obtain ⟨l, holds⟩ := phased.holds i active
    obtain ⟨slot, scanned, -⟩ := holds.scan active timely.1 (timely.2 i active)
    rw [scanned]
    rfl
  · rw [scan_inactive (Bool.eq_false_iff.mpr active)]
    rfl

theorem Phased.poll (phased : Phased s) (timely : Timely (.poll now) s)
    (collects : s.timer.collect now = some collected) (numbered : Numbered (s.gather now collected)) :
    Phased (s.gather now collected) := by
  have scanned : ∀ i, (s.timer.slots i).scan now = some (collected.1.slots i) := fun i =>
    (TimerScheduler.collect_scanned collects).scanned i (List.mem_finRange i)
  -- An active slot was active, and the poll has left it in phase.
  have from_active : ∀ i, (collected.1.slots i).active = true → (s.timer.slots i).active = true := by
    intro i active
    by_contra free
    have same := scanned i
    rw [scan_inactive (Bool.eq_false_iff.mpr free)] at same
    rw [← Option.some.inj same] at active
    exact free active
  have life : ∀ {task l}, lifeOf task s.log = some l →
      lifeOf task (s.gather now collected).log = some { l with
        last := now
        alive := l.alive && !(l.oneShot &&
          decide (task ∈ collected.2.map fun firing => s.owner firing.1)) } := by
    intro task l known
    exact lifeOf_polled.trans (by rw [known]; rfl)
  refine ⟨numbered, ?_, ?_, ?_⟩
  · intro i active
    have active' := from_active i active
    obtain ⟨l, holds⟩ := phased.holds i active'
    obtain ⟨slot, found, stays, kept⟩ := holds.scan active' timely.1 (timely.2 i active')
    cases found.symm.trans (scanned i)
    obtain ⟨period, oneShot, tuned⟩ := kept active
    refine ⟨_, life holds.life, ?_, period, oneShot, tuned _, le_rfl⟩
    have waits := stays.mp active
    rw [← phased.mem_firings collects active'] at waits
    rw [holds.alive, Bool.true_and, Bool.not_eq_true', Bool.and_eq_false_iff, decide_eq_false_iff_not]
    by_cases single : l.oneShot = true
    · exact .inr fun fires => waits ⟨single, fires⟩
    · exact .inl (Bool.eq_false_iff.mpr single)
  · intro task l after alive
    have before := lifeOf_polled.symm.trans after
    obtain ⟨old, known, rfl⟩ := Option.map_eq_some_iff.mp before
    simp only [Bool.and_eq_true, Bool.not_eq_true'] at alive
    obtain ⟨i, active, rfl⟩ := phased.held task old known alive.1
    obtain ⟨l, holds⟩ := phased.holds i active
    cases holds.life.symm.trans known
    obtain ⟨slot, found, stays, -⟩ := holds.scan active timely.1 (timely.2 i active)
    cases found.symm.trans (scanned i)
    refine ⟨i, stays.mpr ?_, rfl⟩
    rw [← phased.mem_firings collects active]
    rintro ⟨single, fires⟩
    rw [single, decide_eq_true fires] at alive
    cases alive.2
  · intro task beyond
    have none := phased.known task beyond
    exact lifeOf_polled.trans (by rw [none]; rfl)

end

theorem Phased.step (phased : Phased s) (timely : Timely label s) (effect : Effect s label t) :
    Phased t := by
  have numbered := phased.toNumbered.step effect
  cases effect with
  | refused => exact phased.quiet numbered rfl rfl rfl rfl fun _ => lifeOf_refused
  | scheduled asked free => exact phased.schedule free asked timely.1 timely.2 rfl numbered
  | cancelled active => exact phased.cancel active numbered
  | polled _ collects => exact phased.poll timely collects numbered
  | submitted =>
    exact phased.quiet numbered TimerScheduler.fire_slots rfl rfl rfl fun _ => lifeOf_fired

theorem Phased.reached (reached : Reaches World.step Timely (initial maxTasks) s) : Phased s :=
  reached.invariant (P := Phased) phased_initial
    fun _ _ _ phased timely ran => phased.step timely (step_effect ran)

section
variable {l : Life} {start : List Event}

/-- The task has ended, and no poll since `start` has fired it. -/
def Ended (task : Nat) (start : List Event) (s : World maxTasks) : Prop :=
  (∃ l, lifeOf task s.log = some l ∧ l.alive = false) ∧
    ∃ later, s.log = start ++ later ∧ ∀ now tasks, .polled now tasks ∈ later → task ∉ tasks

theorem Ended.snoc (ended : Ended task start s) (log : t.log = s.log ++ [e])
    (dead : ∃ l, lifeOf task t.log = some l ∧ l.alive = false)
    (apart : ∀ now tasks, e = .polled now tasks → task ∉ tasks) : Ended task start t := by
  obtain ⟨-, later, grown, never⟩ := ended
  refine ⟨dead, later ++ [e], by rw [log, grown, List.append_assoc], ?_⟩
  intro now tasks mem
  rcases List.mem_append.mp mem with old | new
  · exact never now tasks old
  · exact apart now tasks (List.mem_singleton.mp new).symm

theorem Ended.step (ended : Ended task start s) (phased : Phased s) (effect : Effect s label t) :
    Ended task start t := by
  obtain ⟨l, life, dead⟩ := ended.1
  cases effect with
  | refused => exact ended.snoc rfl ⟨l, lifeOf_refused.trans life, dead⟩ (by simp)
  | scheduled =>
    have older : s.tasks ≠ task := by
      rintro rfl
      rw [phased.known _ le_rfl] at life
      cases life
    exact ended.snoc rfl ⟨l, (lifeOf_scheduled_other older).trans life, dead⟩ (by simp)
  | @cancelled _ i =>
    refine ended.snoc rfl ?_ (by simp)
    by_cases mine : s.owner i = task
    · subst mine
      refine ⟨_, lifeOf_cancelled_self.trans (by rw [life]; rfl), rfl⟩
    · exact ⟨l, (lifeOf_cancelled_other mine).trans life, dead⟩
  | polled _ collects =>
    refine ended.snoc rfl ⟨_, lifeOf_polled.trans (by rw [life]; rfl), by simp [dead]⟩ ?_
    rintro now tasks ⟨⟩ fires
    obtain ⟨l', life', alive, -⟩ := (phased.fires_iff collects).mp fires
    rw [life] at life'
    cases life'
    rw [dead] at alive
    cases alive
  | @submitted allocated =>
    refine ended.snoc rfl ⟨l, lifeOf_fired.trans life, dead⟩ ?_
    intro now tasks same
    cases allocated <;> cases same

theorem Ended.run (phased : Phased s) (dead : ∃ l, lifeOf task s.log = some l ∧ l.alive = false)
    (run : Reaches World.step Timely s t) : Ended task s.log t := by
  refine (run.invariant (P := fun u => Phased u ∧ Ended task s.log u) ⟨phased, dead, [], ?_, ?_⟩
    ?_).2
  · rw [List.append_nil]
  · intro now tasks mem
    cases mem
  · rintro label u v ⟨phased, ended⟩ timely ran
    have effect := step_effect ran
    exact ⟨phased.step timely effect, ended.step phased effect⟩

end

end World

/-- The event of a firing: a submission, or a skip for want of a block. -/
def Event.delivers (task : Nat) : Event → Bool
  | .submitted n _ | .skipped n => n = task
  | _ => false

def Event.submits : Event → Bool
  | .submitted _ _ => true
  | _ => false

def Event.skips : Event → Bool
  | .skipped _ => true
  | _ => false

/-- How often the event is a poll that fires the task. -/
def Event.firings (task : Nat) : Event → Nat
  | .polled _ tasks => tasks.count task
  | _ => 0

namespace World
variable {s t : World maxTasks} {label : Label}

/-- Every firing ends in one submission or one skip, and these are counted. -/
structure Delivered (s : World maxTasks) : Prop where
  once : ∀ task, (s.log.map (Event.firings task)).sum =
    s.log.countP (Event.delivers task) + (s.pending.map Prod.fst).count task
  submitted : s.timer.fired = s.log.countP Event.submits % 2 ^ 32
  skipped : s.timer.skipped = s.log.countP Event.skips % 2 ^ 32

theorem delivered_initial : Delivered (initial maxTasks) := ⟨fun _ => rfl, rfl, rfl⟩

theorem Delivered.snoc (delivered : Delivered s) (log : t.log = s.log ++ [e])
    (balance : ∀ task, e.firings task + (s.pending.map Prod.fst).count task =
      (if e.delivers task then 1 else 0) + (t.pending.map Prod.fst).count task)
    (fired : t.timer.fired = (s.timer.fired + if e.submits then 1 else 0) % 2 ^ 32)
    (skipped : t.timer.skipped = (s.timer.skipped + if e.skips then 1 else 0) % 2 ^ 32) :
    Delivered t := by
  have counted : ∀ test : Event → Bool,
      t.log.countP test = s.log.countP test + if test e then 1 else 0 := by
    intro test
    rw [log, List.countP_append, List.countP_singleton]
  constructor
  · intro task
    have total := delivered.once task
    have change := balance task
    rw [counted, log, List.map_append, List.sum_append, List.map_singleton, List.sum_singleton]
    omega
  · rw [fired, delivered.submitted, counted, Nat.mod_add_mod]
  · rw [skipped, delivered.skipped, counted, Nat.mod_add_mod]

theorem Delivered.bounded (delivered : Delivered s) :
    s.timer.fired % 2 ^ 32 = s.timer.fired ∧ s.timer.skipped % 2 ^ 32 = s.timer.skipped := by
  rw [delivered.submitted, delivered.skipped, Nat.mod_mod, Nat.mod_mod]
  exact ⟨rfl, rfl⟩

theorem Delivered.step (delivered : Delivered s) (effect : Effect s label t) : Delivered t := by
  obtain ⟨fired, skipped⟩ := delivered.bounded
  cases effect with
  | refused | scheduled | cancelled =>
    exact delivered.snoc rfl (fun _ => rfl) fired.symm skipped.symm
  | @polled _ _ idle collects =>
    obtain ⟨fired', skipped'⟩ := (TimerScheduler.collect_scanned collects).counters
    refine delivered.snoc rfl ?_ (fired'.trans fired.symm) (skipped'.trans skipped.symm)
    intro task
    rw [idle]
    simp [Event.firings, Event.delivers, gather, comp_def]
  | @submitted allocated _ _ _ queue =>
    refine delivered.snoc rfl ?_ ?_ ?_
    · intro task
      rw [queue]
      cases allocated <;>
        simp [Event.firings, Event.delivers, List.count_cons, Nat.add_comm]
    · cases allocated
      · exact fired.symm
      · rfl
    · cases allocated
      · rfl
      · exact skipped.symm

theorem Delivered.reached
    (reached : Reaches World.step allowed (initial maxTasks) s) : Delivered s :=
  reached.invariant (P := Delivered) delivered_initial
    fun _ _ _ delivered _ ran => delivered.step (step_effect ran)

theorem Effect.kept {request : Request} {now : Nat} (effect : Effect s (.schedule request now) t)
    (active : (s.timer.slots i).active = true) :
    t.timer.slots i = s.timer.slots i ∧ t.owner i = s.owner i := by
  cases effect with
  | refused => exact ⟨rfl, rfl⟩
  | @scheduled _ _ j _ free =>
    have other : i ≠ j := by
      rintro rfl
      rw [free] at active
      cases active
    exact ⟨update_of_ne other .., update_of_ne other ..⟩

end World

/-- In every state of a run a poll returns and fires, once each, the living tasks that have
a point of their grid after their previous poll and not after this one, or, if they are
one-shot, have reached their deadline. The slots of the living tasks, which are never
given to others, hold the least point that is ahead. A task that was cancelled or is
one-shot and has fired is never fired again. -/
theorem timers_keep_phase {s : World maxTasks}
    (reached : Reaches World.step Timely (.initial maxTasks) s) :
    (∀ now, s.pending = [] → Timely (.poll now) s → ∃ t tasks, World.step (.poll now) s = .ok t ∧
      t.log = s.log ++ [.polled now tasks] ∧ t.pending.map Prod.fst = tasks ∧ tasks.Nodup ∧
      ∀ task, task ∈ tasks ↔ ∃ l, lifeOf task s.log = some l ∧ l.alive = true ∧ l.Due now) ∧
    (∀ i, (s.timer.slots i).active = true → ∃ l, lifeOf (s.owner i) s.log = some l ∧
      l.alive = true ∧ IsLeast {point | l.Ahead point} (s.timer.slots i).nextFireNs) ∧
    (∀ task l, lifeOf task s.log = some l → l.alive = true →
      ∃ i, (s.timer.slots i).active = true ∧ s.owner i = task) ∧
    (∀ task l, lifeOf task s.log = some l → l.alive = false →
      ∀ t later, Reaches World.step Timely s t → t.log = s.log ++ later →
      ∀ now tasks, .polled now tasks ∈ later → task ∉ tasks) ∧
    (∀ request now t, World.step (.schedule request now) s = .ok t →
      ∀ i, (s.timer.slots i).active = true →
        t.timer.slots i = s.timer.slots i ∧ t.owner i = s.owner i) ∧
    s.Delivered := by
  have phased := World.Phased.reached reached
  refine ⟨?_, ?_, phased.held, ?_, ?_, .reached reached⟩
  · intro now idle timely
    obtain ⟨collected, collects⟩ := phased.collect_ends timely
    refine ⟨s.gather now collected, _, ?_, rfl, ?_, phased.firings_nodup collects,
      fun task => phased.fires_iff collects⟩
    · simp [World.step, idle, collects]
    · simp [World.gather, comp_def]
  · intro i active
    obtain ⟨l, holds⟩ := phased.holds i active
    exact ⟨l, holds.life, holds.alive, holds.tuned.least⟩
  · intro task l life dead t later run log now tasks mem
    obtain ⟨-, later', log', never⟩ := World.Ended.run phased ⟨l, life, dead⟩ run
    rw [List.append_cancel_left (log.symm.trans log')] at mem
    exact never now tasks mem
  · intro request now t ran i active
    exact (World.step_effect ran).kept active

/-- A task with a period of 2 ms and one that ends after 1 ms, polled at 1 ms and, late,
at 9 ms. -/
def latePoll : List Label :=
  [.schedule ⟨⟨1⟩, 7, 2, ⟨false, false⟩, false⟩ 0, .schedule ⟨⟨1⟩, 8, 1, ⟨false, false⟩, true⟩ 0,
    .poll 1000000, .submit true, .poll 9000000, .submit false]

theorem timers_keep_phase_late :
    ((outcome World.step latePoll (.initial 2)).log.drop 2 =
      [.polled 1000000 [1], .submitted 1 ⟨⟨1⟩, 8, ⟨false, false⟩⟩, .polled 9000000 [0],
        .skipped 0]) ∧
    (∃ l, lifeOf 0 (outcome World.step latePoll (.initial 2)).log = some l ∧
      IsLeast {point | l.Ahead point} 10000000) := by
  refine ⟨by decide +kernel, ?_⟩
  have reached : Reaches World.step Timely (.initial 2) (outcome World.step latePoll (.initial 2)) :=
    reaches_decided (by decide +kernel)
  obtain ⟨l, life, -, least⟩ := (timers_keep_phase reached).2.1 0 (by decide +kernel)
  exact ⟨l, life, least⟩

end Coact.Timer
