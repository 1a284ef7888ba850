import Coact.Timer

/-! The ids of timer tasks. An id is the number of its task in 32 bits, so ids are told
apart, and none is the invalid one, while fewer than 2 ^ 32 - 1 tasks have been
scheduled. After that the counter comes round: to the invalid id first, then to the ids
of tasks that may still be active. -/
namespace Coact.Timer
open Foundation Function

variable {maxTasks : Nat}

theorem TaskSlot.expire_id {now : Nat} {slot slot' : TaskSlot}
    (expired : slot.expire now = some slot') : slot'.id = slot.id := by
  unfold expire at expired
  split at expired
  · cases expired
    rfl
  · obtain ⟨next, -, rfl⟩ := Option.map_eq_some_iff.mp expired
    rfl

theorem TaskSlot.scan_id {now : Nat} {slot slot' : TaskSlot} (scanned : slot.scan now = some slot') :
    slot'.id = slot.id ∧ (slot'.active = true → slot.active = true) := by
  unfold scan at scanned
  split at scanned
  · rename_i due
    rw [TaskSlot.due, Bool.and_eq_true] at due
    exact ⟨expire_id scanned, fun _ => due.1⟩
  · cases scanned
    exact ⟨rfl, fun active => active⟩

namespace World
variable {s : World maxTasks} {i : Fin maxTasks}

structure Numbered (s : World maxTasks) : Prop where
  next : s.timer.nextId = (s.tasks + 1) % 2 ^ 32
  ids : ∀ i, (s.timer.slots i).active = true →
    (s.timer.slots i).id = (s.owner i + 1) % 2 ^ 32 ∧ s.owner i < s.tasks
  apart : ∀ i j, (s.timer.slots i).active = true → (s.timer.slots j).active = true →
    s.owner i = s.owner j → i = j
  returned : ∀ task id now period oneShot, .scheduled task id now period oneShot ∈ s.log →
    id = (task + 1) % 2 ^ 32 ∧ task < s.tasks

/-- The next id is valid and no active task has it. -/
structure Fresh (s : World maxTasks) : Prop where
  valid : (s.tasks + 1) % 2 ^ 32 ≠ 0
  unused : ∀ i, (s.timer.slots i).active = true → s.owner i % 2 ^ 32 ≠ s.tasks % 2 ^ 32

theorem numbered_initial : Numbered (initial maxTasks) where
  next := rfl
  ids i active := by cases active
  apart i j active := by cases active
  returned task id now period oneShot mem := by cases mem

theorem Numbered.settle (numbered : Numbered s) (log : t.log = s.log ++ [e])
    (other : ∀ task id now period oneShot, e ≠ .scheduled task id now period oneShot)
    (nextId : t.timer.nextId = s.timer.nextId) (owner : t.owner = s.owner)
    (tasks : t.tasks = s.tasks)
    (slots : ∀ i, (t.timer.slots i).id = (s.timer.slots i).id ∧
      ((t.timer.slots i).active = true → (s.timer.slots i).active = true)) : Numbered t where
  next := by rw [nextId, tasks, numbered.next]
  ids i active := by
    rw [(slots i).1, owner, tasks]
    exact numbered.ids i ((slots i).2 active)
  apart i j active active' := by
    rw [owner]
    exact numbered.apart i j ((slots i).2 active) ((slots j).2 active')
  returned task id now period oneShot mem := by
    rw [log] at mem
    rw [tasks]
    rcases List.mem_append.mp mem with old | new
    · exact numbered.returned task id now period oneShot old
    · exact (other _ _ _ _ _ (List.mem_singleton.mp new).symm).elim

theorem Numbered.schedule {request : Request} {now : Nat} {timer : TimerScheduler maxTasks}
    (numbered : Numbered s) (free : (s.timer.slots i).active = false)
    (armed : timer.slots = update s.timer.slots i (s.timer.armed request now))
    (nextId : timer.nextId = (s.timer.nextId + 1) % 2 ^ 32) :
    Numbered (s.enroll request now i timer) := by
  have here : timer.slots i = s.timer.armed request now :=
    (congrFun armed i).trans (update_self ..)
  have away : ∀ {j}, j ≠ i → timer.slots j = s.timer.slots j ∧
      (s.enroll request now i timer).owner j = s.owner j := fun other =>
    ⟨(congrFun armed _).trans (update_of_ne other ..), update_of_ne other ..⟩
  have owned : (s.enroll request now i timer).owner i = s.tasks := update_self ..
  have older : ∀ {j}, j ≠ i → (timer.slots j).active = true →
      (s.enroll request now i timer).owner j < s.tasks := by
    intro j other active
    rw [(away other).1] at active
    rw [(away other).2]
    exact (numbered.ids j active).2
  constructor
  · exact nextId.trans (by rw [numbered.next, Nat.mod_add_mod]; rfl)
  · intro j active
    by_cases same : j = i
    · subst same
      refine ⟨?_, owned.symm ▸ Nat.lt_succ_self _⟩
      rw [owned, ← numbered.next]
      exact congrArg TaskSlot.id here
    · refine ⟨?_, Nat.lt_succ_of_lt (older same active)⟩
      have active' : (timer.slots j).active = true := active
      rw [(away same).1] at active'
      rw [(away same).2]
      exact (congrArg TaskSlot.id (away same).1).trans (numbered.ids j active').1
  · intro j k active active' same
    by_cases first : j = i <;> by_cases second : k = i
    · exact first.trans second.symm
    · rw [first, owned] at same
      exact (Nat.ne_of_gt (older second active') same).elim
    · rw [second, owned] at same
      exact (Nat.ne_of_lt (older first active) same).elim
    · rw [(away first).2, (away second).2] at same
      refine numbered.apart j k ?_ ?_ same
      · exact (congrArg TaskSlot.active (away first).1).symm.trans active
      · exact (congrArg TaskSlot.active (away second).1).symm.trans active'
  · intro task id now' period oneShot mem
    rcases List.mem_append.mp mem with old | new
    · obtain ⟨same, below⟩ := numbered.returned task id now' period oneShot old
      exact ⟨same, Nat.lt_succ_of_lt below⟩
    · cases List.mem_singleton.mp new
      exact ⟨numbered.next, Nat.lt_succ_self _⟩

theorem Numbered.step (numbered : Numbered s) (effect : Effect s label t) : Numbered t := by
  cases effect with
  | refused => exact numbered.settle rfl (by simp) rfl rfl rfl fun i => ⟨rfl, id⟩
  | scheduled _ free => exact numbered.schedule free rfl rfl
  | cancelled =>
    exact numbered.settle rfl (by simp) rfl rfl rfl fun j =>
      ⟨TimerScheduler.disarm_id, fun live => (TimerScheduler.disarm_active.mp live).2⟩
  | polled _ collects =>
    have scanned := TimerScheduler.collect_scanned collects
    exact numbered.settle rfl (by simp) scanned.nextId rfl rfl fun j =>
      TaskSlot.scan_id (scanned.scanned j (List.mem_finRange j))
  | @submitted allocated =>
    refine numbered.settle rfl ?_ TimerScheduler.fire_nextId rfl rfl fun j => ?_
    · intro _ _ _ _ _ same
      cases allocated <;> cases same
    · rw [TimerScheduler.fire_slots]
      exact ⟨rfl, id⟩

theorem Numbered.reached (run : Reaches World.step Always (initial maxTasks) s) : Numbered s :=
  run.invariant (P := Numbered) numbered_initial
    fun _ _ _ numbered _ ran => numbered.step (step_effect ran)

theorem Numbered.fresh (numbered : Numbered s) (few : s.tasks + 1 < 2 ^ 32) : Fresh s := by
  constructor
  · omega
  · intro i active
    have below := (numbered.ids i active).2
    omega

theorem Numbered.fresh_iff (numbered : Numbered s) : (s.timer.nextId ≠ kInvalidTimerTaskId ∧
    ∀ i, (s.timer.slots i).active = true → (s.timer.slots i).id ≠ s.timer.nextId) ↔ Fresh s := by
  rw [numbered.next]
  constructor
  · rintro ⟨valid, unused⟩
    refine ⟨valid, fun i active => ?_⟩
    have differ := unused i active
    rw [(numbered.ids i active).1] at differ
    omega
  · intro fresh
    refine ⟨fresh.valid, fun i active => ?_⟩
    have differ := fresh.unused i active
    rw [(numbered.ids i active).1]
    omega

end World

variable {timer : TimerScheduler maxTasks} {i : Fin maxTasks}

theorem TimerScheduler.find_eq_some {id : Nat}
    (unique : ∀ i j, (timer.slots i).active = true → (timer.slots j).active = true →
      (timer.slots i).id = (timer.slots j).id → i = j) :
    timer.find id = some i ↔ (timer.slots i).active = true ∧ (timer.slots i).id = id := by
  constructor
  · exact active_of_find
  · rintro ⟨active, same⟩
    cases found : timer.find id with
    | none =>
      have never := List.find?_eq_none.mp found i (List.mem_finRange i)
      rw [active, decide_eq_true same] at never
      exact (never rfl).elim
    | some j =>
      obtain ⟨active', same'⟩ := active_of_find found
      exact congrArg some (unique j i active' active (same'.trans same.symm))

theorem TimerScheduler.schedule_ok {request : Request} {now : Nat}
    (done : timer.schedule request now = .ok (i, timer')) : (timer'.slots i).id = timer.nextId := by
  unfold schedule at done
  split at done
  · cases done
  · split at done <;> cases done
    exact congrArg TaskSlot.id set_same

theorem TimerScheduler.cancel_ok {id : Nat} :
    timer.cancel id = .ok (i, timer') ↔ timer.find id = some i ∧ timer' = timer.disarm i := by
  unfold cancel
  cases timer.find id with
  | none => simp
  | some =>
    constructor
    · intro done
      cases done
      exact ⟨rfl, rfl⟩
    · rintro ⟨same, rfl⟩
      cases same
      rfl

/-- An id that is handed out is valid and not that of an active task exactly if the number
of the task is so in 32 bits; this holds for the first 2 ^ 32 - 1 tasks. So long, an id
cancels the task it was returned for, if that is active, and no other. -/
theorem timer_ids_fresh {s : World maxTasks} (run : Reaches World.step Always (.initial maxTasks) s) :
    (∀ request now i timer, s.timer.schedule request now = .ok (i, timer) →
      (((timer.slots i).id ≠ kInvalidTimerTaskId ∧
        ∀ j, (s.timer.slots j).active = true → (s.timer.slots j).id ≠ (timer.slots i).id) ↔
        s.Fresh)) ∧
    (s.tasks + 1 < 2 ^ 32 → s.Fresh) ∧
    (s.tasks < 2 ^ 32 → ∀ task id now period oneShot,
      .scheduled task id now period oneShot ∈ s.log → ∀ i timer,
        s.timer.cancel id = .ok (i, timer) ↔
          (s.timer.slots i).active = true ∧ s.owner i = task ∧ timer = s.timer.disarm i) := by
  have numbered := World.Numbered.reached run
  refine ⟨?_, numbered.fresh, ?_⟩
  · intro request now i timer done
    rw [TimerScheduler.schedule_ok done]
    exact numbered.fresh_iff
  · intro few task id now period oneShot mem i timer
    obtain ⟨rfl, below⟩ := numbered.returned task id now period oneShot mem
    -- Numbers below 2 ^ 32 - 1 and their ids are one to one.
    have same_id : ∀ {j}, (s.timer.slots j).active = true →
        ((s.timer.slots j).id = (task + 1) % 2 ^ 32 ↔ s.owner j = task) := by
      intro j active
      obtain ⟨number, older⟩ := numbered.ids j active
      omega
    have unique : ∀ j k, (s.timer.slots j).active = true → (s.timer.slots k).active = true →
        (s.timer.slots j).id = (s.timer.slots k).id → j = k := by
      intro j k active active' same
      obtain ⟨number, older⟩ := numbered.ids j active
      obtain ⟨number', older'⟩ := numbered.ids k active'
      exact numbered.apart j k active active' (by omega)
    rw [TimerScheduler.cancel_ok, TimerScheduler.find_eq_some unique, and_assoc]
    constructor
    · rintro ⟨active, number, rest⟩
      exact ⟨active, (same_id active).mp number, rest⟩
    · rintro ⟨active, owner, rest⟩
      exact ⟨active, (same_id active).mpr owner, rest⟩

def everyMinute : Request := ⟨⟨1⟩, 7, 60000, ⟨false, false⟩, false⟩

/-- Two tasks, of which the first is cancelled. -/
def oneCancelled : World 2 :=
  outcome World.step [.schedule everyMinute 0, .schedule everyMinute 0, .cancel 1] (.initial 2)

/-- The next task gets an id of its own; the cancelled id cancels nothing and the other one its
own task. -/
theorem timer_ids_fresh_after_cancel :
    (oneCancelled.timer.slots 1).active = true ∧
    (∃ timer, oneCancelled.timer.schedule everyMinute 0 = .ok (0, timer) ∧
      (timer.slots 0).id ≠ kInvalidTimerTaskId ∧
      ∀ j, (oneCancelled.timer.slots j).active = true →
        (oneCancelled.timer.slots j).id ≠ (timer.slots 0).id) ∧
    (∀ i timer, oneCancelled.timer.cancel 1 ≠ .ok (i, timer)) ∧
    oneCancelled.timer.cancel 2 = .ok (1, oneCancelled.timer.disarm 1) := by
  have run : Reaches World.step Always (.initial 2) oneCancelled :=
    reaches_outcome (by decide +kernel)
  have few : oneCancelled.tasks + 1 < 2 ^ 32 := by decide +kernel
  obtain ⟨ids, fresh, cancels⟩ := timer_ids_fresh run
  have cancels := cancels (Nat.lt_of_succ_lt few)
  refine ⟨by decide +kernel, ⟨_, rfl, (ids everyMinute 0 0 _ rfl).mpr (fresh few)⟩, ?_, ?_⟩
  · intro i timer cancelled
    have owner := (cancels 0 1 0 60000000000 false (by decide +kernel) i timer).mp cancelled
    exact (by decide +kernel : ∀ i, (oneCancelled.timer.slots i).active = true →
      oneCancelled.owner i ≠ 0) i owner.1 owner.2.1
  · exact (cancels 1 2 0 60000000000 false (by decide +kernel) 1 _).mpr
      ⟨by decide +kernel, by decide +kernel, rfl⟩

/-! A run through all ids: one task with a long period, and others that are scheduled and
cancelled again. -/
section

/-- The long-lived task is in slot 0, slot 1 is free, `n` others have come and gone. -/
structure Churned (n : Nat) (s : World 2) : Prop where
  run : Reaches World.step Always (.initial 2) s
  tasks : s.tasks = n + 1
  kept : (s.timer.slots 0).active = true ∧ (s.timer.slots 0).id = 1
  free : (s.timer.slots 1).active = false

theorem churned_zero : ∃ s, Churned 0 s :=
  ⟨outcome World.step [.schedule everyMinute 0] (.initial 2),
    reaches_outcome (by decide +kernel), rfl, ⟨rfl, rfl⟩, rfl⟩

/-- Slot `i` is given to a task. -/
def refilled (i : Fin 2) (s : World 2) : World 2 :=
  s.enroll everyMinute 0 i { s.timer.set i (s.timer.armed everyMinute 0) with
    nextId := (s.timer.nextId + 1) % 2 ^ 32 }

variable {n : Nat} {s : World 2}

theorem refilled_one : (refilled 1 s).timer.slots 1 = s.timer.armed everyMinute 0 := by
  have same : (s.timer.set 1 (s.timer.armed everyMinute 0)).slots 1 =
      s.timer.armed everyMinute 0 := TimerScheduler.set_same
  exact same

theorem refilled_zero : (refilled 1 s).timer.slots 0 = s.timer.slots 0 := by
  have other : (0 : Fin 2) ≠ 1 := by decide
  have same : (s.timer.set 1 (s.timer.armed everyMinute 0)).slots 0 = s.timer.slots 0 :=
    TimerScheduler.set_other other
  exact same

theorem Churned.schedule (churned : Churned n s) :
    s.timer.schedule everyMinute 0 = .ok (1, (refilled 1 s).timer) := by
  have first : s.timer.firstInactive = some 1 := by
    simp [TimerScheduler.firstInactive, List.finRange_succ, churned.kept.1, churned.free]
  have asked : everyMinute.intervalMs ≠ 0 := by decide
  rw [TimerScheduler.schedule, if_neg asked, first]
  rfl

theorem Churned.nextId (churned : Churned n s) : s.timer.nextId = (n + 2) % 2 ^ 32 := by
  rw [(World.Numbered.reached churned.run).next, churned.tasks]

/-- Before the ids have come round the one that was handed out cancels its own task. -/
theorem Churned.succ (churned : Churned n s) (few : n + 2 ≤ 2 ^ 32) : ∃ t, Churned (n + 1) t := by
  have differ : 1 ≠ s.timer.nextId := by
    rw [churned.nextId]
    omega
  have found : (refilled 1 s).timer.find s.timer.nextId = some 1 := by
    simp [TimerScheduler.find, List.finRange_succ, refilled_zero, refilled_one, churned.kept.2,
      differ, TimerScheduler.armed]
  have first : World.step (.schedule everyMinute 0) s = .ok (refilled 1 s) := by
    simp only [World.step, churned.schedule]
    rfl
  have second : World.step (.cancel s.timer.nextId) (refilled 1 s) = .ok { refilled 1 s with
      timer := (refilled 1 s).timer.disarm 1
      log := (refilled 1 s).log ++ [.cancelled ((refilled 1 s).owner 1)] } := by
    simp only [World.step, TimerScheduler.cancel, found]
  refine ⟨_, (churned.run.tail ⟨_, trivial, first⟩).tail ⟨_, trivial, second⟩, ?_, ?_, ?_⟩
  · exact congrArg (· + 1) churned.tasks
  · have active : ((refilled 1 s).timer.slots 0).active = true := by
      exact churned.kept.1
    refine ⟨TimerScheduler.disarm_active.mpr ⟨by decide, active⟩, TimerScheduler.disarm_id.trans ?_⟩
    exact churned.kept.2
  · exact congrArg TaskSlot.active TimerScheduler.set_same

theorem exists_churned (few : n < 2 ^ 32) : ∃ s, Churned n s := by
  induction n with
  | zero => exact churned_zero
  | succ n ih =>
    obtain ⟨s, churned⟩ := ih (by omega)
    exact churned.succ (by omega)

/-- The task after 2 ^ 32 - 1 others gets the invalid id, and the one after it the id of
the long-lived task. -/
theorem timer_ids_wrap :
    (∃ (s : World 2) (i : Fin 2) (timer : TimerScheduler 2),
      Reaches World.step Always (.initial 2) s ∧
      s.timer.schedule everyMinute 0 = .ok (i, timer) ∧
      (timer.slots i).id = kInvalidTimerTaskId) ∧
    (∃ (s : World 2) (i : Fin 2) (timer : TimerScheduler 2),
      Reaches World.step Always (.initial 2) s ∧
      s.timer.schedule everyMinute 0 = .ok (i, timer) ∧
      i ≠ 0 ∧ (s.timer.slots 0).active = true ∧ (s.timer.slots 0).id = (timer.slots i).id) := by
  constructor
  · obtain ⟨s, churned⟩ := exists_churned (n := 2 ^ 32 - 2) (by decide)
    refine ⟨s, 1, _, churned.run, churned.schedule, ?_⟩
    rw [TimerScheduler.schedule_ok churned.schedule, churned.nextId]
    rfl
  · obtain ⟨s, churned⟩ := exists_churned (n := 2 ^ 32 - 1) (by decide)
    refine ⟨s, 1, _, churned.run, churned.schedule, by decide, churned.kept.1, ?_⟩
    rw [TimerScheduler.schedule_ok churned.schedule, churned.nextId]
    exact churned.kept.2

end

end Coact.Timer
