import Coact.Timer.Grid

/-! The sleep hint, `TimerScheduler::ns_to_next_task`: the least time left to any active slot,
so that no poll before it fires and the first poll after it does. -/
namespace Coact.Timer
open Foundation

variable {maxTasks : Nat}

/-- `UINT64_MAX`. -/
def uint64Max : Nat := 0xFFFFFFFFFFFFFFFF

namespace TimerScheduler

/-- The loop, with `min_remaining`; an overdue slot ends it. -/
def minRemaining (timer : TimerScheduler maxTasks) (now : Nat) : List (Fin maxTasks) → Nat → Nat
  | [], least => least
  | i :: rest, least =>
    if !(timer.slots i).active then timer.minRemaining now rest least
    else if (timer.slots i).nextFireNs ≤ now then 0
    else if (timer.slots i).nextFireNs - now < least then
      timer.minRemaining now rest ((timer.slots i).nextFireNs - now)
    else timer.minRemaining now rest least

def nsToNextTask (timer : TimerScheduler maxTasks) (now : Nat) : Nat :=
  timer.minRemaining now (List.finRange maxTasks) uint64Max

variable {timer : TimerScheduler maxTasks} {now : Nat} {i : Fin maxTasks}

/-- `r` is the least of `least` and of what is left to the active slots among `indices`. -/
structure Least (timer : TimerScheduler maxTasks) (now : Nat) (indices : List (Fin maxTasks))
    (least r : Nat) : Prop where
  bounded : r ≤ least
  below : ∀ i ∈ indices, (timer.slots i).active = true → r ≤ (timer.slots i).nextFireNs - now
  attained : r = least ∨ ∃ i ∈ indices, (timer.slots i).active = true ∧
    r = (timer.slots i).nextFireNs - now

theorem Least.cons {rest : List (Fin maxTasks)} {lowered least r : Nat}
    (holds : Least timer now rest lowered r) (lower : lowered ≤ least)
    (here : (timer.slots i).active = true → lowered ≤ (timer.slots i).nextFireNs - now)
    (origin : lowered = least ∨ (timer.slots i).active = true ∧
      lowered = (timer.slots i).nextFireNs - now) : Least timer now (i :: rest) least r where
  bounded := holds.bounded.trans lower
  below := by
    intro j mem active
    rcases List.mem_cons.mp mem with rfl | later
    · exact holds.bounded.trans (here active)
    · exact holds.below j later active
  attained := by
    rcases holds.attained with same | ⟨j, later, active, same⟩
    · rcases origin with kept | ⟨active, taken⟩
      · exact .inl (same.trans kept)
      · exact .inr ⟨i, List.mem_cons_self, active, same.trans taken⟩
    · exact .inr ⟨j, List.mem_cons_of_mem i later, active, same⟩

theorem minRemaining_least (timer : TimerScheduler maxTasks) (now least : Nat)
    (indices : List (Fin maxTasks)) :
    Least timer now indices least (timer.minRemaining now indices least) := by
  induction indices generalizing least with
  | nil =>
    constructor
    · exact le_rfl
    · intro i mem
      cases mem
    · exact .inl rfl
  | cons i rest ih =>
    rw [minRemaining]
    split_ifs with free overdue closer
    · apply (ih least).cons le_rfl
      · intro active
        rw [active] at free
        cases free
      · exact .inl rfl
    · refine ⟨Nat.zero_le _, fun _ _ _ => Nat.zero_le _, .inr ⟨i, List.mem_cons_self, ?_, ?_⟩⟩
      · simpa using free
      · rw [Nat.sub_eq_zero_of_le overdue]
    · exact (ih _).cons closer.le (fun _ => le_rfl) (.inr ⟨by simpa using free, rfl⟩)
    · exact (ih least).cons le_rfl (fun _ => not_lt.mp closer) (.inl rfl)

theorem nsToNextTask_le (active : (timer.slots i).active = true) (now : Nat) :
    timer.nsToNextTask now ≤ (timer.slots i).nextFireNs - now :=
  (timer.minRemaining_least now uint64Max _).below i (List.mem_finRange i) active

theorem nsToNextTask_attained (finite : timer.nsToNextTask now ≠ uint64Max) :
    ∃ i, (timer.slots i).active = true ∧
      timer.nsToNextTask now = (timer.slots i).nextFireNs - now := by
  rcases (timer.minRemaining_least now uint64Max (List.finRange maxTasks)).attained with
    same | ⟨i, -, active, same⟩
  · exact absurd same finite
  · exact ⟨i, active, same⟩

theorem collect_idle (early : ∀ i, (timer.slots i).due now = false) :
    timer.collect now = some (timer, []) := by
  have loop : ∀ indices : List (Fin maxTasks),
      indices.foldlM (collectSlot now) (timer, []) = some (timer, []) := by
    intro indices
    induction indices with
    | nil => rfl
    | cons i _ ih =>
      have skipped : collectSlot now (timer, []) i = some (timer, []) := by
        rw [collectSlot, early i, if_neg Bool.false_ne_true]
      rw [List.foldlM_cons, skipped]
      exact ih
  exact loop _

/-- Every active slot has a period and a fire time that are times. -/
def Armed (timer : TimerScheduler maxTasks) : Prop :=
  ∀ i, (timer.slots i).active = true →
    0 < (timer.slots i).periodNs ∧ (timer.slots i).periodNs < 2 ^ 52 ∧
      (timer.slots i).nextFireNs < 2 ^ 64

end TimerScheduler

/-- All times and all times plus periods are below 2^64. They may go backwards. -/
def Bounded : Label → World maxTasks → Prop
  | .schedule request now, _ => now + request.intervalNs < 2 ^ 64
  | .poll now, s => ∀ i, (s.timer.slots i).active = true → now + (s.timer.slots i).periodNs < 2 ^ 64
  | .cancel _, _ | .submit _, _ => True

instance : ∀ (label : Label) (s : World maxTasks), Decidable (Bounded label s)
  | .schedule request now, _ => inferInstanceAs (Decidable (now + request.intervalNs < 2 ^ 64))
  | .poll now, s => inferInstanceAs (Decidable (∀ i, (s.timer.slots i).active = true →
      now + (s.timer.slots i).periodNs < 2 ^ 64))
  | .cancel _, _ | .submit _, _ => isTrue trivial

/-- A poll leaves the loop of every slot, and no active slot is due after it. -/
theorem TimerScheduler.Armed.scan {timer : TimerScheduler maxTasks} {now : Nat} (armed : timer.Armed)
    (room : ∀ i, (timer.slots i).active = true → now + (timer.slots i).periodNs < 2 ^ 64)
    (i : Fin maxTasks) : ∃ after, (timer.slots i).scan now = some after ∧
      (after.active = true → 0 < after.periodNs ∧ after.periodNs < 2 ^ 52 ∧
        after.nextFireNs < 2 ^ 64 ∧ now < after.nextFireNs) := by
  unfold TaskSlot.scan
  by_cases due : (timer.slots i).due now = true
  · obtain ⟨active, run⟩ := Bool.and_eq_true_iff.mp due
    have run := of_decide_eq_true run
    have room := room i active
    obtain ⟨positive, short, -⟩ := armed i active
    rw [if_pos due, TaskSlot.expire]
    split
    · refine ⟨_, rfl, ?_⟩
      intro never
      cases never
    · rw [Nat.mod_eq_of_lt (by omega)]
      have close : (timer.slots i).nextFireNs + (timer.slots i).periodNs ≤
          now + (timer.slots i).periodNs := by omega
      have enough : now < (timer.slots i).nextFireNs + (timer.slots i).periodNs + (2 ^ 64 - 1) := by
        omega
      obtain ⟨k, lands, ahead, near⟩ := catchUp_lands positive room close enough
      exact ⟨_, congrArg _ lands, fun _ =>
        ⟨positive, short, near.trans_lt room, ahead⟩⟩
  · rw [if_neg due]
    refine ⟨_, rfl, ?_⟩
    intro active
    obtain ⟨positive, short, word⟩ := armed i active
    rw [TaskSlot.due, active, Bool.true_and, decide_eq_true_eq] at due
    exact ⟨positive, short, word, not_le.mp due⟩

namespace World
variable {now : Nat}

theorem armed_step (armed : s.timer.Armed) (bounded : Bounded label s) (effect : Effect s label t) :
    t.timer.Armed := by
  cases effect with
  | refused => exact armed
  | @scheduled request now i asked free =>
    intro j active
    by_cases same : j = i
    · subst same
      have slot : (s.enroll request now j { s.timer.set j (s.timer.armed request now) with
          nextId := (s.timer.nextId + 1) % 2 ^ 32 }).timer.slots j = s.timer.armed request now :=
        TimerScheduler.set_same
      have word := request.intervalMs.toNat_lt
      have some_ms : request.intervalMs.toNat ≠ 0 := fun zero => asked (UInt32.toNat.inj zero)
      rw [slot]
      simp only [TimerScheduler.armed, Request.intervalNs, kNsPerMs]
      omega
    · have slot : (s.enroll request now i { s.timer.set i (s.timer.armed request now) with
          nextId := (s.timer.nextId + 1) % 2 ^ 32 }).timer.slots j = s.timer.slots j :=
        TimerScheduler.set_other same
      rw [slot] at active ⊢
      exact armed j active
  | cancelled =>
    intro j live
    rw [TimerScheduler.disarm_same live]
    exact armed j (TimerScheduler.disarm_active.mp live).2
  | @polled _ _ _ collects =>
    intro i active
    have scanned := (TimerScheduler.collect_scanned collects).scanned i (List.mem_finRange i)
    obtain ⟨after, found, kept⟩ := armed.scan bounded i
    cases found.symm.trans scanned
    obtain ⟨positive, short, word, -⟩ := kept active
    exact ⟨positive, short, word⟩
  | submitted =>
    intro i active
    rw [TimerScheduler.fire_slots] at active ⊢
    exact armed i active

theorem armed_of_reaches (run : Reaches World.step Bounded (initial maxTasks) s) :
    s.timer.Armed := by
  refine run.invariant (P := fun s => s.timer.Armed) ?_ ?_
  · intro i active
    cases active
  · intro label s t armed bounded ran
    exact armed_step armed bounded (step_effect ran)

/-- With a clock that does not go backwards nothing is left for longer than its period. -/
theorem Phased.remaining_le (phased : Phased s) (forward : s.clock ≤ now)
    (active : (s.timer.slots i).active = true) :
    (s.timer.slots i).nextFireNs ≤ now + (s.timer.slots i).periodNs := by
  obtain ⟨l, holds⟩ := phased.holds i active
  have close := holds.tuned.close
  have past := holds.past
  rw [holds.period]
  omega

end World

/-- In every state of a run, whose times may go backwards: no hint means that no task is active
(at time 0 only if the clock has not gone back to it), no poll before the hint is up fires or
changes anything, and the next one after it returns, fires, and leaves a hint above 0. -/
theorem sleep_hint_exact {s : World maxTasks}
    (run : Reaches World.step Bounded (.initial maxTasks) s) (now : Nat) :
    (s.timer.nsToNextTask now = uint64Max →
      (0 < now ∨ Reaches World.step Timely (.initial maxTasks) s ∧ s.clock ≤ now) →
      ∀ i, (s.timer.slots i).active = false) ∧
    (∀ t, now ≤ t → t < now + s.timer.nsToNextTask now →
      s.timer.collect t = some (s.timer, [])) ∧
    (s.timer.nsToNextTask now ≠ uint64Max → ∀ t, now + s.timer.nsToNextTask now ≤ t →
      Bounded (.poll t) s → ∃ collected, s.timer.collect t = some collected ∧
        collected.2 ≠ [] ∧ 0 < collected.1.nsToNextTask t) := by
  have armed := World.armed_of_reaches run
  refine ⟨?_, ?_, ?_⟩
  · intro none clock i
    by_contra live
    have active : (s.timer.slots i).active = true := by simpa using live
    obtain ⟨-, short, word⟩ := armed i active
    have least := TimerScheduler.nsToNextTask_le active now
    rw [none, uint64Max] at least
    rcases clock with positive | ⟨timely, forward⟩
    · omega
    · have close := (World.Phased.reached timely).remaining_le forward active
      omega
  · intro t later early
    apply TimerScheduler.collect_idle
    intro i
    cases active : (s.timer.slots i).active with
    | false => rw [TaskSlot.due, active, Bool.false_and]
    | true =>
      have least := TimerScheduler.nsToNextTask_le active now
      rw [TaskSlot.due, active, Bool.true_and, decide_eq_false_iff_not]
      omega
  · intro finite t later bounded
    have scans := armed.scan bounded
    obtain ⟨collected, collects⟩ : ∃ collected, s.timer.collect t = some collected := by
      apply TimerScheduler.collect_ends
      intro i
      obtain ⟨after, found, -⟩ := scans i
      rw [found]
      rfl
    have scanned := TimerScheduler.collect_scanned collects
    refine ⟨collected, collects, ?_, ?_⟩
    · obtain ⟨i, active, hint⟩ := TimerScheduler.nsToNextTask_attained finite
      have due : (s.timer.slots i).due t = true := by
        rw [TaskSlot.due, active, Bool.true_and, decide_eq_true_eq]
        omega
      have fires : i ∈ (List.finRange maxTasks).filter fun i => (s.timer.slots i).due t :=
        List.mem_filter.mpr ⟨List.mem_finRange i, due⟩
      rw [scanned.firings, List.nil_append]
      exact fun none => List.ne_nil_of_mem fires (List.map_eq_nil_iff.mp none)
    · by_contra overdue
      have zero : collected.1.nsToNextTask t = 0 := Nat.eq_zero_of_not_pos overdue
      have finite' : collected.1.nsToNextTask t ≠ uint64Max := by
        rw [zero, uint64Max]
        decide
      obtain ⟨i, active, hint⟩ := TimerScheduler.nsToNextTask_attained finite'
      obtain ⟨after, found, kept⟩ := scans i
      cases found.symm.trans (scanned.scanned i (List.mem_finRange i))
      have ahead := (kept active).2.2.2
      omega

/-- After the late poll one task is left, due at 10 ms: from 9.5 ms on the hint is 0.5 ms. -/
theorem sleep_hint_exact_late :
    (outcome World.step latePoll (.initial 2)).timer.nsToNextTask 9500000 = 500000 ∧
    ∃ collected, (outcome World.step latePoll (.initial 2)).timer.collect 31000000 = some collected ∧
      collected.2 ≠ [] ∧ 0 < collected.1.nsToNextTask 31000000 := by
  have run : Reaches World.step Bounded (.initial 2) (outcome World.step latePoll (.initial 2)) :=
    reaches_decided (by decide +kernel)
  have hint : (outcome World.step latePoll (.initial 2)).timer.nsToNextTask 9500000 = 500000 := by
    decide +kernel
  refine ⟨hint, (sleep_hint_exact run 9500000).2.2 ?_ 31000000 ?_ (by decide +kernel)⟩
  · decide
  · decide

/-- A task that is due at 2 ^ 64 - 1. -/
def dueAtTheEnd : List Label :=
  [.schedule ⟨⟨1⟩, 7, 1, ⟨false, false⟩, false⟩ (2 ^ 64 - 1 - 1000000)]

/-- With the clock back at 0 the time left to the task is the value that means no task. -/
theorem sleep_hint_ambiguous :
    Reaches World.step Bounded (.initial 1) (outcome World.step dueAtTheEnd (.initial 1)) ∧
    (outcome World.step dueAtTheEnd (.initial 1)).timer.nsToNextTask 0 = uint64Max ∧
    ((outcome World.step dueAtTheEnd (.initial 1)).timer.slots 0).active = true :=
  ⟨reaches_decided (by decide +kernel), by decide +kernel, by decide +kernel⟩

end Coact.Timer
