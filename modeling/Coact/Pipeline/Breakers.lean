import Coact.Breaker.Recovery
import Coact.Pipeline.System
import Coact.Queue.Ring

/-! The breakers of a running system. An access feeds at most one breaker, that of the
target it works for or the one the idle cycle has come to. So every breaker is in a
state that some sequence of inputs leads to, and targets do not disturb each other. -/
namespace Coact
open Foundation Function Submit

variable {d : Deployment} {B : Backend StagingSlot} {H : Type}

/-- At most one input has been applied, and only to the breaker named. -/
def Fed (cfg : Config) (target : Option Nat) (b b' : Nat → Breaker.State) : Prop :=
  b' = b ∨ ∃ k input, target = some k ∧ b' = update b k (Breaker.apply cfg input (b k))

theorem Fed.elsewhere (fed : Fed cfg target b b') (other : target ≠ some k) : b' k = b k := by
  obtain rfl | ⟨k', input, rfl, rfl⟩ := fed
  · rfl
  · exact update_of_ne (fun same => other (congrArg some same.symm)) _ _

theorem Fed.history (fed : Fed cfg target b b')
    (inv : ∀ k, ∃ past, b k = Breaker.afterInputs cfg past) (k : Nat) :
    ∃ past, b' k = Breaker.afterInputs cfg past := by
  obtain rfl | ⟨k', input, -, rfl⟩ := fed
  · exact inv k
  obtain ⟨past, state⟩ := inv k
  by_cases here : k = k'
  · subst here
    refine ⟨past ++ [input], ?_⟩
    rw [update_self, state, Breaker.afterInputs, Breaker.afterInputs, after_snoc]
  · exact ⟨past, by rw [update_of_ne here, state]⟩

theorem Submit.Frame.commit_breaker (f : Frame d B) (sh : Shared B H) :
    (f.commit sh).breaker = sh.breaker := by
  unfold Frame.commit
  split <;> rfl

theorem Submit.Frame.step_fed {f : Frame d B} (ran : f.step i sh o = .ok (sh', c)) :
    Fed d.cfg (some (d.targetBreaker f.args.target)) sh.breaker sh'.breaker := by
  obtain ⟨args, ao, bound, now, arrival, t0, pc⟩ := f
  cases pc with
  | rtc =>
    cases ran
    by_cases late : (d.ao ao).rtcBudgetNs < o.clock - t0
    · exact .inr ⟨_, .directTimeout, rfl, by simp only [if_pos late]; rfl⟩
    · exact .inr ⟨_, .rtcOk, rfl, by simp only [if_neg late]; rfl⟩
  | overflow => cases ran; exact .inr ⟨_, .overflow, rfl, rfl⟩
  | commitDirect | commitQueued => cases ran; exact .inl (commit_breaker _ _)
  | releaseLease | releaseClaim | decrementLoad =>
    obtain ⟨_, _, done⟩ := asserted_ok ran
    cases done
    exact .inl rfl
  | increment =>
    simp only [Frame.step] at ran
    split at ran
    · obtain ⟨_, _, done⟩ := asserted_ok ran
      cases done
      exact .inl rfl
    · cases ran; exact .inl rfl
  | _ =>
    simp only [Frame.step] at ran
    (repeat' split at ran) <;> cases ran <;> exact .inl rfl

/-- The breaker an access of the Dispatcher may feed. -/
def Dispatch.Pc.feeds : Dispatch.Pc d B → Option Nat
  | .rtc _ b _ | .cycle _ b => some (d.targetBreaker b.slot.target)
  | .idleCycle k => some k
  | _ => none

theorem Dispatch.drainLeft_breaker (again : Bool) (now : Nat) (sh : Shared B H) :
    (drainLeft again now sh : _ × Pc d B).1.breaker = sh.breaker := by
  unfold drainLeft drainLeft.drainMore
  (repeat' split) <;> rfl

theorem Dispatch.finished_breaker (sh : Shared B H) (clock : Nat) (k : Visit) :
    (finished sh clock k : _ × Pc d B).1.breaker = sh.breaker := by
  unfold finished drainLeft.drainMore
  (repeat' split) <;> rfl

theorem Dispatch.waitDispatcher_breaker
    (waited : waitDispatcher ms timeout sh = .ok sh') : sh'.breaker = sh.breaker := by
  unfold waitDispatcher at waited
  split at waited <;> cases waited
  rfl

theorem Dispatch.Pc.step_fed {pc : Pc d B} (ran : pc.step sh o = .ok (sh', pc')) :
    Fed d.cfg pc.feeds sh.breaker sh'.breaker := by
  cases pc with
  | rtc k b t0 =>
    cases ran
    by_cases late : (d.ao b.ao).rtcBudgetNs < o.clock - t0
    · exact .inr ⟨_, .dispatcherRtcTimeout, rfl, by simp only [if_pos late]; rfl⟩
    · exact .inr ⟨_, .rtcOk, rfl, by simp only [if_neg late]; rfl⟩
  | cycle => cases ran; exact .inr ⟨_, .dispatchCycle, rfl, rfl⟩
  | idleCycle =>
    simp only [Pc.step] at ran
    split at ran <;> cases ran
    · exact .inr ⟨_, .dispatchCycle, rfl, rfl⟩
    · exact .inl rfl
  | releaseLease | decrementLoad =>
    obtain ⟨_, _, done⟩ := asserted_ok ran
    cases done
    exact .inl rfl
  | releaseClaim c v =>
    simp only [Pc.step] at ran
    split at ran
    · cases ran; exact .inl rfl
    · obtain ⟨_, _, done⟩ := asserted_ok ran
      cases done
      exact .inl rfl
  | timedWait | idleWait | drainWait =>
    obtain ⟨_, waited, done⟩ := map_ok ran
    cases done
    exact .inl (waitDispatcher_breaker waited)
  | reclaim k v =>
    have kept := finished_breaker (d := d) (sh.record (.released .dispatcher v.sub)) o.clock k
    rw [Except.ok.inj ran] at kept
    exact .inl kept
  | drainSize again now | drainIdle again now =>
    have kept := drainLeft_breaker (d := d) again now sh
    simp only [Pc.step] at ran
    (repeat' split at ran) <;> first | cases ran; exact .inl rfl | skip
    rw [Except.ok.inj ran] at kept
    exact .inl kept
  | _ =>
    simp only [Pc.step] at ran
    (repeat' split at ran) <;> cases ran <;> exact .inl rfl

/-- The breaker a step may feed: that of the target a submission or a slot is for, the
one the idle cycle has come to, or the one an input from outside names. -/
def Sys.feeds (s : Sys d B H) : Label H → Option Nat
  | .call i _ => s.calls[i]?.map (d.targetBreaker ·.args.target)
  | .dispatcher _ => s.disp.feeds
  | .breaker k _ => some k
  | _ => none

theorem Sys.step_fed {s t : Sys d B H} (ran : Sys.step label s = .ok t) :
    Fed d.cfg (s.feeds label) s.shared.breaker t.shared.breaker := by
  cases label with
  | submit | requestStop =>
    first | obtain ⟨-, rfl⟩ := step_submit ran | cases ran
    exact .inl rfl
  | call i =>
    obtain ⟨c, sh', c', found, -, moved, rfl⟩ := step_call ran
    rw [feeds, found]
    cases c with
    | refused => cases moved; exact .inl rfl
    | run f => exact f.step_fed moved
    | done => cases moved
  | dispatcher =>
    obtain ⟨sh', pc, -, moved, rfl⟩ := step_dispatcher ran
    exact Dispatch.Pc.step_fed moved
  | stopper =>
    obtain ⟨stopper, sh', stopper', -, moved, rfl⟩ := step_stopper ran
    cases stopper <;> cases moved <;> exact .inl rfl
  | breaker k input => cases ran; exact .inr ⟨k, input, rfl, rfl⟩

/-- In every run each breaker is in a state that a sequence of inputs leads to, and a step
changes no breaker but that of the target it works for. -/
theorem breakers_isolated {hsm : AoId → H} {s : Sys d B H} (reached : Reachable hsm s) :
    (∀ k, ∃ past, s.shared.breaker k = Breaker.afterInputs d.cfg past) ∧
    ∀ label t k, Sys.step label s = .ok t → s.feeds label ≠ some k →
      t.shared.breaker k = s.shared.breaker k := by
  constructor
  · exact reached.invariant (P := fun s => ∀ k, ∃ past,
      s.shared.breaker k = Breaker.afterInputs d.cfg past) (fun _ => ⟨[], rfl⟩)
      fun _ _ _ inv _ ran => (Sys.step_fed ran).history inv
  · intro label t k ran other
    exact (Sys.step_fed ran).elsewhere other

/-- Breaker 2 has counted an overflow, and a direct submission to target 1 is about to compare
the time its handler took with the budget. -/
def overflowElsewhere : Sys singleAo (ringBackend StagingSlot) Nat :=
  runOf singleAo _ (fun _ => 0) ([.breaker 2 .overflow, .submit { target := ⟨1⟩, event := 7 }] ++
    List.replicate 8 (.call 0 {}))

/-- The handler was late, which the breaker of target 1 counts and breaker 2 does not. -/
theorem breakers_isolated_submission :
    ∃ t, Sys.step (.call 0 { clock := 5000 }) overflowElsewhere = .ok t ∧
      (t.shared.breaker (singleAo.targetBreaker ⟨1⟩)).directTimeoutConsec = 1 ∧
      t.shared.breaker 2 = overflowElsewhere.shared.breaker 2 ∧
      ∃ past, t.shared.breaker 2 = Breaker.afterInputs DefaultConfig past := by
  have reached : Reachable (fun _ => 0) overflowElsewhere := reachable_runOf (by decide +kernel)
  have ran : Sys.step (.call 0 { clock := 5000 }) overflowElsewhere =
      .ok (outcome Sys.step [.call 0 { clock := 5000 }] overflowElsewhere) := by rfl
  have same := (breakers_isolated reached).2 _ _ 2 ran (by decide +kernel)
  exact ⟨_, ran, by decide +kernel, same, same ▸ (breakers_isolated reached).1 2⟩

end Coact
