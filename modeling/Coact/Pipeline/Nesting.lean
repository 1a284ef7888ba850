import Coact.Foundation.Tally
import Coact.Pipeline.System

/-! Nested submissions. A submission keeps its caller; it enters an HSM dispatch only
by taking the lease of an idle AO, and only from inside a dispatch can it be a caller
itself. -/
namespace Coact
open Submit Frame Sys

variable {d : Deployment} {B : Backend StagingSlot} {H : Type}

/-- The call runs the HSM of its target. -/
def Call.dispatching : Call d B → Bool
  | .run f => match f.pc with
    | .hsm => true
    | _ => false
  | _ => false

/-- Its next step is a direct dispatch: the lease of the target is idle. -/
def Call.takesLease (sh : Shared B H) : Call d B → Bool
  | .run f => match f.pc with
    | .dispatchDirect => sh.lease f.ao = .Idle
    | _ => false
  | _ => false

/-- On the way to a direct dispatch and inside it, the target is direct-eligible. -/
def Call.Eligible : Call d B → Prop
  | .run f => match f.pc with
    | .directAllowed | .leaseState | .dispatchDirect | .hsm => (d.ao f.ao).directEligible = true
    | _ => True
  | _ => True

/-- How the call of `f` goes on. -/
structure Submit.Frame.Continues (f : Frame d B) (sh : Shared B H) (c : Call d B) : Prop where
  args : c.args = f.args
  eligible : Call.Eligible (.run f) → c.Eligible
  enters : c.dispatching = true →
    Call.dispatching (.run f) = true ∨ Call.takesLease sh (.run f) = true

/-- The call of `f` goes on outside the HSM. -/
structure Submit.Frame.Aside (f : Frame d B) (c : Call d B) : Prop where
  args : c.args = f.args
  eligible : c.Eligible
  outside : c.dispatching = false

theorem Submit.Frame.Aside.continues {f g : Frame d B} {c : Call d B} (aside : g.Aside c)
    (same : g.args = f.args) (sh : Shared B H) : f.Continues sh c where
  args := aside.args.trans same
  eligible _ := aside.eligible
  enters inside := by
    rw [aside.outside] at inside
    cases inside

section
variable (f : Frame d B) (clock : Nat)

theorem aside_toStaging : f.Aside (f.toStaging clock) := by
  unfold toStaging
  dsimp only
  split <;> exact ⟨rfl, trivial, rfl⟩

theorem aside_toDirect : f.Aside (f.toDirect clock) := by
  unfold toDirect
  split
  · rename_i direct
    exact ⟨rfl, direct.2, rfl⟩
  · exact aside_toStaging f clock

theorem aside_toGate : f.Aside (f.toGate clock) := by
  unfold toGate
  split
  · exact ⟨rfl, trivial, rfl⟩
  · exact aside_toDirect f clock

theorem aside_toPolicy : f.Aside (f.toPolicy clock) := by
  unfold toPolicy
  split
  · exact ⟨rfl, trivial, rfl⟩
  · exact aside_toGate f clock

theorem aside_toOverload : f.Aside (f.toOverload clock) := by
  unfold toOverload
  split
  · exact aside_toPolicy f clock
  · exact ⟨rfl, trivial, rfl⟩

theorem aside_leave (r : SubmitResult) : f.Aside (f.leave r) := by
  unfold leave
  split <;> exact ⟨rfl, trivial, rfl⟩

end

section
variable {i : Nat} {sh sh' : Shared B H} {o : Oracle H}

variable {c : Call d B}

theorem Submit.Frame.step_continues {f : Frame d B} (ran : f.step i sh o = .ok (sh', c)) :
    f.Continues sh c := by
  obtain ⟨args, ao, bound, now, arrival, t0, pc⟩ := f
  cases pc with
  | dispatchDirect =>
    simp only [step, ExecutionLease.tryAcquire, reduceCtorEq, if_false] at ran
    by_cases idle : sh.lease ao = .Idle
    · simp only [idle, if_true] at ran
      cases ran
      exact ⟨rfl, id, fun _ => .inr (decide_eq_true idle)⟩
    · simp only [idle, if_false, Bool.false_eq_true] at ran
      cases ran
      exact (aside_toStaging _ _).continues rfl sh
  | hsm =>
    simp only [step] at ran
    split at ran <;> cases ran
    · exact ⟨rfl, id, fun _ => .inl rfl⟩
    · exact ⟨rfl, fun _ => trivial, nofun⟩
  | acquireCas =>
    simp only [step] at ran
    (repeat' split at ran) <;> cases ran
    · exact ⟨rfl, fun _ => trivial, nofun⟩
    · exact (aside_toOverload _ _).continues rfl sh
    · exact ⟨rfl, fun _ => trivial, nofun⟩
  | overload =>
    simp only [step] at ran
    split at ran <;> cases ran
    · exact ⟨rfl, fun _ => trivial, nofun⟩
    · exact (aside_toPolicy _ _).continues rfl sh
  | policy =>
    simp only [step] at ran
    split at ran <;> cases ran
    · refine (aside_toGate _ _).continues ?_ sh
      rfl
    · exact ⟨rfl, fun _ => trivial, nofun⟩
  | reserve =>
    simp only [step] at ran
    split at ran <;> cases ran
    · refine (aside_toDirect _ _).continues ?_ sh
      rfl
    · exact ⟨rfl, fun _ => trivial, nofun⟩
  | directAllowed | leaseState =>
    simp only [step] at ran
    split at ran <;> cases ran
    · exact ⟨rfl, id, nofun⟩
    · exact (aside_toStaging _ _).continues rfl sh
  | releaseSubmission r =>
    cases ran
    split
    · exact ⟨rfl, fun _ => trivial, nofun⟩
    · exact (aside_leave _ r).continues rfl sh
  | lastSignal r =>
    cases ran
    exact (aside_leave _ r).continues rfl sh
  | releaseLease | decrementLoad | releaseClaim =>
    obtain ⟨state, -, done⟩ := asserted_ok ran
    cases done
    exact ⟨rfl, fun _ => trivial, nofun⟩
  | increment =>
    simp only [step] at ran
    split at ran
    · obtain ⟨count, -, done⟩ := asserted_ok ran
      cases done
      exact ⟨rfl, fun _ => trivial, nofun⟩
    · cases ran
      exact ⟨rfl, fun _ => trivial, nofun⟩
  | _ =>
    -- The others take no lease and run no HSM.
    simp only [step] at ran
    (repeat' split at ran) <;> cases ran <;> exact ⟨rfl, fun _ => trivial, nofun⟩

variable {c' : Call d B}

section
variable (ran : c.step i sh o = .ok (sh', c'))
include ran

theorem Call.step_args : c'.args = c.args := by
  cases c with
  | refused =>
    cases ran
    rfl
  | run => exact (step_continues ran).args
  | done => cases ran

theorem Call.step_eligible (eligible : c.Eligible) : c'.Eligible := by
  cases c with
  | refused args =>
    cases ran
    trivial
  | run => exact (step_continues ran).eligible eligible
  | done => cases ran

theorem Call.step_dispatching
    (inside : c'.dispatching = true) : c.dispatching = true ∨ c.takesLease sh = true := by
  cases c with
  | refused =>
    cases ran
    cases inside
  | run => exact (step_continues ran).enters inside
  | done => cases ran

end

end

section
variable {s t : Sys d B H}

theorem Sys.inHsm_call (inside : s.inHsm (.call i) = true) :
    ∃ c, s.calls[i]? = some c ∧ c.dispatching = true := by
  rw [inHsm] at inside
  split at inside
  · rename_i f found
    exact ⟨.run f, found, inside⟩
  · cases inside

theorem Call.enter_args (args : Args) : (Call.enter d B args).args = args := by
  unfold Call.enter
  split
  · rfl
  · split <;> rfl

theorem Call.enter_dispatching (args : Args) : (Call.enter d B args).dispatching = false := by
  unfold Call.enter
  split
  · rfl
  · split <;> rfl

theorem Call.enter_eligible (args : Args) : (Call.enter d B args).Eligible := by
  unfold Call.enter
  split
  · trivial
  · split <;> trivial

/-- The dispatch that takes the step. -/
def Label.actor : Label H → Option Caller
  | .submit args => args.caller
  | .call i _ => some (.call i)
  | .dispatcher _ => some .dispatcher
  | _ => none

/-- What a step does to the calls and the Dispatcher. -/
inductive Sys.Turn (s : Sys d B H) : Label H → Sys d B H → Prop where
  | submit {args} : s.maySubmit args.caller = true →
      Turn s (.submit args) { s with calls := s.calls ++ [Call.enter d B args] }
  | call {i o c c' sh'} : s.calls[i]? = some c → s.suspended (.call i) = false →
      c.step i s.shared o = .ok (sh', c') →
      Turn s (.call i o) { s with shared := sh', calls := s.calls.set i c' }
  | dispatcher {o sh' pc} : s.suspended .dispatcher = false →
      Turn s (.dispatcher o) { s with shared := sh', disp := pc }
  | other {label t} : label.actor = none → t.calls = s.calls → t.disp = s.disp → Turn s label t

variable {label : Label H}

theorem Sys.step_turn (ran : step label s = .ok t) : s.Turn label t := by
  cases label with
  | submit =>
    obtain ⟨may, rfl⟩ := step_submit ran
    exact .submit may
  | call =>
    obtain ⟨c, sh', c', found, awake, moved, rfl⟩ := step_call ran
    exact .call found awake moved
  | dispatcher =>
    obtain ⟨sh', pc, awake, -, rfl⟩ := step_dispatcher ran
    exact .dispatcher awake
  | requestStop | breaker =>
    cases ran
    exact .other rfl rfl rfl
  | stopper =>
    obtain ⟨stopper, sh', stopper', -, -, rfl⟩ := step_stopper ran
    exact .other rfl rfl rfl

variable {c : Caller}

theorem Sys.maySubmit_iff :
    s.maySubmit (some c) = true ↔ s.inHsm c = true ∧ s.suspended c = false := by
  rw [maySubmit, Bool.and_eq_true, Bool.not_eq_true']

theorem Sys.step_actor (ran : step label s = .ok t) (acts : label.actor = some c) :
    s.suspended c = false := by
  cases step_turn ran with
  | @submit args may =>
    rw [show args.caller = some c from acts] at may
    exact (maySubmit_iff.mp may).2
  | call _ awake | dispatcher awake =>
    cases acts
    exact awake
  | other idle =>
    rw [idle] at acts
    cases acts

theorem Sys.inHsm_congr (calls : ∀ i, c = .call i → t.calls[i]? = s.calls[i]?)
    (disp : c = .dispatcher → t.disp = s.disp) : t.inHsm c = s.inHsm c := by
  cases c with
  | call i => simp only [inHsm, calls i rfl]
  | dispatcher => simp only [inHsm, disp rfl]

theorem Sys.inHsm_enter (call : Call d B) (inside : s.inHsm c = true) :
    inHsm { s with calls := s.calls ++ [call] } c = true := by
  rw [← inside]
  refine inHsm_congr (fun i same => ?_) fun _ => rfl
  obtain ⟨found, there, -⟩ := inHsm_call (same ▸ inside)
  exact List.getElem?_append_left (List.getElem?_eq_some_iff.mp there).1

theorem Sys.inHsm_step (ran : step label s = .ok t) (idle : label.actor ≠ some c)
    (inside : s.inHsm c = true) : t.inHsm c = true := by
  cases step_turn ran with
  | submit => exact inHsm_enter _ inside
  | call =>
    rw [← inside]
    refine inHsm_congr (fun j same => ?_) fun _ => rfl
    refine List.getElem?_set_ne ?_
    rintro rfl
    exact idle (congrArg some same).symm
  | dispatcher =>
    rw [← inside]
    exact inHsm_congr (fun _ _ => rfl) fun same => (idle (congrArg some same).symm).elim
  | other _ calls disp =>
    rw [← inside]
    exact inHsm_congr (fun i _ => congrArg (·[i]?) calls) fun _ => disp

variable {hsm : AoId → H}

/-- What is true of a new call and kept by the steps of a call is true of every call. -/
theorem Reachable.calls {P : Call d B → Prop} (reached : Reachable hsm s)
    (enters : ∀ args, P (Call.enter d B args))
    (steps : ∀ {i sh sh' o c c'}, Call.step i sh (o : Oracle H) c = .ok (sh', c') → P c → P c') :
    ∀ call ∈ s.calls, P call := by
  refine reached.invariant (P := fun s => ∀ call ∈ s.calls, P call)
    (fun _ never => nomatch never) (fun label s t inv _ ran call mem => ?_)
  cases step_turn ran with
  | submit =>
    rcases List.mem_append.mp mem with old | new
    · exact inv call old
    · rw [List.mem_singleton.mp new]
      exact enters _
  | call found _ moved =>
    rcases List.mem_or_eq_of_mem_set mem with old | new
    · exact inv call old
    · rw [new]
      exact steps moved (inv _ (List.mem_of_getElem? found))
  | dispatcher => exact inv call mem
  | other _ calls => exact inv call (calls ▸ mem)

theorem Reachable.inHsm_eligible (reached : Reachable hsm s) (inside : s.inHsm (.call i) = true) :
    ∃ f : Frame d B, s.calls[i]? = some (.run f) ∧ (d.ao f.ao).directEligible = true := by
  obtain ⟨call, found, dispatching⟩ := inHsm_call inside
  have eligible := reached.calls Call.enter_eligible Call.step_eligible call (List.mem_of_getElem? found)
  cases call with
  | run f =>
    obtain ⟨args, ao, bound, now, arrival, t0, pc⟩ := f
    cases pc with
    | hsm => exact ⟨_, found, eligible⟩
    | _ => cases dispatching
  | refused | done => cases dispatching

theorem Sys.suspended_iff : s.suspended c = true ↔
    ∃ call ∈ s.calls, call.active = true ∧ call.args.caller = some c := by
  rw [suspended, List.any_eq_true]
  simp

/-- A dispatch is suspended by the submission it issues and by no other step. -/
theorem Sys.step_suspended (ran : step label s = .ok t) (waits : t.suspended c = true) :
    s.suspended c = true ∨ label.actor = some c ∧ t.inHsm c = true := by
  obtain ⟨call, mem, active, caller⟩ := suspended_iff.mp waits
  cases step_turn ran with
  | @submit _ may =>
    rcases List.mem_append.mp mem with old | new
    · exact .inl (suspended_iff.mpr ⟨call, old, active, caller⟩)
    · rw [List.mem_singleton.mp new, Call.enter_args] at caller
      rw [caller] at may
      exact .inr ⟨caller, inHsm_enter _ (maySubmit_iff.mp may).1⟩
  | @call _ _ c₀ _ _ found _ moved =>
    rcases List.mem_or_eq_of_mem_set mem with old | new
    · exact .inl (suspended_iff.mpr ⟨call, old, active, caller⟩)
    · rw [new, Call.step_args moved] at caller
      refine .inl (suspended_iff.mpr ⟨c₀, List.mem_of_getElem? found, ?_, caller⟩)
      cases c₀ with
      | done => cases moved
      | _ => rfl
  | dispatcher => exact .inl (suspended_iff.mpr ⟨call, mem, active, caller⟩)
  | other _ calls => exact .inl (suspended_iff.mpr ⟨call, calls ▸ mem, active, caller⟩)

theorem Reachable.inHsm_of_suspended (reached : Reachable hsm s) (waits : s.suspended c = true) :
    s.inHsm c = true := by
  refine reached.invariant (P := fun s => ∀ c, s.suspended c = true → s.inHsm c = true)
    (fun _ waits => nomatch waits) (fun label s t inside _ ran c waits => ?_) c waits
  rcases step_suspended ran waits with before | ⟨-, entered⟩
  · refine inHsm_step ran (fun acts => ?_) (inside c before)
    rw [step_actor ran acts] at before
    cases before
  · exact entered

end

section
variable {s t : Sys d B H}

/-- The dispatch runs in the thread of submission `j`, inside it. -/
inductive Sys.Under (s : Sys d B H) (j : Nat) : Caller → Prop where
  | submission : Under s j (.call j)
  | nested {m call c} : s.calls[m]? = some call → call.active = true →
      call.args.caller = some c → Under s j c → Under s j (.call m)

variable {call : Call d B}

theorem Sys.Under.suspended {m : Nat} (found : s.calls[m]? = some call)
    (active : call.active = true) (caller : call.args.caller = some c) : s.suspended c = true :=
  suspended_iff.mpr ⟨call, List.mem_of_getElem? found, active, caller⟩

/-- Along a chain of nested submissions, each inside the dispatch of the one before. -/
theorem Sys.Under.outermost {hsm : AoId → H} (reached : Reachable hsm s)
    (under : Under s j c) (inside : s.inHsm c = true) : s.inHsm (.call j) = true := by
  induction under with
  | submission => exact inside
  | nested found active caller _ ih =>
    exact ih (reached.inHsm_of_suspended (suspended found active caller))

variable {label : Label H}

theorem Sys.calls_step (ran : step label s = .ok t)
    (idle : label.actor ≠ some (.call m)) (found : s.calls[m]? = some call) :
    t.calls[m]? = some call := by
  cases step_turn ran with
  | submit => exact Foundation.getElem?_append_found _ found
  | call =>
    rw [List.getElem?_set_ne, found]
    rintro rfl
    exact idle rfl
  | dispatcher => exact found
  | other _ calls => rw [calls, found]

/-- A call stays outside the HSM as long as it does not take the lease. -/
theorem Sys.aside_step (ran : step label s = .ok t)
    (found : s.calls[j]? = some call) (aside : call.dispatching = false)
    (refrains : ∀ o, label = .call j o → call.takesLease s.shared = false) :
    ∃ call', t.calls[j]? = some call' ∧ call'.dispatching = false := by
  cases step_turn ran with
  | submit => exact ⟨call, Foundation.getElem?_append_found _ found, aside⟩
  | @call i o _ c' _ there _ moved =>
    by_cases same : i = j
    · subst same
      cases found.symm.trans there
      refine ⟨c', Foundation.getElem?_set_found found _, Bool.eq_false_iff.mpr fun inside => ?_⟩
      rcases Call.step_dispatching moved inside with before | takes
      · rw [aside] at before
        cases before
      · rw [refrains o rfl] at takes
        cases takes
    · exact ⟨call, by rw [List.getElem?_set_ne same, found], aside⟩
  | dispatcher => exact ⟨call, found, aside⟩
  | other _ calls => exact ⟨call, by rw [calls, found], aside⟩

theorem Sys.Under.step (under : Under s j c)
    (ran : step label s = .ok t) (idle : label.actor ≠ some c) : Under t j c := by
  induction under with
  | submission => exact .submission
  | nested found active caller _ ih =>
    refine .nested (calls_step ran idle found) active caller (ih fun acts => ?_)
    have waits := Under.suspended found active caller
    rw [step_actor ran acts] at waits
    cases waits

end

end Coact
