import Coact.Executor

/-! `state_mutex_`. `run_once`, `arm`, `wake` and `live_count` lock it, whoever calls them, and
`run_once` keeps it while it runs the bodies. So the thread that runs a body owns the mutex,
and a body that calls one of these functions makes its thread wait for itself. -/
namespace Coact.Executor
open Foundation Function

variable {n : Nat} {σ : Type}

/-- A call of a function that locks `state_mutex_`. -/
inductive Request (n : Nat) where
  | call (call : Call n)
  | runOnce
  deriving DecidableEq, Repr

/-- A call under way: its `lock_guard` has the mutex or is still at the lock. -/
structure Frame (n : Nat) where
  request : Request n
  locked : Bool
  deriving DecidableEq, Repr

/-- An access of `run_once` or of the body it runs. -/
def Label.ofPass : Label n σ → Bool
  | .begin _ | .visit | .leave _ | .take _ _ _ | .takeStep _ | .finish => true
  | .call _ | .publish _ | .bump _ | .notify _ => false

/-- An access of `CoroSem::release`, which needs no mutex. -/
def Label.ofRelease : Label n σ → Bool
  | .publish _ | .bump _ | .notify _ => true
  | _ => false

/-- The executor with its mutex. `frames t` are the calls that thread `t` is in, the innermost
first. -/
structure Guarded (n : Nat) (σ : Type) where
  machine : Machine n σ
  owner : Option Nat
  frames : Nat → List (Frame n)

inductive Guarded.Label (n : Nat) (σ : Type) where
  | invoke (t : Nat) (request : Request n)
  | lock (t : Nat)
  | execute (t : Nat)
  | run (t : Nat) (label : Executor.Label n σ)
  | release (label : Executor.Label n σ)

namespace Guarded

def initial (n : Nat) (permits : σ → Nat) (binary : σ → Bool) : Guarded n σ :=
  ⟨.initial n permits binary, none, fun _ => []⟩

/-- Thread `t` runs a body, which is not inside `CoroSem::take`. -/
def inBody (g : Guarded n σ) (t : Nat) : Bool :=
  decide ((g.frames t).head? = some ⟨.runOnce, true⟩) &&
    (g.machine.slotAt .body).any fun (_, i) => (g.machine.takes i).isNone

/-- The call returns and its `lock_guard` unlocks. -/
def unlock (g : Guarded n σ) (t : Nat) (rest : List (Frame n)) (m : Machine n σ) : Guarded n σ :=
  ⟨m, none, update g.frames t rest⟩

/-- A thread that is in no call may make one, and so may a body. The mutex is not recursive: it
blocks everybody, its owner included. -/
def step [DecidableEq σ] : Label n σ → Guarded n σ → Except Stuck (Guarded n σ)
  | .invoke t request, g =>
    if g.frames t = [] ∨ g.inBody t = true then
      .ok { g with frames := update g.frames t (⟨request, false⟩ :: g.frames t) }
    else .error .disabled
  | .lock t, g =>
    match g.frames t with
    | ⟨request, false⟩ :: rest =>
      if g.owner = none then
        .ok ⟨g.machine, some t, update g.frames t (⟨request, true⟩ :: rest)⟩
      else .error .mutex
    | _ => .error .disabled
  | .execute t, g =>
    match g.frames t with
    | ⟨.call call, true⟩ :: rest => .ok (g.unlock t rest (g.machine.execute call))
    | _ => .error .disabled
  | .run t label, g =>
    match g.frames t with
    | ⟨.runOnce, true⟩ :: rest =>
      if label.ofPass then
        (Machine.step label g.machine).map fun m =>
          match label with
          | .finish => g.unlock t rest m
          | _ => { g with machine := m }
      else .error .disabled
    | _ => .error .disabled
  | .release label, g =>
    if label.ofRelease then (Machine.step label g.machine).map fun m => { g with machine := m }
    else .error .disabled

/-- What a step does. -/
inductive Step [DecidableEq σ] (g : Guarded n σ) : Label n σ → Guarded n σ → Prop where
  | invoked {t : Nat} {request : Request n} : g.frames t = [] ∨ g.inBody t = true →
      Step g (.invoke t request)
        { g with frames := update g.frames t (⟨request, false⟩ :: g.frames t) }
  | locked {t : Nat} {request : Request n} {rest : List (Frame n)} :
      g.frames t = ⟨request, false⟩ :: rest → g.owner = none →
      Step g (.lock t) ⟨g.machine, some t, update g.frames t (⟨request, true⟩ :: rest)⟩
  | executed {t : Nat} {call : Call n} {rest : List (Frame n)} :
      g.frames t = ⟨.call call, true⟩ :: rest →
      Step g (.execute t) (g.unlock t rest (g.machine.execute call))
  | finished {t : Nat} {rest : List (Frame n)} {m : Machine n σ} :
      g.frames t = ⟨.runOnce, true⟩ :: rest → Machine.step .finish g.machine = .ok m →
      Step g (.run t .finish) (g.unlock t rest m)
  | ran {t : Nat} {label : Executor.Label n σ} {m : Machine n σ} :
      ⟨.runOnce, true⟩ ∈ g.frames t → Machine.step label g.machine = .ok m →
      Step g (.run t label) { g with machine := m }
  | released {label : Executor.Label n σ} {m : Machine n σ} : label.ofRelease = true →
      Machine.step label g.machine = .ok m → Step g (.release label) { g with machine := m }

/-- Thread `t` waits for the mutex that it owns. -/
def SelfLocked (g : Guarded n σ) (t : Nat) : Prop :=
  g.owner = some t ∧ (g.frames t).head?.map Frame.locked = some false

/-- A body does not call the executor it is run by: only threads that are in no call do. -/
def Outside : Label n σ → Guarded n σ → Prop
  | .invoke t _, g => g.frames t = []
  | _, _ => True

section
variable {g : Guarded n σ} {t : Nat}

/-- A thread has as many locked calls as it owns mutexes, and a pass belongs to one of them. -/
structure Owned (g : Guarded n σ) : Prop where
  owner : ∀ t, (g.frames t).countP Frame.locked = if g.owner = some t then 1 else 0
  pass : g.machine.pass ≠ none → ∃ t, ⟨.runOnce, true⟩ ∈ g.frames t

theorem initial_owned {permits : σ → Nat} {binary : σ → Bool} : (initial n permits binary).Owned :=
  ⟨fun _ => rfl, fun running => (running rfl).elim⟩

theorem Owned.of_locked (owned : g.Owned) {frame : Frame n} (mem : frame ∈ g.frames t)
    (locked : frame.locked = true) : g.owner = some t := by
  have positive := List.countP_pos_iff.mpr ⟨frame, mem, locked⟩
  rw [owned.owner] at positive
  by_contra other
  rw [if_neg other] at positive
  exact Nat.lt_irrefl 0 positive

theorem Owned.of_top (owned : g.Owned) (top : g.frames t = ⟨request, true⟩ :: rest) :
    g.owner = some t ∧ rest.countP Frame.locked = 0 := by
  have owner : g.owner = some t := owned.of_locked (top ▸ List.mem_cons_self) rfl
  have count := owned.owner t
  rw [top, List.countP_cons_of_pos rfl, if_pos owner] at count
  exact ⟨owner, Nat.succ.inj count⟩

/-- No pass is under way while another function has the mutex. -/
theorem Owned.no_pass (owned : g.Owned) (top : g.frames t = ⟨.call call, true⟩ :: rest) :
    g.machine.pass = none := by
  obtain ⟨owner, none⟩ := owned.of_top top
  by_contra running
  obtain ⟨u, inside⟩ := owned.pass running
  have same : t = u := Option.some.inj (owner.symm.trans (owned.of_locked inside rfl))
  rw [← same, top] at inside
  rcases List.mem_cons.mp inside with never | below
  · cases never
  · have := List.countP_eq_zero.mp none _ below
    exact this rfl

theorem Owned.unlock (owned : g.Owned) (top : g.frames t = ⟨request, true⟩ :: rest)
    {m : Machine n σ} (ended : m.pass = none) : (g.unlock t rest m).Owned := by
  obtain ⟨owner, below⟩ := owned.of_top top
  refine ⟨(forall_update_iff g.frames fun u frames =>
    frames.countP Frame.locked = if none = some u then 1 else 0).mpr ⟨below, fun u other => ?_⟩,
    fun running => (running ended).elim⟩
  rw [owned.owner u, owner, if_neg fun same => other (Option.some.inj same).symm]
  rfl

/-- The mutex belongs to a call that has locked it, so a thread in one call does not wait for
its own. -/
theorem Owned.not_selfLocked (owned : g.Owned) (short : (g.frames t).length ≤ 1) :
    ¬ g.SelfLocked t := by
  rintro ⟨owner, waits⟩
  have count := owned.owner t
  rw [if_pos owner] at count
  match found : g.frames t with
  | [] =>
    rw [found] at waits
    cases waits
  | frame :: rest =>
    rw [found] at waits short count
    have unlocked : ¬ frame.locked = true := by
      rw [Option.some.inj waits]
      exact Bool.false_ne_true
    rw [List.countP_cons_of_neg unlocked,
      List.length_eq_zero_iff.mp (Nat.le_zero.mp (Nat.le_of_succ_le_succ short))] at count
    cases count

theorem execute_pass (m : Machine n σ) (call : Call n) : (m.execute call).pass = m.pass := by
  cases call with
  | arm =>
    rw [Machine.execute, Machine.arm]
    split <;> rfl
  | wake =>
    rw [Machine.execute, Machine.wake]
    split <;> rfl
  | liveCount => rfl

end

section
variable [DecidableEq σ] {g g' : Guarded n σ} {t : Nat} {label : Label n σ}

theorem step_cases (stepped : step label g = .ok g') : Step g label g' := by
  cases label with
  | invoke t request =>
    simp only [step] at stepped
    split at stepped <;> cases stepped
    exact .invoked ‹_›
  | lock t =>
    simp only [step] at stepped
    split at stepped
    · split at stepped <;> cases stepped
      exact .locked ‹_› ‹_›
    · cases stepped
  | execute t =>
    simp only [step] at stepped
    split at stepped <;> cases stepped
    exact .executed ‹_›
  | run t label =>
    simp only [step] at stepped
    split at stepped
    · rename_i rest top
      split at stepped
      · obtain ⟨m, moved, done⟩ := map_ok stepped
        have inside : ⟨.runOnce, true⟩ ∈ g.frames t := top ▸ List.mem_cons_self
        cases label with
        | finish =>
          cases done
          exact .finished top moved
        | _ =>
          cases done
          exact .ran inside moved
      · cases stepped
    · cases stepped
  | release label =>
    simp only [step] at stepped
    split at stepped
    · obtain ⟨m, moved, rfl⟩ := map_ok stepped
      exact .released ‹_› moved
    · cases stepped

theorem release_pass {m m' : Machine n σ} {label : Executor.Label n σ}
    (release : label.ofRelease = true) (moved : Machine.step label m = .ok m') :
    m'.pass = m.pass := by
  cases Machine.step_moves moved with
  | published | bumped | notified => rfl
  | _ => cases release

theorem finish_pass {m m' : Machine n σ} (moved : Machine.step .finish m = .ok m') :
    m'.pass = none := by
  cases Machine.step_moves moved
  rfl

theorem Owned.next (owned : g.Owned) (stepped : Step g label g') : g'.Owned := by
  cases stepped with
  | @invoked t request =>
    refine ⟨(forall_update_iff g.frames fun u frames =>
      frames.countP Frame.locked = if g.owner = some u then 1 else 0).mpr
      ⟨owned.owner t, fun u _ => owned.owner u⟩, fun running => ?_⟩
    obtain ⟨u, inside⟩ := owned.pass running
    refine ⟨u, ?_⟩
    by_cases here : u = t
    · simp only [here, update_self]
      exact List.mem_cons_of_mem _ (here ▸ inside)
    · simpa only [update_of_ne here] using inside
  | @locked t request rest top free =>
    have idle : ∀ u, (g.frames u).countP Frame.locked = 0 := fun u => by
      rw [owned.owner u, free]
      rfl
    refine ⟨(forall_update_iff g.frames fun u frames =>
      frames.countP Frame.locked = if some t = some u then 1 else 0).mpr ⟨?_, fun u other => ?_⟩,
      fun running => ?_⟩
    · have below := idle t
      rw [top, List.countP_cons_of_neg Bool.false_ne_true] at below
      rw [List.countP_cons_of_pos rfl, below, if_pos rfl]
    · rw [idle u, if_neg fun same => other (Option.some.inj same).symm]
    · obtain ⟨u, inside⟩ := owned.pass running
      exact (List.countP_eq_zero.mp (idle u) _ inside rfl).elim
  | executed top =>
    refine owned.unlock top ?_
    rw [execute_pass]
    exact owned.no_pass top
  | finished top moved => exact owned.unlock top (finish_pass moved)
  | ran inside => exact ⟨owned.owner, fun _ => ⟨_, inside⟩⟩
  | released release moved =>
    refine ⟨owned.owner, fun running => owned.pass ?_⟩
    rwa [← release_pass release moved]

/-- What is done under the mutex is a step of the executor, so its results hold here. -/
theorem Owned.refines (owned : g.Owned) (stepped : Step g label g') :
    g'.machine = g.machine ∨
      ∃ label, Machine.step label g.machine = .ok g'.machine := by
  cases stepped with
  | invoked | locked => exact .inl rfl
  | @executed _ call _ top =>
    refine .inr ⟨.call call, ?_⟩
    rw [Machine.step, owned.no_pass top]
    rfl
  | finished _ moved | ran _ moved | released _ moved => exact .inr ⟨_, moved⟩

theorem SelfLocked.next (owned : g.Owned) (locked : g.SelfLocked t) (stepped : Step g label g') :
    g'.SelfLocked t := by
  obtain ⟨owner, waits⟩ := locked
  have not_top {u : Nat} {request : Request n} {rest : List (Frame n)}
      (top : g.frames u = ⟨request, true⟩ :: rest) : False := by
    obtain rfl : t = u := Option.some.inj (owner.symm.trans (owned.of_top top).1)
    rw [top] at waits
    cases waits
  cases stepped with
  | @invoked u =>
    refine ⟨owner, ?_⟩
    by_cases here : t = u
    · simp only [here, update_self]
      rfl
    · simpa only [update_of_ne here] using waits
  | locked _ free =>
    rw [free] at owner
    cases owner
  | executed top | finished top => exact (not_top top).elim
  | ran | released => exact ⟨owner, waits⟩

/-- The thread of a body owns the mutex, and so it waits for itself. -/
theorem Owned.selfLocked_of_inside (owned : g.Owned) (stepped : Step g (.invoke t request) g')
    (inside : g.frames t ≠ []) : g'.SelfLocked t := by
  cases stepped with
  | invoked may =>
    have body := may.resolve_left inside
    rw [inBody, Bool.and_eq_true, decide_eq_true_eq] at body
    refine ⟨owned.of_locked (List.mem_of_head? body.1) rfl, ?_⟩
    simp only [update_self]
    rfl

theorem SelfLocked.not_lock (locked : g.SelfLocked t) : step (.lock u) g ≠ .ok g' := by
  intro stepped
  cases step_cases stepped with
  | locked _ free => cases free.symm.trans locked.1

end

section
variable [DecidableEq σ] {permits : σ → Nat} {binary : σ → Bool} {g : Guarded n σ}

theorem Owned.reached (owned : g.Owned) (run : Reaches step allowed g later) : later.Owned := by
  apply run.invariant (P := Owned) owned
  intro label g g' owned _ stepped
  exact owned.next (step_cases stepped)

theorem SelfLocked.reached (owned : g.Owned) (locked : g.SelfLocked t)
    (run : Reaches step allowed g later) : later.SelfLocked t := by
  induction run with
  | refl => exact locked
  | tail before last locked =>
    obtain ⟨label, -, stepped⟩ := last
    exact locked.next (owned.reached before) (step_cases stepped)

/-- The executor inside a run with the mutex is in a state of a run of its own. -/
theorem reaches_machine (run : Reaches step Always (initial n permits binary) g) :
    Reaches Machine.step Always (.initial n permits binary) g.machine := by
  induction run with
  | refl => exact .refl
  | tail before last run =>
    obtain ⟨label, -, stepped⟩ := last
    rcases (initial_owned.reached before).refines (step_cases stepped) with same | ⟨label, moved⟩
    · rwa [same]
    · exact run.tail ⟨label, trivial, moved⟩

/-- Without calls from bodies no call is made inside another. -/
theorem single_frames (reached : Reaches step Outside (initial n permits binary) g) (t : Nat) :
    (g.frames t).length ≤ 1 := by
  refine reached.invariant (P := fun g => ∀ t, (g.frames t).length ≤ 1) (fun t => Nat.zero_le 1)
    ?_ t
  intro label g g' single outside stepped
  have replaced {t : Nat} {frames : List (Frame n)} (short : frames.length ≤ 1) :
      ∀ u, (update g.frames t frames u).length ≤ 1 :=
    (forall_update_iff g.frames fun _ frames => frames.length ≤ 1).mpr
      ⟨short, fun u _ => single u⟩
  cases step_cases stepped with
  | invoked =>
    apply replaced
    rw [outside]
    exact le_rfl
  | @locked t _ _ top =>
    have short := single t
    rw [top] at short
    exact replaced short
  | @executed t _ _ top | @finished t _ _ top =>
    have short := single t
    rw [top] at short
    exact replaced (Nat.le_of_succ_le short)
  | ran | released => exact single

/-- While a pass is under way, and so while a body runs, the mutex belongs to the thread that is
in `run_once`. As long as bodies do not call their executor, no thread waits for the mutex
that it owns. Each such call makes its thread do so, and then for good: nobody gets the mutex
any more. -/
theorem selfLocked_iff_inside :
    (∀ g : Guarded n σ, Reaches step Always (.initial n permits binary) g →
      g.machine.pass ≠ none → ∃ t, g.owner = some t ∧ ⟨.runOnce, true⟩ ∈ g.frames t) ∧
    (∀ g : Guarded n σ, Reaches step Outside (.initial n permits binary) g →
      ∀ t, ¬ g.SelfLocked t) ∧
    (∀ (g : Guarded n σ) t request g', Reaches step Always (.initial n permits binary) g →
      step (.invoke t request) g = .ok g' → ¬ Outside (.invoke t request) g →
      ∀ later, Reaches step Always g' later →
        later.SelfLocked t ∧ ∀ u next, step (.lock u) later ≠ .ok next) := by
  refine ⟨?_, ?_, ?_⟩
  · intro g reached running
    have owned : g.Owned := initial_owned.reached reached
    obtain ⟨t, inside⟩ := owned.pass running
    exact ⟨t, owned.of_locked inside rfl, inside⟩
  · intro g reached t
    exact (initial_owned.reached reached).not_selfLocked (single_frames reached t)
  · intro g t request g' reached stepped inside later run
    have owned : g.Owned := initial_owned.reached reached
    have stepped := step_cases stepped
    have locked := (owned.selfLocked_of_inside stepped inside).reached (owned.next stepped) run
    exact ⟨locked, fun u next => locked.not_lock⟩

end

instance Outside.instDecidable (label : Label n σ) (g : Guarded n σ) :
    Decidable (Outside label g) :=
  match label with
  | .invoke t _ => inferInstanceAs (Decidable (g.frames t = []))
  | .lock _ | .execute _ | .run _ _ | .release _ => isTrue trivial

/-- One slot. -/
def idle : Guarded 1 Unit := initial 1 (fun _ => 0) fun _ => true

/-- Thread 0 arms a slot and runs its body; thread 1 waits to wake it. -/
def bodyRuns : List (Label 1 Unit) :=
  [.invoke 0 (.call (.arm .zero)), .lock 0, .execute 0, .invoke 0 .runOnce, .lock 0,
    .run 0 (.begin 0), .invoke 1 (.call (.wake (Fin.last 0) ⟨true, 3⟩)), .run 0 .visit]

/-- The body waits for its task, and thread 1 wakes it after the pass. -/
def bodyWoken : List (Label 1 Unit) :=
  bodyRuns ++ [.run 0 (.leave (.yield ⟨.kWaitTask, 0, 3, 0, none⟩)), .run 0 .finish, .lock 1,
    .execute 1]

/-- The body asks for the number of live coroutines. -/
def bodyCounts : List (Label 1 Unit) := bodyRuns ++ [.invoke 0 (.call .liveCount)]

theorem selfLocked_iff_inside_counting :
    (∃ t, (outcome step bodyRuns idle).owner = some t ∧
      ⟨.runOnce, true⟩ ∈ (outcome step bodyRuns idle).frames t) ∧
    (∀ t, ¬ (outcome step bodyWoken idle).SelfLocked t) ∧
    ((outcome step bodyCounts idle).SelfLocked 0 ∧
      ∀ u next, step (.lock u) (outcome step bodyCounts idle) ≠ .ok next) := by
  have running : Reaches step Always idle (outcome step bodyRuns idle) :=
    reaches_outcome (by decide +kernel)
  refine ⟨selfLocked_iff_inside.1 _ running (by decide +kernel), ?_, ?_⟩
  · have quiet : Reaches step Outside idle (outcome step bodyWoken idle) :=
      reaches_decided (by decide +kernel)
    exact selfLocked_iff_inside.2.1 _ quiet
  · exact selfLocked_iff_inside.2.2 _ 0 (.call .liveCount) _ running rfl (by decide +kernel) _ .refl

/-- The thread of the body waits for the mutex it has as the thread of `run_once`. -/
theorem body_call_locks :
    Reaches step Always idle (outcome step bodyCounts idle) ∧
    (outcome step bodyCounts idle).owner = some 0 ∧
    (outcome step bodyCounts idle).frames 0 =
      [⟨.call .liveCount, false⟩, ⟨.runOnce, true⟩] :=
  ⟨reaches_outcome (by decide +kernel), by decide +kernel, by decide +kernel⟩

end Guarded
end Coact.Executor
