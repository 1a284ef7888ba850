import Coact.FreeRtos.Lifecycle
import Mathlib.Data.Fintype.Basic

/-! The kernel objects are created once, as long as no task takes the initialisation guard on an
old reading of `state_`. -/
namespace Coact.FreeRtos
open Foundation Function

variable {η : Type}

/-- The task is in `start_dispatcher`. -/
def Pc.starting : Pc → Bool
  | .ensure .start _ | .start _ => true
  | _ => false

/-- `test_and_set` is ahead. -/
def Pc.atGuard : Pc → Bool
  | .ensure _ .testAndSet => true
  | _ => false

/-- The guard is taken in `kUninitialized` only, and starts do not overlap each other. -/
def Fresh : LayerLabel η → Layer η → Prop
  | .advance t _, s => (s.pc t).atGuard = true → s.shared.guard = none →
      s.shared.state = .kUninitialized
  | .start _, s => ∀ u, (s.pc u).starting = false
  | _, _ => True

instance [Fintype η] (l : LayerLabel η) (s : Layer η) : Decidable (Fresh l s) :=
  match l with
  | .advance t _ => inferInstanceAs (Decidable ((s.pc t).atGuard = true → s.shared.guard = none →
      s.shared.state = .kUninitialized))
  | .start _ => inferInstanceAs (Decidable (∀ u, (s.pc u).starting = false))
  | .register _ _ | .join _ => inferInstanceAs (Decidable True)

/-- The place of an object in the creation sequence. -/
def KernelObject.rank : KernelObject → Nat
  | .wake | .dispatcher => 0
  | .join => 1
  | .workerStart k => 3 * k + 2
  | .workerJoin k => 3 * k + 3
  | .workerTask k => 3 * k + 4

/-- The sequence has not come to the object of rank `r`. -/
def Shared.Below (sh : Shared η) (r : Nat) : Prop :=
  ∀ o, o ≠ .dispatcher → sh.objects o = true → o.rank < r

/-- The task is in the creation sequence and has not stored its end in `state_`. -/
structure Shared.Storing (sh : Shared η) (t : η) : Prop where
  guard : sh.guard = some t
  state : sh.state = .kUninitialized
  sequences : sh.sequences = 1
  completed : sh.completed = false

def EnsurePc.Fits (sh : Shared η) (t : η) : EnsurePc → Prop
  | .clampStack | .wipeSlots | .createWake => sh.Storing t ∧ sh.Below 0
  | .createJoin => sh.Storing t ∧ sh.Below 1
  | .createWorkerStart k => sh.Storing t ∧ sh.Below (3 * k + 2)
  | .createWorkerJoin k _ => sh.Storing t ∧ sh.Below (3 * k + 3)
  | .createWorkerTask k => sh.Storing t ∧ sh.Below (3 * k + 4)
  | .rollback _ | .setError _ | .setInitFailed | .setReady => sh.Storing t
  | .loadError | .clearGuard _ => sh.guard = some t ∧ sh.state ≠ .kUninitialized
  | .isInitFailed | .loadLast => sh.state ≠ .kUninitialized
  | .returned result => result = .kOk → sh.state ≠ .kUninitialized
  | _ => True

def StartPc.Fits (sh : Shared η) : StartPc → Prop
  | .readStarted | .setStarted => sh.state ≠ .kUninitialized
  | .readStopped => sh.state ≠ .kUninitialized ∧
      (sh.objects .dispatcher = true → sh.state = .kStopped)
  | .scheduler | .stackWords | .createDispatcher | .setError _ | .setInitFailed =>
    sh.state ≠ .kUninitialized ∧ sh.objects .dispatcher = false
  | .loadLast => True

def StopPc.Fits (sh : Shared η) : StopPc → Prop
  | .readStarted => True
  | .take | .setStopped => sh.state ≠ .kUninitialized

def Pc.Fits (sh : Shared η) (t : η) : Pc → Prop
  | .ensure _ pc => pc.Fits sh t
  | .start pc => pc.Fits sh
  | .stop pc => pc.Fits sh
  | .idle | .register _ _ => True

/-- Nothing was created twice and no registered task lost its slot. -/
structure Shared.Once (sh : Shared η) : Prop where
  first : (sh.sequences = 0 ∧ sh.state = .kUninitialized ∧ sh.guard = none ∧ sh.Below 0 ∧
      sh.completed = false) ∨
    (sh.sequences = 1 ∧ (sh.state = .kUninitialized → sh.guard.isSome = true))
  completed : sh.completed = true → sh.state ≠ .kUninitialized
  recreated : sh.recreated = []
  wiped : sh.wiped = []

structure Layer.Once (s : Layer η) : Prop where
  shared : s.shared.Once
  fits : ∀ t, (s.pc t).Fits s.shared t
  dispatcher : s.shared.objects .dispatcher = true →
    s.shared.state = .kStarted ∨ s.shared.state = .kStopped ∨ ∃ t, s.pc t = .start .setStarted
  alone : ∀ t u, (s.pc t).starting = true → (s.pc u).starting = true → t = u

section
variable {sh sh' : Shared η} {u : η} {pc : Pc}

/-- What another task needs to be left alone: a task with the guard the fields of the sequence,
a start the dispatcher's, and everyone that `state_` does not go back. -/
structure Leaves (sh sh' : Shared η) (u : η) (starting : Bool) : Prop where
  inside : sh.guard = some u → sh'.guard = some u ∧ sh'.sequences = sh.sequences ∧
    sh'.completed = sh.completed ∧
    (∀ o, o ≠ .dispatcher → sh'.objects o = true → sh.objects o = true) ∧
    (sh.state = .kUninitialized → sh'.state = .kUninitialized)
  state : sh.state ≠ .kUninitialized → sh'.state ≠ .kUninitialized
  starts : starting = true → sh'.objects .dispatcher = sh.objects .dispatcher ∧
    (sh.state = .kStopped → sh'.state = .kStopped)

theorem Shared.Storing.leaves (storing : sh.Storing u) {starting : Bool}
    (leaves : Leaves sh sh' u starting) : sh'.Storing u := by
  obtain ⟨guard, sequences, completed, -, state⟩ := leaves.inside storing.guard
  exact ⟨guard, state storing.state, sequences.trans storing.sequences,
    completed.trans storing.completed⟩

theorem Shared.Below.leaves (below : sh.Below r) (storing : sh.Storing u)
    {starting : Bool} (leaves : Leaves sh sh' u starting) : sh'.Below r := by
  intro o other there
  obtain ⟨-, -, -, objects, -⟩ := leaves.inside storing.guard
  exact below o other (objects o other there)

theorem Pc.Fits.leaves (fits : pc.Fits sh u) (leaves : Leaves sh sh' u pc.starting) :
    pc.Fits sh' u := by
  cases pc with
  | idle | register _ _ => trivial
  | ensure g pc =>
    cases pc with
    | clampStack | wipeSlots | createWake | createJoin | createWorkerStart
    | createWorkerJoin | createWorkerTask =>
      exact ⟨fits.1.leaves leaves, fits.2.leaves fits.1 leaves⟩
    | rollback | setError | setInitFailed | setReady =>
      exact Shared.Storing.leaves fits leaves
    | loadError | clearGuard => exact ⟨(leaves.inside fits.1).1, leaves.state fits.2⟩
    | isInitFailed | loadLast => exact leaves.state fits
    | returned => exact fun ok => leaves.state (fits ok)
    | _ =>
      trivial
  | start pc =>
    obtain ⟨dispatcher, stopped⟩ := leaves.starts rfl
    cases pc with
    | readStarted | setStarted => exact leaves.state fits
    | readStopped =>
      exact ⟨leaves.state fits.1, fun there => stopped (fits.2 (dispatcher ▸ there))⟩
    | scheduler | stackWords | createDispatcher | setError | setInitFailed =>
      exact ⟨leaves.state fits.1, dispatcher ▸ fits.2⟩
    | loadLast => trivial
  | stop pc =>
    cases pc with
    | readStarted => trivial
    | take | setStopped => exact leaves.state fits

end

section
variable {sh : Shared η} {o : KernelObject} {t : η}

theorem Shared.Below.absent (below : sh.Below o.rank) (other : o ≠ .dispatcher) :
    sh.objects o = false := by
  by_contra there
  rw [Bool.not_eq_false] at there
  exact Nat.lt_irrefl _ (below o other there)

theorem Shared.Below.create (below : sh.Below o.rank) (ok : Bool) :
    (sh.create o ok).Below (o.rank + 1) := by
  intro x other there
  rcases eq_or_ne x o with rfl | apart
  · exact Nat.lt_succ_self _
  · simp only [Shared.create, update_of_ne apart] at there
    exact Nat.lt_succ_of_lt (below x other there)

theorem Shared.create_recreated (absent : sh.objects o = false) (ok : Bool) :
    (sh.create o ok).recreated = sh.recreated := by
  simp [Shared.create, absent]

theorem Shared.create_dispatcher (other : o ≠ .dispatcher) (ok : Bool) :
    (sh.create o ok).objects .dispatcher = sh.objects .dispatcher :=
  update_of_ne (Ne.symm other) ..

theorem Shared.Storing.of_eq {sh' : Shared η} (storing : sh.Storing t) (guard : sh'.guard = sh.guard)
    (state : sh'.state = sh.state) (sequences : sh'.sequences = sh.sequences)
    (completed : sh'.completed = sh.completed) : sh'.Storing t :=
  ⟨guard.trans storing.guard, state.trans storing.state, sequences.trans storing.sequences,
    completed.trans storing.completed⟩

end

/-- The fields that the invariant speaks of are the same. -/
structure Agrees (sh sh' : Shared η) : Prop where
  state : sh'.state = sh.state
  guard : sh'.guard = sh.guard
  objects : sh'.objects = sh.objects
  sequences : sh'.sequences = sh.sequences
  completed : sh'.completed = sh.completed
  recreated : sh'.recreated = sh.recreated
  wiped : sh'.wiped = sh.wiped

theorem Agrees.data {lastError : InitError} {dispatcherStackBytes : Nat}
    {slots : List (ContextSlot η)} : Agrees sh { sh with lastError, dispatcherStackBytes, slots } :=
  ⟨rfl, rfl, rfl, rfl, rfl, rfl, rfl⟩

theorem Agrees.leaves (agrees : Agrees sh sh') (u : η) (starting : Bool) :
    Leaves sh sh' u starting where
  inside guard := ⟨agrees.guard.trans guard, agrees.sequences, agrees.completed,
    fun _ _ there => agrees.objects ▸ there, agrees.state.trans⟩
  state := fun other => agrees.state ▸ other
  starts _ := ⟨congrFun agrees.objects _, agrees.state.trans⟩

theorem Agrees.once (agrees : Agrees sh sh') (once : sh.Once) : sh'.Once := by
  constructor
  · simpa only [Shared.Below, agrees.state, agrees.guard, agrees.objects, agrees.sequences,
      agrees.completed] using once.first
  · simpa only [agrees.state, agrees.completed] using once.completed
  · exact agrees.recreated.trans once.recreated
  · exact agrees.wiped.trans once.wiped

namespace Layer.Once
variable {s : Layer η} {sh' : Shared η} {t : η} {pc' : Pc} {returns : List (Return η)}

theorem init : Once (Layer.init res stackBytes : Layer η) := by
  constructor
  · refine ⟨.inl ⟨rfl, rfl, rfl, ?_, rfl⟩, ?_, rfl, rfl⟩
    · intro o _ there
      cases there
    · intro completed
      cases completed
  · intro t
    trivial
  · intro there
    cases there
  · intro t u starting
    cases starting

theorem sequence_entered (once : s.Once) (entered : s.shared.guard.isSome = true ∨
    s.shared.state ≠ .kUninitialized) : s.shared.sequences = 1 := by
  rcases once.shared.first with ⟨-, state, guard, -⟩ | ⟨one, -⟩
  · rcases entered with held | other
    · simp [guard] at held
    · exact absurd state other
  · exact one

theorem no_dispatcher (once : s.Once) (early : s.shared.state = .kUninitialized) :
    s.shared.objects .dispatcher = false := by
  by_contra there
  rw [Bool.not_eq_false] at there
  rcases once.dispatcher there with here | here | ⟨u, place⟩
  · cases early.symm.trans here
  · cases early.symm.trans here
  · have fits := once.fits u
    rw [place] at fits
    exact fits early

variable [DecidableEq η]

theorem move (once : s.Once) (shared : sh'.Once) (fits : pc'.Fits sh' t)
    (leaves : ∀ u, u ≠ t → Leaves s.shared sh' u (s.pc u).starting)
    (dispatcher : sh'.objects .dispatcher = true → sh'.state = .kStarted ∨ sh'.state = .kStopped ∨
      pc' = .start .setStarted ∨ ∃ u, u ≠ t ∧ s.pc u = .start .setStarted)
    (starting : pc'.starting = true → ∀ u, u ≠ t → (s.pc u).starting = false) :
    Once { shared := sh', pc := update s.pc t pc', returns } := by
  constructor
  · exact shared
  · intro u
    rcases eq_or_ne u t with rfl | other
    · simpa only [update_self] using fits
    · simpa only [update_of_ne other] using (once.fits u).leaves (leaves u other)
  · intro there
    rcases dispatcher there with here | here | here | ⟨u, other, place⟩
    · exact .inl here
    · exact .inr (.inl here)
    · exact .inr (.inr ⟨t, by simpa only [update_self] using here⟩)
    · exact .inr (.inr ⟨u, by simpa only [update_of_ne other] using place⟩)
  · intro u v one two
    simp only at one two
    by_cases first : u = t
    · subst first
      by_contra other
      rw [update_self] at one
      rw [update_of_ne (Ne.symm other), starting one v (Ne.symm other)] at two
      cases two
    · rw [update_of_ne first] at one
      by_cases second : v = t
      · subst second
        rw [update_self] at two
        rw [starting two u first] at one
        cases one
      · rw [update_of_ne second] at two
        exact once.alone u v one two

omit [DecidableEq η] in
theorem alone_still (once : s.Once) (kept : pc'.starting = true → (s.pc t).starting = true)
    (starting : pc'.starting = true) (u : η) (other : u ≠ t) : (s.pc u).starting = false := by
  by_contra too
  rw [Bool.not_eq_false] at too
  exact other (once.alone u t too (kept starting))

theorem quiet (once : s.Once) (agrees : Agrees s.shared sh') (fits : pc'.Fits s.shared t)
    (elsewhere : s.pc t ≠ .start .setStarted)
    (starting : pc'.starting = true → ∀ u, u ≠ t → (s.pc u).starting = false) :
    Once { shared := sh', pc := update s.pc t pc', returns } := by
  refine once.move (agrees.once once.shared) (fits.leaves (agrees.leaves t _))
    (fun u _ => agrees.leaves u _) ?_ starting
  intro there
  rw [agrees.objects] at there
  rw [agrees.state]
  rcases once.dispatcher there with here | here | ⟨u, place⟩
  · exact .inl here
  · exact .inr (.inl here)
  · refine .inr (.inr (.inr ⟨u, ?_, place⟩))
    rintro rfl
    exact elsewhere place

/-- The task with the guard creates or deletes objects, or stores the end of the sequence. -/
theorem build (once : s.Once) (storing : s.shared.Storing t)
    (end' : sh'.Storing t ∨ (sh'.sequences = 1 ∧ sh'.state ≠ .kUninitialized))
    (objects : sh'.objects .dispatcher = s.shared.objects .dispatcher)
    (recreated : sh'.recreated = s.shared.recreated) (wiped : sh'.wiped = s.shared.wiped)
    (fits : pc'.Fits sh' t) (kept : pc'.starting = true → (s.pc t).starting = true) :
    Once { shared := sh', pc := update s.pc t pc', returns } := by
  have none := once.no_dispatcher storing.state
  refine once.move ?_ fits ?_ ?_ (once.alone_still kept)
  · refine ⟨?_, ?_, recreated.trans once.shared.recreated, wiped.trans once.shared.wiped⟩
    · rcases end' with storing' | ⟨one, ended⟩
      · exact .inr ⟨storing'.sequences, fun _ => by simp [storing'.guard]⟩
      · exact .inr ⟨one, fun early => absurd early ended⟩
    · rcases end' with storing' | ⟨-, ended⟩
      · intro completed
        cases storing'.completed.symm.trans completed
      · exact fun _ => ended
  · intro u other
    constructor
    · intro guard
      exact absurd (Option.some.inj (guard.symm.trans storing.guard)) other
    · exact fun later => absurd storing.state later
    · intro _
      refine ⟨objects, fun stopped => ?_⟩
      cases storing.state.symm.trans stopped
  · intro there
    cases (objects.trans none).symm.trans there

variable {g : Goal}

theorem acquire (once : s.Once) (fresh : s.shared.state = .kUninitialized)
    (free : s.shared.guard = none) (place : s.pc t = .ensure g .testAndSet) : Once {
      shared := { s.shared with guard := some t, sequences := s.shared.sequences + 1 }
      pc := update s.pc t (.ensure g .clampStack)
      returns } := by
  obtain ⟨zero, -, -, below, early⟩ : s.shared.sequences = 0 ∧ _ := by
    refine once.shared.first.resolve_right ?_
    rintro ⟨-, held⟩
    simpa [free] using held fresh
  have none := once.no_dispatcher fresh
  refine once.move ?_ ⟨⟨rfl, fresh, by simp [zero], early⟩, below⟩ ?_ ?_ (once.alone_still ?_)
  · refine ⟨.inr ⟨by simp [zero], fun _ => rfl⟩, ?_, once.shared.recreated, once.shared.wiped⟩
    exact once.shared.completed
  · intro u other
    refine ⟨?_, id, fun _ => ⟨rfl, id⟩⟩
    intro guard
    cases free.symm.trans guard
  · intro there
    cases none.symm.trans there
  · rw [place]
    cases g <;> exact id

theorem release (once : s.Once) (guard : s.shared.guard = some t)
    (ended : s.shared.state ≠ .kUninitialized) {result : InitError}
    (place : s.pc t = .ensure g (.clearGuard result)) : Once {
      shared := { s.shared with guard := none }
      pc := update s.pc t (.ensure g (.returned result))
      returns } := by
  have one := once.sequence_entered (.inr ended)
  refine once.move ?_ (fun _ => ended) ?_ ?_ (once.alone_still ?_)
  · refine ⟨.inr ⟨one, fun early => absurd early ended⟩, ?_, once.shared.recreated,
      once.shared.wiped⟩
    exact once.shared.completed
  · intro u other
    refine ⟨?_, id, fun _ => ⟨rfl, id⟩⟩
    intro held
    exact absurd (Option.some.inj (held.symm.trans guard)) other
  · intro there
    rcases once.dispatcher there with here | here | ⟨u, at'⟩
    · exact .inl here
    · exact .inr (.inl here)
    · refine .inr (.inr (.inr ⟨u, ?_, at'⟩))
      rintro rfl
      cases place.symm.trans at'
  · rw [place]
    cases g <;> exact id

theorem store (once : s.Once) (ended : s.shared.state ≠ .kUninitialized) {state : Lifecycle}
    (later : state ≠ .kUninitialized) (fits : pc'.Fits { s.shared with state } t)
    (dispatcher : s.shared.objects .dispatcher = true → state = .kStarted ∨ state = .kStopped)
    (starts : ∀ u, u ≠ t → (s.pc u).starting = true → state = .kStopped)
    (starting : pc'.starting = true → (s.pc t).starting = true) :
    Once {
      shared := { s.shared with state }
      pc := update s.pc t pc'
      returns } := by
  have one := once.sequence_entered (.inr ended)
  refine once.move ?_ fits ?_ ?_ (once.alone_still starting)
  · refine ⟨.inr ⟨one, fun early => absurd early later⟩, fun _ => later, once.shared.recreated,
      once.shared.wiped⟩
  · intro u other
    refine ⟨?_, fun _ => later, fun going => ⟨rfl, fun _ => starts u other going⟩⟩
    intro held
    exact ⟨held, rfl, rfl, fun _ _ there => there, fun early => absurd early ended⟩
  · intro there
    rcases dispatcher there with here | here
    · exact .inl here
    · exact .inr (.inl here)

theorem create (once : s.Once) (storing : s.shared.Storing t)
    (below : s.shared.Below o.rank) (other : o ≠ .dispatcher) {ok : Bool}
    (fits : (s.shared.create o ok).Storing t → (s.shared.create o ok).Below (o.rank + 1) →
      pc'.Fits (s.shared.create o ok) t) (kept : pc'.starting = true → (s.pc t).starting = true) :
    Once {
      shared := s.shared.create o ok
      pc := update s.pc t pc'
      returns } := by
  have storing' : (s.shared.create o ok).Storing t := storing.of_eq rfl rfl rfl rfl
  exact once.build storing (.inl storing') (Shared.create_dispatcher other ok)
    (Shared.create_recreated (below.absent other) ok) rfl (fits storing' (below.create ok)) kept

variable {ok : Bool}

section
variable (once : s.Once)
include once

theorem ensure {pc : EnsurePc} (place : s.pc t = .ensure g pc)
    (fresh : pc = .testAndSet → s.shared.guard = none → s.shared.state = .kUninitialized) : Once {
      shared := (Layer.ensure res s.shared t ok pc).1
      pc := update s.pc t (.ensure g (Layer.ensure res s.shared t ok pc).2)
      returns } := by
  have fits := once.fits t
  rw [place] at fits
  have elsewhere : s.pc t ≠ .start .setStarted := by simp [place]
  have kept : ∀ pc', (Pc.ensure g pc').starting = true → (s.pc t).starting = true := by
    intro pc' starting
    rw [place]
    cases g <;> exact starting
  have alone : ∀ pc', (Pc.ensure g pc').starting = true → ∀ u, u ≠ t → (s.pc u).starting = false :=
    fun pc' => once.alone_still (kept pc')
  cases pc with
  | isUninitialized =>
    refine once.quiet .data ?_ elsewhere (alone _)
    simp only [Layer.ensure]
    split
    · trivial
    · assumption
  | isInitFailed =>
    refine once.quiet .data ?_ elsewhere (alone _)
    simp only [Layer.ensure]
    split
    · exact fits
    · exact fun _ => fits
  | readReady =>
    refine once.quiet .data ?_ elsewhere (alone _)
    simp only [Layer.ensure]
    split
    · rename_i ready
      exact fun _ => by simp [ready]
    · trivial
  | readInitFailed =>
    refine once.quiet .data ?_ elsewhere (alone _)
    simp only [Layer.ensure]
    split
    · rename_i failed
      simp [Pc.Fits, EnsurePc.Fits, failed]
    · trivial
  | readStarted | readStopped =>
    refine once.quiet .data ?_ elsewhere (alone _)
    simp only [Layer.ensure]
    split
    · simp [Pc.Fits, EnsurePc.Fits]
    · trivial
  | testAndSet =>
    simp only [Layer.ensure]
    split
    · refine once.quiet .data ?_ elsewhere (alone _)
      simp [Pc.Fits, EnsurePc.Fits]
    · rename_i open'
      have free := Option.not_isSome_iff_eq_none.mp open'
      exact once.acquire (fresh rfl free) free place
  | clampStack =>
    simp only [Layer.ensure]
    split
    · exact once.quiet .data fits.1 elsewhere (alone _)
    · exact once.quiet .data fits elsewhere (alone _)
  | wipeSlots =>
    refine once.quiet ⟨rfl, rfl, rfl, rfl, rfl, rfl, ?_⟩ fits elsewhere (alone _)
    simp [Layer.ensure, Shared.wipe, fits.1.completed]
  | createWake =>
    refine once.create (o := .wake) fits.1 fits.2 (by simp) (fun storing below => ?_) (kept _)
    simp only [Layer.ensure]
    split
    · exact ⟨storing, below⟩
    · exact storing
  | createJoin =>
    simp only [Layer.ensure]
    split
    · refine once.create (o := .join) fits.1 fits.2 (by simp) (fun storing below => ?_) (kept _)
      split
      · exact ⟨storing, below⟩
      · exact storing
    · have storing : ((s.shared.create .join ok).delete .wake).Storing t :=
        fits.1.of_eq rfl rfl rfl rfl
      refine once.build fits.1 (.inl storing) ?_ ?_ rfl storing (kept _)
      · rfl
      · exact Shared.create_recreated (fits.2.absent (o := .join) (by simp)) ok
  | createWorkerStart k =>
    exact once.create (o := .workerStart k) fits.1 fits.2 (by simp)
      (fun storing below => ⟨storing, below⟩) (kept _)
  | createWorkerJoin k =>
    refine once.create (o := .workerJoin k) fits.1 fits.2 (by simp) (fun storing below => ?_) (kept _)
    simp only [Layer.ensure]
    split
    · exact ⟨storing, below⟩
    · exact storing
  | createWorkerTask k =>
    refine once.create (o := .workerTask k) fits.1 fits.2 (by simp) (fun storing below => ?_) (kept _)
    simp only [Layer.ensure]
    split
    · split
      · exact ⟨storing, below⟩
      · exact storing
    · exact storing
  | rollback k =>
    have storing : (s.shared.rollback k).Storing t := Shared.Storing.of_eq fits rfl rfl rfl rfl
    exact once.build fits (.inl storing) rfl rfl rfl storing (kept _)
  | setError | loadError => exact once.quiet .data fits elsewhere (alone _)
  | setInitFailed | setReady =>
    refine once.build fits (.inr ⟨fits.sequences, ?_⟩) rfl rfl rfl ⟨fits.guard, ?_⟩ (kept _) <;>
      simp [Layer.ensure]
  | clearGuard => exact once.release fits.1 fits.2 place
  | loadLast =>
    exact once.quiet .data (fun _ => fits) elsewhere (alone _)
  | returned =>
    exact once.quiet .data fits elsewhere (alone _)

/-- Behind the two reads of `start_dispatcher` there is no dispatcher. -/
theorem start {pc : StartPc} (place : s.pc t = .start pc) :
    Once {
      shared := (Layer.start res s.shared t ok pc).1
      pc := update s.pc t (Layer.start res s.shared t ok pc).2.1
      returns } := by
  have fits := once.fits t
  rw [place] at fits
  have here : (s.pc t).starting = true := by rw [place]; rfl
  have alone : ∀ pc' : Pc, pc'.starting = true → ∀ u, u ≠ t → (s.pc u).starting = false :=
    fun _ => once.alone_still fun _ => here
  have others : ∀ u, u ≠ t → (s.pc u).starting = true → ∀ {P : Prop}, P := by
    intro u other too
    exact absurd (once.alone u t too here) other
  cases pc with
  | readStarted =>
    simp only [Layer.start]
    split
    · exact once.quiet .data trivial (by simp [place]) (alone _)
    · rename_i unstarted
      refine once.quiet .data ⟨fits, ?_⟩ (by simp [place]) (alone _)
      intro there
      rcases once.dispatcher there with started | stopped | ⟨u, at'⟩
      · exact absurd started unstarted
      · exact stopped
      · have same := once.alone u t (by rw [at']; rfl) here
        rw [same, place] at at'
        cases at'
  | readStopped =>
    simp only [Layer.start]
    split
    · exact once.quiet .data trivial (by simp [place]) (alone _)
    · rename_i running
      refine once.quiet .data ⟨fits.1, ?_⟩ (by simp [place]) (alone _)
      by_contra there
      exact running (fits.2 (Bool.not_eq_false _ ▸ there))
  | scheduler | stackWords =>
    simp only [Layer.start]
    split <;>
      exact once.quiet .data fits (by simp [place]) (alone _)
  | createDispatcher =>
    have one := once.sequence_entered (.inr fits.1)
    have created := Shared.create_recreated fits.2 ok
    refine once.move ?_ ?_ ?_ ?_ (alone _)
    · exact ⟨.inr ⟨one, fun early => absurd early fits.1⟩, once.shared.completed,
        created.trans once.shared.recreated, once.shared.wiped⟩
    · cases ok with
      | true => exact fits.1
      | false => exact ⟨fits.1, by simp [Layer.start, Shared.create]⟩
    · intro u other
      refine ⟨?_, id, fun too => others u other too⟩
      intro held
      refine ⟨held, rfl, rfl, ?_, id⟩
      intro o apart there
      simpa only [Layer.start, Shared.create, update_of_ne apart] using there
    · intro there
      simp only [Layer.start, Shared.create, update_self] at there
      exact .inr (.inr (.inl (by simp [Layer.start, there])))
  | setStarted =>
    exact once.store fits (by simp) trivial (fun _ => .inl rfl) (fun u other too => others u other too)
      fun _ => here
  | setError =>
    exact once.quiet .data fits (by simp [place]) (alone _)
  | setInitFailed =>
    refine once.store fits.1 (by simp) trivial ?_ (fun u other too => others u other too)
      fun _ => here
    intro there
    cases fits.2.symm.trans there
  | loadLast =>
    exact once.quiet .data trivial (by simp [place]) (alone _)

theorem stop {pc : StopPc} (place : s.pc t = .stop pc) :
    Once {
      shared := (Layer.stop s.shared pc).1
      pc := update s.pc t (Layer.stop s.shared pc).2.1
      returns } := by
  have fits := once.fits t
  rw [place] at fits
  cases pc with
  | readStarted =>
    simp only [Layer.stop]
    split
    · rename_i started
      refine once.quiet .data ?_ (by simp [place]) ?_
      · simp [Pc.Fits, StopPc.Fits, started]
      · simp [Pc.starting]
    · exact once.quiet .data trivial (by simp [place])
        (by simp [Pc.starting])
  | take =>
    exact once.quiet .data fits (by simp [place])
      (by simp [Layer.stop, Pc.starting])
  | setStopped =>
    exact once.store fits (by simp) trivial (fun _ => .inr rfl) (fun _ _ _ => rfl)
      (by simp [Layer.stop, Pc.starting])

theorem register {prio : Nat} {pc : RegisterPc} (place : s.pc t = .register prio pc) :
    Once {
      shared := (Layer.register s.shared t ok prio pc).1
      pc := update s.pc t (Layer.register s.shared t ok prio pc).2.1
      returns } := by
  have elsewhere : s.pc t ≠ .start .setStarted := by simp [place]
  cases pc with
  | currentTask | claimSlot =>
    simp only [Layer.register]
    split <;>
      exact once.quiet .data trivial elsewhere (by simp [Pc.starting])
  | storeContext i =>
    exact once.quiet .data trivial elsewhere
      (by simp [Layer.register, Pc.starting])

theorem proceed {result : InitError} (place : s.pc t = .ensure g (.returned result)) :
    Once {
      shared := s.shared
      pc := update s.pc t (Layer.proceed t g result).1
      returns } := by
  have fits := once.fits t
  rw [place] at fits
  have elsewhere : s.pc t ≠ .start .setStarted := by simp [place]
  cases g with
  | register prio =>
    cases result with
    | _ =>
      exact once.quiet .data trivial elsewhere
        (by simp [Layer.proceed, Pc.starting])
  | start =>
    have alone : (Layer.proceed t .start result).1.starting = true →
        ∀ u, u ≠ t → (s.pc u).starting = false :=
      once.alone_still fun _ => by rw [place]; rfl
    cases result with
    | kOk => exact once.quiet .data (fits rfl) elsewhere alone
    | _ => exact once.quiet .data trivial elsewhere alone

theorem access
    (fresh : (s.pc t).atGuard = true → s.shared.guard = none → s.shared.state = .kUninitialized) :
    Once {
      shared := (Layer.access res s.shared t ok (s.pc t)).1
      pc := update s.pc t (Layer.access res s.shared t ok (s.pc t)).2.1
      returns } := by
  cases place : s.pc t with
  | idle => exact once.quiet .data trivial (by simp [place]) (by simp [Layer.access, Pc.starting])
  | ensure _ pc =>
    cases pc with
    | returned => exact once.proceed place
    | testAndSet => exact once.ensure place fun _ => fresh (by rw [place]; rfl)
    | _ => exact once.ensure place (by simp)
  | register => exact once.register place
  | start => exact once.start place
  | stop => exact once.stop place

theorem next (fresh : Fresh l s) (ran : step res l s = .ok s') : s'.Once := by
  cases l with
  | register t prio =>
    simp only [step] at ran
    split at ran
    · cases ran
    · rename_i ready
      split at ran <;> cases ran
      · exact { once with }
      · exact once.quiet .data trivial (by simp [not_not.mp ready]) (by simp [Pc.starting])
  | start t =>
    simp only [step] at ran
    split at ran <;> cases ran
    rename_i ready
    exact once.quiet .data trivial (by simp [not_not.mp ready]) fun _ u _ => fresh u
  | join t =>
    simp only [step] at ran
    split at ran <;> cases ran
    rename_i ready
    exact once.quiet .data trivial (by simp [not_not.mp ready]) (by simp [Pc.starting])
  | advance =>
    simp only [step] at ran
    split at ran <;> cases ran
    exact once.access fresh

end

end Layer.Once

/-- As long as the guard is taken in `kUninitialized` only and starts do not overlap, the
creation sequence is entered once, no object is created while it exists, and no registered task
is wiped from the table once the initialisation was completed. -/
theorem kernel_objects_created_once [DecidableEq η] (res : Resources) (stackBytes : Nat)
    {s : Layer η} (run : Reaches (Layer.step res) Fresh (Layer.init res stackBytes) s) :
    s.shared.sequences ≤ 1 ∧ s.shared.recreated = [] ∧ s.shared.wiped = [] := by
  have once : s.Once := by
    apply run.invariant (P := Layer.Once) .init
    intro label s s' once fresh ran
    exact once.next fresh ran
  refine ⟨?_, once.shared.recreated, once.shared.wiped⟩
  rcases once.shared.first with ⟨zero, -⟩ | ⟨one, -⟩
  · omega
  · omega

/-- Two producers register, one behind the other, and the second starts the dispatcher. -/
def registerInTurn : List (LayerLabel Bool) :=
  [.register true 5] ++ List.replicate 19 (.advance true true) ++
    [.register false 6] ++ List.replicate 6 (.advance false true) ++
    [.start false] ++ List.replicate 9 (.advance false true)

theorem kernel_objects_created_once_in_turn :
    (outcome (Layer.step smallResources) registerInTurn
      (Layer.init smallResources 512)).shared.objects .dispatcher = true ∧
    (outcome (Layer.step smallResources) registerInTurn
      (Layer.init smallResources 512)).shared.sequences ≤ 1 := by
  have run : Reaches (Layer.step smallResources) Fresh (Layer.init smallResources 512)
      (outcome (Layer.step smallResources) registerInTurn (Layer.init smallResources 512)) :=
    reaches_decided (by decide +kernel)
  exact ⟨by decide +kernel, (kernel_objects_created_once smallResources 512 run).1⟩

/-- A producer has read `kUninitialized` and is about to take the guard when another one
initialises the layer and registers. The first then takes the guard, wipes the other's slot and
creates the semaphores again. -/
theorem kernel_objects_created_again :
    ∃ s : Layer Bool,
      Reaches (Layer.step smallResources) Always (Layer.init smallResources 512) s ∧
      s.shared.sequences = 2 ∧ s.shared.recreated = [.wake, .join] ∧ s.shared.wiped = [true] := by
  refine ⟨outcome (Layer.step smallResources)
    ([.register false 5] ++ List.replicate 5 (.advance false true) ++
      [.register true 6] ++ List.replicate 19 (.advance true true) ++
      List.replicate 5 (.advance false true)) (Layer.init smallResources 512),
    reaches_outcome (by decide +kernel), ?_, ?_, ?_⟩ <;> decide +kernel

end Coact.FreeRtos
