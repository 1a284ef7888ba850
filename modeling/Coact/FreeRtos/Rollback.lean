import Coact.Foundation.Program
import Coact.FreeRtos.Lifecycle
import Mathlib.Data.List.Nodup
import Mathlib.Data.List.TakeWhile
import Mathlib.Data.Nat.SuccPred

/-! `initialize` of the FreeRTOS layer (`pal_freertos.cpp`) called by one task: the
creation calls in their order, each of which may fail, and the rollback after the
first that does. The workers' loop and the loop that undoes it run call by call. -/
namespace Coact.FreeRtos
open Foundation Function

variable {η : Type}

/-- The layer, and the objects its kernel calls have created and deleted so far. -/
structure Kernel (η : Type) where
  shared : Shared η
  created : List KernelObject
  deleted : List KernelObject

namespace Kernel

/-- A `...CreateStatic` call; `ok` tells for which objects it gives a handle. -/
def create (ok : KernelObject → Bool) (s : Kernel η) (o : KernelObject) : Kernel η where
  shared := s.shared.create o (ok o)
  created := if ok o then s.created ++ [o] else s.created
  deleted := s.deleted

/-- Delete the object and set its handle to null. -/
def delete (s : Kernel η) (o : KernelObject) : Kernel η where
  shared := s.shared.delete o
  created := s.created
  deleted := s.deleted ++ [o]

/-- Delete the object if its handle is not null. -/
def release (s : Kernel η) (o : KernelObject) : Kernel η :=
  if s.shared.objects o then s.delete o else s

/-- One round of the loop over the workers. The two semaphores are both requested before
either handle is looked at. -/
def createWorker (ok : KernelObject → Bool) (s : Kernel η) (k : Nat) : Kernel η × Bool :=
  let s := (s.create ok (.workerStart k)).create ok (.workerJoin k)
  if s.shared.objects (.workerStart k) = false ∨ s.shared.objects (.workerJoin k) = false then
    (s, false)
  else
    let s := s.create ok (.workerTask k)
    (s, s.shared.objects (.workerTask k))

/-- The loop over the workers that are left, with its counter. -/
def createWorkers (ok : KernelObject → Bool) : Nat → Nat → Kernel η → Kernel η × Nat
  | 0, created, s => (s, created)
  | rest + 1, created, s =>
    match createWorker ok s created with
    | (s, true) => createWorkers ok rest (created + 1) s
    | (s, false) => (s, created)

/-- The objects of a worker in the order in which the rollback looks at them. -/
def workerObjects (k : Nat) : List KernelObject := [.workerTask k, .workerStart k, .workerJoin k]

/-- What the rollback looks at: `i <= created && i < count`. -/
def rollbackTargets (count created : Nat) : List KernelObject :=
  (List.range (min (created + 1) count)).flatMap workerObjects

/-- The workers up to and including the one that failed, then the two semaphores. -/
def undo (s : Kernel η) (count created : Nat) : Kernel η :=
  (((rollbackTargets count created).foldl release s).delete .join).delete .wake

def fail (s : Kernel η) (e : InitError) : Kernel η × InitError :=
  ({ s with shared := { s.shared with lastError := e, state := .kInitFailed } }, e)

/-- The clamped stack and the fresh table. -/
def prepare (s : Kernel η) : Kernel η :=
  { s with shared := { s.shared with dispatcherStackBytes := s.shared.clamped }.wipe }

/-- The end of `initialize`, after the loop over the workers. -/
def conclude (res : Resources) (loop : Kernel η × Nat) : Kernel η × InitError :=
  if loop.2 ≠ res.workerSlotCount then
    (loop.1.undo res.workerSlotCount loop.2).fail .kThreadInitFailed
  else
    ({ loop.1 with shared := { loop.1.shared with state := .kReady, completed := true } }, .kOk)

/-- `initialize` behind the guard. -/
def build (res : Resources) (ok : KernelObject → Bool) (s : Kernel η) : Kernel η × InitError :=
  if res.dispatcherStackBytes < s.shared.clamped then s.fail .kStackTooLarge
  else
    let s := s.prepare.create ok .wake
    if s.shared.objects .wake = false then s.fail .kSemInitFailed
    else
      let s := s.create ok .join
      if s.shared.objects .join = false then (s.delete .wake).fail .kSemInitFailed
      else conclude res (createWorkers ok res.workerSlotCount 0 s)

/-- The guard is set. -/
def enter (t : η) (s : Kernel η) : Kernel η :=
  { s with shared := { s.shared with guard := some t, sequences := s.shared.sequences + 1 } }

/-- The guard is cleared on every way out. -/
def leave (out : Kernel η × InitError) : Kernel η × InitError :=
  ({ out.1 with shared := { out.1.shared with guard := none } }, out.2)

/-- `initialize` -/
def initializeLayer (res : Resources) (ok : KernelObject → Bool) (t : η) (s : Kernel η) :
    Kernel η × InitError :=
  if s.shared.state = .kReady then (s, .kOk)
  else if s.shared.state = .kInitFailed then (s, s.shared.lastError)
  else if s.shared.state = .kStarted ∨ s.shared.state = .kStopped then (s, .kAlreadyInitialized)
  else if s.shared.guard.isSome then (s, .kAlreadyInitialized)
  else leave (build res ok (s.enter t))

def ensureInitialized (res : Resources) (ok : KernelObject → Bool) (t : η) (s : Kernel η) :
    Kernel η × InitError :=
  if s.shared.state = .kUninitialized then initializeLayer res ok t s
  else if s.shared.state = .kInitFailed then (s, s.shared.lastError)
  else (s, .kOk)

end Kernel

/-- The creation calls for one worker, in order. -/
def workerCreations (k : Nat) : List KernelObject := [.workerStart k, .workerJoin k, .workerTask k]

/-- The creation calls of `initialize` when none fails, in order. -/
def creations (count : Nat) : List KernelObject :=
  [.wake, .join] ++ (List.range count).flatMap workerCreations

/-- The first call that fails. -/
def firstFailing (ok : KernelObject → Bool) (calls : List KernelObject) : Option KernelObject :=
  calls.find? fun o => !ok o

/-- The one call that is still made after a failure: the join semaphore of a worker that has
got no start semaphore. -/
def afterFailure (ok : KernelObject → Bool) : Option KernelObject → List KernelObject
  | some (.workerStart k) => if ok (.workerJoin k) then [.workerJoin k] else []
  | _ => []

/-- What the calls create. -/
def made (ok : KernelObject → Bool) (calls : List KernelObject) : List KernelObject :=
  calls.takeWhile ok ++ afterFailure ok (firstFailing ok calls)

section

variable {ok : KernelObject → Bool} {calls : List KernelObject}

theorem made_append (done : firstFailing ok calls = none) (more : List KernelObject) :
    made ok (calls ++ more) = made ok calls ++ made ok more ∧
    firstFailing ok (calls ++ more) = firstFailing ok more := by
  have worked : ∀ o ∈ calls, ok o = true := by
    simpa [firstFailing] using done
  have later : firstFailing ok (calls ++ more) = firstFailing ok more := by
    rw [firstFailing, List.find?_append, ← firstFailing, done, Option.none_or, ← firstFailing]
  refine ⟨?_, later⟩
  have all : calls.takeWhile ok = calls := List.takeWhile_eq_self_iff.mpr worked
  rw [made, later, List.takeWhile_append_of_pos worked, made, made, done, all]
  simp [afterFailure]

theorem made_append_of_failing (failing : firstFailing ok calls = some o)
    (more : List KernelObject) :
    made ok (calls ++ more) = made ok calls ∧ firstFailing ok (calls ++ more) = some o := by
  have same : firstFailing ok (calls ++ more) = some o := by
    rw [firstFailing, List.find?_append, ← firstFailing, failing, Option.some_or]
  refine ⟨?_, same⟩
  have shorter : (calls.takeWhile ok).length ≠ calls.length := by
    intro whole
    have all := (List.takeWhile_prefix ok).eq_of_length whole
    have wrong := List.find?_some failing
    have mem := List.mem_of_find?_eq_some failing
    rw [← all] at mem
    rw [List.mem_takeWhile_imp mem] at wrong
    cases wrong
  rw [made, made, same, failing, List.takeWhile_append, if_neg shorter]

end

namespace Kernel

variable {ok : KernelObject → Bool} {s : Kernel η} {o p : KernelObject} {k : Nat}

/-- The objects that `initialize` may have created when it is about to create worker `k`. -/
def Known (k : Nat) : KernelObject → Prop
  | .wake | .join => True
  | .workerStart i | .workerJoin i | .workerTask i => i < k
  | .dispatcher => False

theorem Known.mono (le : k ≤ m) (known : Known k o) : Known m o := by
  cases o with
  | wake => trivial
  | join => trivial
  | workerStart | workerJoin | workerTask => exact known.trans_le le
  | dispatcher => exact known

/-- Nothing has been deleted, and the handles that are not null are those of the objects
created, each once. -/
structure Owned (k : Nat) (s : Kernel η) : Prop where
  nodup : s.created.Nodup
  held : ∀ o, s.shared.objects o = true ↔ o ∈ s.created
  kept : s.deleted = []
  known : ∀ o ∈ s.created, Known k o

theorem Owned.mono (owned : Owned k s) (le : k ≤ m) : Owned m s :=
  { owned with known := fun o mem => (owned.known o mem).mono le }

theorem created_create : (s.create ok o).created = s.created ++ if ok o then [o] else [] := by
  by_cases worked : ok o = true
  · simp only [create, if_pos worked]
  · simp [create, if_neg worked]

theorem mem_create : p ∈ (s.create ok o).created ↔ p ∈ s.created ∨ p = o ∧ ok o = true := by
  rw [created_create, List.mem_append]
  by_cases worked : ok o = true <;> simp [worked]

@[simp] theorem objects_create_self : (s.create ok o).shared.objects o = ok o :=
  update_self ..

theorem objects_create_of_ne (different : p ≠ o) :
    (s.create ok o).shared.objects p = s.shared.objects p :=
  update_of_ne different ..

theorem Owned.create (owned : Owned k s) (known : Known k o) (new : o ∉ s.created) :
    Owned k (s.create ok o) where
  nodup := by
    rw [created_create]
    by_cases worked : ok o = true
    · rw [if_pos worked]
      exact owned.nodup.append (List.nodup_singleton o) (by simpa using new)
    · rw [if_neg worked, List.append_nil]
      exact owned.nodup
  held p := by
    rw [mem_create]
    rcases eq_or_ne p o with rfl | different
    · simp [new]
    · rw [objects_create_of_ne different, owned.held]
      simp [different]
  kept := owned.kept
  known p mem := by
    rcases mem_create.mp mem with old | ⟨rfl, _⟩
    · exact owned.known p old
    · exact known

theorem createWorker_eq : createWorker ok s k =
    if ok (.workerStart k) && ok (.workerJoin k) then
      (((s.create ok (.workerStart k)).create ok (.workerJoin k)).create ok (.workerTask k),
        ok (.workerTask k))
    else ((s.create ok (.workerStart k)).create ok (.workerJoin k), false) := by
  have start : ((s.create ok (.workerStart k)).create ok
      (.workerJoin k)).shared.objects (.workerStart k) = ok (.workerStart k) := by
    rw [objects_create_of_ne (by simp), objects_create_self]
  simp only [createWorker, start, objects_create_self]
  cases ok (.workerStart k) <;> cases ok (.workerJoin k) <;> rfl

theorem createWorker_spec (ok : KernelObject → Bool) (owned : Owned k s) :
    (createWorker ok s k).1.created = s.created ++ made ok (workerCreations k) ∧
    (createWorker ok s k).2 = (firstFailing ok (workerCreations k)).isNone ∧
    Owned (k + 1) (createWorker ok s k).1 := by
  have fresh : ∀ o, ¬ Known k o → o ∉ s.created := fun o unknown mem =>
    unknown (owned.known o mem)
  have noStart := fresh (.workerStart k) (Nat.lt_irrefl k)
  have noJoin := fresh (.workerJoin k) (Nat.lt_irrefl k)
  have noTask := fresh (.workerTask k) (Nat.lt_irrefl k)
  have started : Owned (k + 1) (s.create ok (.workerStart k)) :=
    (owned.mono (Nat.le_succ k)).create (Nat.lt_succ_self k) noStart
  have joined : Owned (k + 1) ((s.create ok (.workerStart k)).create ok (.workerJoin k)) := by
    refine started.create (o := .workerJoin k) (Nat.lt_succ_self k) ?_
    simp [mem_create, noJoin]
  have tasked : Owned (k + 1)
      (((s.create ok (.workerStart k)).create ok (.workerJoin k)).create ok (.workerTask k)) := by
    refine joined.create (o := .workerTask k) (Nat.lt_succ_self k) ?_
    simp [mem_create, noTask]
  rw [createWorker_eq]
  cases start : ok (.workerStart k) with
  | false =>
    refine ⟨?_, ?_, by simpa using joined⟩
    · simp [created_create, made, workerCreations, firstFailing, afterFailure, start]
    · simp [workerCreations, firstFailing, start]
  | true =>
    cases join : ok (.workerJoin k) with
    | false =>
      refine ⟨?_, ?_, by simpa using joined⟩
      · simp [created_create, made, workerCreations, firstFailing, afterFailure, start, join]
      · simp [workerCreations, firstFailing, start, join]
    | true =>
      refine ⟨?_, ?_, by simpa using tasked⟩
      · cases task : ok (.workerTask k) <;>
          simp [created_create, made, workerCreations, firstFailing, afterFailure, start, join,
            task]
      · cases task : ok (.workerTask k) <;>
          simp [workerCreations, firstFailing, start, join, task]

/-- The loop over the workers stops behind the last one, or at the first call that fails. -/
theorem createWorkers_spec (ok : KernelObject → Bool) (rest : Nat) (owned : Owned k s) :
    (createWorkers ok rest k s).1.created =
      s.created ++ made ok ((List.range' k rest).flatMap workerCreations) ∧
    (if (firstFailing ok ((List.range' k rest).flatMap workerCreations)).isNone then
      (createWorkers ok rest k s).2 = k + rest
    else (createWorkers ok rest k s).2 < k + rest) ∧
    Owned ((createWorkers ok rest k s).2 + 1) (createWorkers ok rest k s).1 := by
  induction rest generalizing k s with
  | zero =>
    refine ⟨?_, ?_, owned.mono (Nat.le_succ k)⟩
    · simp [createWorkers, made, firstFailing, afterFailure]
    · simp [createWorkers, firstFailing]
  | succ rest ih =>
    obtain ⟨built, goesOn, next⟩ := createWorker_spec ok owned
    rw [List.range'_succ, List.flatMap_cons]
    cases failing : firstFailing ok (workerCreations k) with
    | none =>
      obtain ⟨grown, noneFailed⟩ :=
        made_append failing ((List.range' (k + 1) rest).flatMap workerCreations)
      have looped : createWorkers ok (rest + 1) k s =
          createWorkers ok rest (k + 1) (createWorker ok s k).1 := by
        rw [createWorkers]
        rw [failing] at goesOn
        rw [← Prod.eta (createWorker ok s k), goesOn]
        rfl
      obtain ⟨created, stopped, kept⟩ := ih next
      rw [looped, grown, noneFailed]
      refine ⟨?_, ?_, kept⟩
      · rw [created, built, List.append_assoc]
      · rwa [Nat.add_right_comm] at stopped
    | some o =>
      obtain ⟨grown, failed⟩ :=
        made_append_of_failing failing ((List.range' (k + 1) rest).flatMap workerCreations)
      have left : createWorkers ok (rest + 1) k s = ((createWorker ok s k).1, k) := by
        rw [createWorkers]
        rw [failing] at goesOn
        rw [← Prod.eta (createWorker ok s k), goesOn]
        rfl
      rw [left, grown, failed]
      exact ⟨built, by simp, next⟩

theorem release_eq (s : Kernel η) (o : KernelObject) :
    s.release o =
      ⟨s.shared.delete o, s.created, s.deleted ++ [o].filter s.shared.objects⟩ := by
  by_cases held : s.shared.objects o = true
  · rw [release, if_pos held, List.filter_cons_of_pos held, delete, List.filter_nil]
  · rw [release, if_neg held, List.filter_cons_of_neg held, List.filter_nil, List.append_nil,
      Shared.delete, ← Bool.eq_false_iff.mpr held, update_eq_self]

/-- Releasing objects deletes those whose handles are not null, in that order. -/
theorem release_all (targets : List KernelObject) (distinct : targets.Nodup) (s : Kernel η) :
    targets.foldl release s =
      ⟨{ s.shared with objects := fun o => if o ∈ targets then false else s.shared.objects o },
        s.created, s.deleted ++ targets.filter s.shared.objects⟩ := by
  induction targets generalizing s with
  | nil => simp
  | cons o rest ih =>
    obtain ⟨new, distinct⟩ := List.nodup_cons.mp distinct
    have others : rest.filter (s.shared.delete o).objects = rest.filter s.shared.objects := by
      apply List.filter_congr
      intro p mem
      exact update_of_ne (ne_of_mem_of_not_mem mem new) ..
    have objects : (fun p => if p ∈ rest then false else (s.shared.delete o).objects p) =
        fun p => if p ∈ o :: rest then false else s.shared.objects p := by
      funext p
      rcases eq_or_ne p o with rfl | different <;> simp [Shared.delete, *]
    rw [List.foldl_cons, ih distinct, release_eq, others, List.append_assoc, ← List.filter_append,
      List.singleton_append]
    exact congrArg (fun objects => Kernel.mk { s.shared with objects } s.created _) objects

variable {res : Resources} {n : Nat}

theorem mem_rollbackTargets (inside : k < n) :
    o ∈ rollbackTargets n k ↔ Known (k + 1) o ∧ o ≠ .wake ∧ o ≠ .join := by
  have count : min (k + 1) n = k + 1 := Nat.min_eq_left inside
  cases o <;> simp [rollbackTargets, workerObjects, Known, count]

theorem nodup_rollbackTargets : (rollbackTargets n k).Nodup := by
  apply List.nodup_flatMap.mpr
  constructor
  · intro i _
    simp [workerObjects]
  · apply List.nodup_range.imp
    intro i j different
    simp [Function.onFun, workerObjects, different.symm]

theorem undo_eq (inside : k < n) : s.undo n k =
    ⟨s.shared.rollback k, s.created,
      s.deleted ++ (rollbackTargets n k).filter s.shared.objects ++ [.join] ++ [.wake]⟩ := by
  rw [undo, release_all _ nodup_rollbackTargets]
  simp only [delete, Shared.delete, Shared.rollback]
  congr 2
  funext o
  cases o <;> simp [mem_rollbackTargets inside, Known, update]

/-- What was created is deleted, each object once, and no handle is left. -/
structure RolledBack (s : Kernel η) : Prop where
  nodup : s.created.Nodup
  all : s.deleted.Perm s.created
  null : ∀ o, s.shared.objects o = false

theorem Owned.undo (owned : Owned (k + 1) s) (inside : k < n) (wake : .wake ∈ s.created)
    (join : .join ∈ s.created) : RolledBack (s.undo n k) where
  nodup := by
    rw [undo_eq inside]
    exact owned.nodup
  all := by
    have distinct : ((rollbackTargets n k).filter s.shared.objects ++
        [KernelObject.join, .wake]).Nodup := by
      apply (nodup_rollbackTargets.filter _).append (by simp)
      simp [List.disjoint_right, mem_rollbackTargets inside]
    rw [undo_eq inside, owned.kept, List.nil_append, List.append_assoc]
    apply (List.perm_ext_iff_of_nodup distinct owned.nodup).mpr
    intro o
    rw [List.mem_append, List.mem_filter, mem_rollbackTargets inside, owned.held]
    constructor
    · rintro (⟨_, mem⟩ | either)
      · exact mem
      · rcases List.mem_pair.mp either with rfl | rfl
        · exact join
        · exact wake
    · intro mem
      by_cases semaphore : o = .wake ∨ o = .join
      · right
        exact List.mem_pair.mpr semaphore.symm
      · left
        rw [not_or] at semaphore
        exact ⟨⟨owned.known o mem, semaphore⟩, mem⟩
  null o := by
    rw [undo_eq inside]
    by_cases mem : o ∈ s.created
    · have known := owned.known o mem
      cases o <;> simp_all [Shared.rollback, Known]
    · have null : s.shared.objects o = false := by
        rw [← Bool.not_eq_true, owned.held]
        exact mem
      cases o <;> simp [Shared.rollback, null]

/-- The error of `initialize` by the creation call that failed. -/
def failure : KernelObject → InitError
  | .wake | .join => .kSemInitFailed
  | _ => .kThreadInitFailed

theorem failure_ne_ok (o : KernelObject) : failure o ≠ .kOk := by
  cases o <;> simp [failure]

theorem failure_of_worker {ks : List Nat} (mem : o ∈ ks.flatMap workerCreations) :
    failure o = .kThreadInitFailed := by
  cases o <;> simp_all [workerCreations, failure]

theorem Owned.prepare (owned : Owned k s) : Owned k s.prepare :=
  ⟨owned.nodup, owned.held, owned.kept, owned.known⟩

theorem Owned.rolledBack (owned : Owned k s) (nothing : s.created = []) : RolledBack s where
  nodup := owned.nodup
  all := by rw [owned.kept, nothing]
  null o := by
    rw [← Bool.not_eq_true, owned.held, nothing]
    exact List.not_mem_nil

theorem Owned.delete (owned : Owned k s) (only : s.created = [o]) : RolledBack (s.delete o) where
  nodup := owned.nodup
  all := by simp [Kernel.delete, owned.kept, only]
  null p := by
    simp only [Kernel.delete, Shared.delete]
    rcases eq_or_ne p o with rfl | different
    · exact update_self ..
    · rw [update_of_ne different, ← Bool.not_eq_true, owned.held, only]
      simpa using different

/-- A worker fails: everything that was created for the workers goes with the semaphores. -/
theorem conclude_fails (owned : Owned 0 s) (both : s.created = [.wake, .join])
    (rest : firstFailing ok ((List.range res.workerSlotCount).flatMap workerCreations) = some o) :
    ∃ u, conclude res (createWorkers ok res.workerSlotCount 0 s) = u.fail .kThreadInitFailed ∧
      RolledBack u ∧ u.created =
        [.wake, .join] ++ made ok ((List.range res.workerSlotCount).flatMap workerCreations) := by
  obtain ⟨created, stopped, kept⟩ := createWorkers_spec ok res.workerSlotCount owned
  rw [← List.range_eq_range', both] at created
  rw [← List.range_eq_range', rest, Nat.zero_add] at stopped
  have early := stopped
  refine ⟨_, by rw [conclude, if_pos early.ne], ?_, ?_⟩
  · apply kept.undo early <;> simp [created]
  · rw [undo_eq early, created]

theorem build_fails (owned : Owned 0 s) (nothing : s.created = [])
    (fits : s.shared.clamped ≤ res.dispatcherStackBytes)
    (first : firstFailing ok (creations res.workerSlotCount) = some o) :
    ∃ u, build res ok s = u.fail (failure o) ∧ RolledBack u ∧
      u.created = made ok (creations res.workerSlotCount) := by
  have prepared : s.prepare.created = [] := nothing
  have woken : Owned 0 (s.prepare.create ok .wake) := by
    refine owned.prepare.create (o := .wake) trivial ?_
    simp [prepared]
  have joined : Owned 0 ((s.prepare.create ok .wake).create ok .join) := by
    refine woken.create (o := .join) trivial ?_
    simp [mem_create, prepared]
  simp only [build, if_neg (not_lt.mpr fits), objects_create_self]
  cases wake : ok .wake with
  | false =>
    obtain rfl : KernelObject.wake = o := by
      simpa [firstFailing, creations, wake] using first
    have created : (s.prepare.create ok .wake).created = [] := by
      simp [created_create, prepared, wake]
    refine ⟨s.prepare.create ok .wake, rfl, woken.rolledBack created, ?_⟩
    simp [created, made, firstFailing, creations, afterFailure, wake]
  | true =>
    cases join : ok .join with
    | false =>
      obtain rfl : KernelObject.join = o := by
        simpa [firstFailing, creations, wake, join] using first
      have created : ((s.prepare.create ok .wake).create ok .join).created = [.wake] := by
        simp [created_create, prepared, wake, join]
      refine ⟨_, rfl, joined.delete created, ?_⟩
      simp [Kernel.delete, created, made, firstFailing, creations, afterFailure, wake, join]
    | true =>
      have created : ((s.prepare.create ok .wake).create ok .join).created = [.wake, .join] := by
        simp [created_create, prepared, wake, join]
      have semaphores : firstFailing ok [.wake, .join] = none := by
        simp [firstFailing, wake, join]
      obtain ⟨grown, later⟩ :=
        made_append semaphores ((List.range res.workerSlotCount).flatMap workerCreations)
      have rest := later.symm.trans first
      obtain ⟨u, failed, back, all⟩ := conclude_fails joined created rest
      refine ⟨u, ?_, back, ?_⟩
      · rw [failure_of_worker (List.mem_of_find?_eq_some rest)]
        exact failed
      · rw [all, creations, grown]
        simp [made, firstFailing, afterFailure, wake, join]

/-- Nothing has been initialised yet, and all handles are null. -/
structure Fresh (s : Kernel η) : Prop where
  state : s.shared.state = .kUninitialized
  guard : s.shared.guard = none
  null : ∀ o, s.shared.objects o = false
  created : s.created = []
  deleted : s.deleted = []

theorem Fresh.owned (fresh : Fresh s) : Owned 0 s where
  nodup := by simp [fresh.created]
  held o := by simp [fresh.null, fresh.created]
  kept := fresh.deleted
  known o mem := by simp [fresh.created] at mem

theorem failed_stays (failed : s.shared.state = .kInitFailed) (error : s.shared.lastError = e) :
    initializeLayer res ok t s = (s, e) ∧ ensureInitialized res ok t s = (s, e) := by
  constructor
  · simp [initializeLayer, failed, error]
  · simp [ensureInitialized, failed, error]

theorem initializeLayer_eq (fresh : Fresh s) (t : η) :
    initializeLayer res ok t s = leave (build res ok (s.enter t)) := by
  simp [initializeLayer, fresh.state, fresh.guard]

/-- Whichever creation call fails first, `initialize` reports an error and leaves nothing
behind: the objects that were created are deleted, each once and no others, all handles are
null, and every later call reports the same error and touches nothing. The objects created
are those before the failing call, and the join semaphore of a worker whose start semaphore
failed, which is requested all the same. -/
theorem init_rolls_back (fresh : Fresh s) (t : η)
    (first : firstFailing ok (creations res.workerSlotCount) = some o) :
    ∃ u e, initializeLayer res ok t s = (u, e) ∧ e ≠ .kOk ∧
      (s.shared.clamped ≤ res.dispatcherStackBytes → e = failure o ∧ u.created =
        (creations res.workerSlotCount).takeWhile ok ++ afterFailure ok (some o)) ∧
      u.created.Nodup ∧ u.deleted.Perm u.created ∧ (∀ p, u.shared.objects p = false) ∧
      ∀ ok' t', initializeLayer res ok' t' u = (u, e) ∧ ensureInitialized res ok' t' u = (u, e) := by
  have entered : Owned 0 (s.enter t) :=
    ⟨fresh.owned.nodup, fresh.owned.held, fresh.owned.kept, fresh.owned.known⟩
  rw [initializeLayer_eq fresh]
  by_cases fits : (s.enter t).shared.clamped ≤ res.dispatcherStackBytes
  · obtain ⟨u, failed, back, created⟩ := build_fails entered fresh.created fits first
    rw [failed]
    refine ⟨_, _, rfl, failure_ne_ok o, ?_, back.nodup, back.all, back.null, ?_⟩
    · intro _
      refine ⟨rfl, ?_⟩
      rw [← first]
      exact created
    · intro ok' t'
      exact failed_stays rfl rfl
  · have back := entered.rolledBack fresh.created
    rw [build, if_pos (not_le.mp fits)]
    refine ⟨_, _, rfl, by simp [fail], ?_, back.nodup, back.all, back.null, ?_⟩
    · intro large
      exact absurd large fits
    · intro ok' t'
      exact failed_stays rfl rfl

/-- The layer before its first call. -/
def start (res : Resources) (stackBytes : Nat) : Kernel η :=
  ⟨(Layer.init res stackBytes).shared, [], []⟩

theorem start_fresh (stackBytes : Nat) : Fresh (start res stackBytes : Kernel η) :=
  ⟨rfl, rfl, fun _ => rfl, rfl, rfl⟩

/-- Every call works but that for the first worker's start semaphore. -/
def noStart (o : KernelObject) : Bool := o ≠ .workerStart 0

theorem init_rolls_back_no_start :
    ∃ u : Kernel Nat, initializeLayer smallResources noStart 0 (start smallResources 512) =
      (u, .kThreadInitFailed) ∧ u.deleted.Perm [.wake, .join, .workerJoin 0] := by
  have first : firstFailing noStart (creations smallResources.workerSlotCount) =
      some (.workerStart 0) := by decide
  have fresh : Fresh (start smallResources 512 : Kernel Nat) := start_fresh 512
  obtain ⟨u, e, ran, _, made, _, all, _⟩ := init_rolls_back fresh 0 first
  obtain ⟨rfl, created⟩ := made (by decide)
  refine ⟨u, ran, ?_⟩
  rw [created] at all
  exact all

end Kernel

/-- The object a creation step asks for. -/
def EnsurePc.requested : EnsurePc → Option KernelObject
  | .createWake => some .wake
  | .createJoin => some .join
  | .createWorkerStart k => some (.workerStart k)
  | .createWorkerJoin k _ => some (.workerJoin k)
  | .createWorkerTask k => some (.workerTask k)
  | _ => none

/-- Go on, or return. -/
def EnsurePc.next : EnsurePc → EnsurePc ⊕ InitError
  | .returned e => .inr e
  | pc => .inl pc

namespace Layer

/-- One access of `Layer.ensure` by a task that runs alone. -/
def alone (res : Resources) (ok : KernelObject → Bool) (t : η) (sh : Shared η) (pc : EnsurePc) :
    Shared η × (EnsurePc ⊕ InitError) :=
  ((ensure res sh t (pc.requested.all ok) pc).1, (ensure res sh t (pc.requested.all ok) pc).2.next)

/-- The task that runs alone and has come to `pc` returns with these fields and this value. -/
def Completes (res : Resources) (ok : KernelObject → Bool) (t : η) (sh : Shared η) (pc : EnsurePc)
    (out : Shared η × InitError) : Prop :=
  match pc.next with
  | .inl pc => Finishes (alone res ok t) sh pc out
  | .inr e => out = (sh, e)

theorem Completes.access {ok : KernelObject → Bool} {pc pc' : EnsurePc} {out : Shared η × InitError}
    (steps : ensure res sh t (pc.requested.all ok) pc = (sh', pc'))
    (rest : Completes res ok t sh' pc' out) : Finishes (alone res ok t) sh pc out := by
  have stepped : alone res ok t sh pc = (sh', pc'.next) := by rw [alone, steps]
  unfold Completes at rest
  cases onward : pc'.next with
  | inl pc =>
    rw [onward] at stepped rest
    exact .next stepped rest
  | inr =>
    rw [onward] at stepped rest
    subst rest
    exact .last stepped

end Layer

namespace Kernel
open Layer (Completes)
open Layer.Completes (access)

variable {res : Resources} {ok : KernelObject → Bool} {s : Kernel η} {t : η} {k : Nat}

/-- The result as the interleaved model has it: the fields and the returned value. -/
def observed (out : Kernel η × InitError) : Shared η × InitError := (out.1.shared, out.2)

theorem fail_finishes (s : Kernel η) (e : InitError) :
    Finishes (Layer.alone res ok t) s.shared (.setError e) (observed (leave (s.fail e))) :=
  .next rfl (.next rfl (.next rfl (.last rfl)))

theorem undo_finishes (inside : k < res.workerSlotCount) :
    Finishes (Layer.alone res ok t) s.shared (.rollback k)
      (observed (leave ((s.undo res.workerSlotCount k).fail .kThreadInitFailed))) := by
  have undone : Layer.alone res ok t s.shared (.rollback k) =
      ((s.undo res.workerSlotCount k).shared, .inl (.setError .kThreadInitFailed)) := by
    rw [undo_eq inside]
    rfl
  exact .next undone (fail_finishes _ _)

/-- Where the interleaved model is before worker `k`. -/
def workerPc (count k : Nat) : EnsurePc := if k < count then .createWorkerStart k else .setReady

theorem workers_finish (rest : Nat) (count : k + rest = res.workerSlotCount) :
    Completes res ok t s.shared (workerPc res.workerSlotCount k)
      (observed (leave (conclude res (createWorkers ok rest k s)))) := by
  induction rest generalizing k s with
  | zero =>
    have done : k = res.workerSlotCount := count
    rw [workerPc, if_neg (by omega), createWorkers, conclude, if_neg (by simp [done])]
    exact .next rfl (.last rfl)
  | succ rest ih =>
    have inside : k < res.workerSlotCount := by omega
    have failed (u : Kernel η) : Completes res ok t u.shared (.rollback k)
        (observed (leave (conclude res (u, k)))) := by
      rw [conclude, if_pos inside.ne]
      exact undo_finishes inside
    rw [workerPc, if_pos inside, createWorkers, createWorker_eq]
    refine .next rfl ?_
    cases semaphores : ok (.workerStart k) && ok (.workerJoin k) with
    | false =>
      have unset := Bool.eq_false_iff.mp semaphores
      exact access (congrArg (Prod.mk _) (if_neg unset)) (failed (create ok (s.create ok _) _))
    | true =>
      refine access (congrArg (Prod.mk _) (if_pos semaphores)) ?_
      let u := ((s.create ok (.workerStart k)).create ok (.workerJoin k)).create ok (.workerTask k)
      cases task : ok (.workerTask k) with
      | false =>
        have unset := Bool.eq_false_iff.mp task
        exact access (congrArg (Prod.mk _) (if_neg unset)) (failed u)
      | true =>
        have later := ih (k := k + 1) (s := u) (by omega)
        exact access (congrArg (Prod.mk _) (if_pos task)) later

theorem build_finishes (s : Kernel η) :
    Finishes (Layer.alone res ok t) s.shared .clampStack (observed (leave (build res ok s))) := by
  unfold build
  by_cases large : res.dispatcherStackBytes < s.shared.clamped
  · rw [if_pos large]
    exact access (if_pos large) (fail_finishes _ _)
  rw [if_neg large]
  refine access (if_neg large) (.next rfl ?_)
  let u := s.prepare.create ok .wake
  simp only [objects_create_self]
  cases wake : ok .wake with
  | false =>
    have unset := Bool.eq_false_iff.mp wake
    exact access (congrArg (Prod.mk _) (if_neg unset)) (fail_finishes u _)
  | true =>
    refine access (congrArg (Prod.mk _) (if_pos wake)) ?_
    cases join : ok .join with
    | false =>
      have unset := Bool.eq_false_iff.mp join
      exact access (if_neg unset) (fail_finishes ((u.create ok .join).delete .wake) _)
    | true => exact access (if_pos join) (workers_finish (s := u.create ok .join) _ (Nat.zero_add _))

/-- A read of the state that decides how the task goes on. -/
theorem branch {c : Prop} [Decidable c] {pc yes no : EnsurePc} {out out' : Kernel η × InitError}
    (reads : Layer.ensure res s.shared t (pc.requested.all ok) pc =
      (s.shared, if c then yes else no))
    (taken : Completes res ok t s.shared yes (observed out))
    (passed : Completes res ok t s.shared no (observed out')) :
    Finishes (Layer.alone res ok t) s.shared pc (observed (if c then out else out')) := by
  refine access reads ?_
  split
  · exact taken
  · exact passed

/-- `initialize` call by call is what the interleaved model does when one task runs alone. -/
theorem initializeLayer_finishes (s : Kernel η) :
    Finishes (Layer.alone res ok t) s.shared .readReady (observed (initializeLayer res ok t s)) := by
  rw [initializeLayer, ite_or]
  refine branch rfl rfl ?_
  refine branch rfl (.last rfl) ?_
  refine branch rfl rfl ?_
  refine branch rfl rfl ?_
  by_cases guarded : s.shared.guard.isSome = true
  · rw [if_pos guarded]
    exact access (if_pos guarded) rfl
  · rw [if_neg guarded]
    exact access (if_neg guarded) (build_finishes (s.enter t))

theorem ensureInitialized_finishes (s : Kernel η) :
    Finishes (Layer.alone res ok t) s.shared .isUninitialized
      (observed (ensureInitialized res ok t s)) := by
  refine branch rfl (initializeLayer_finishes s) ?_
  exact branch rfl (.last rfl) rfl

end Kernel

end Coact.FreeRtos
