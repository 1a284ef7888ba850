import Coact.Coro.Settlement
import Coact.Foundation.Mask

/-! What a group counts. Its inputs are completed by others at any time, also between the
accesses of one `evaluate`; as long as none of them is released, an input that was seen to be
completed keeps its outcome, so the counters agree with the outcomes of the inputs in the
bit map. -/
namespace Coact.Coro

section
variable {T : Type} {n : Nat} {r r' : Registry T n} {delivery : Delivery} {op : Op T} {kind : Kind T}
  {posted : Option Posting} {id : TaskId}

theorem Registry.isReady_iff : r.isReady id = true ↔
    ∃ i, r.findLocked id = some i ∧ (r.slots i).state = .kCompleted := by
  rw [isReady]
  cases r.findLocked id with
  | none => simp
  | some => simp

theorem Effect.spared (effect : Effect r delivery op r' kind posted) (ready : r.isReady id = true)
    (spared : kind.retire ≠ some id) : r'.isReady id = true ∧
      r'.hasError id = r.hasError id ∧ r'.takeError id = r.takeError id := by
  obtain ⟨i, found, completed⟩ := Registry.isReady_iff.mp ready
  have same : SameOutcome (r.slots i) (r'.slots i) := by
    rcases effect.outcome i completed with same | rfl
    · exact same
    · rw [← Registry.eq_idOf found] at spared
      exact (spared rfl).elim
  obtain ⟨valid, slot, -, generation⟩ := Registry.occupied_of_find found
  have completed' : (r'.slots i).state = .kCompleted := same.state.trans completed
  have found' : r'.findLocked id = some i := by
    refine Registry.find_of_occupied valid slot ?_ (same.generation.trans generation)
    rw [completed']
    simp
  refine ⟨Registry.isReady_iff.mpr ⟨i, found', completed'⟩, ?_, ?_⟩
  · rw [Registry.hasError, Registry.hasError, found, found']
    exact same.hasError
  · rw [Registry.takeError, Registry.takeError, found, found']
    dsimp only
    rw [same.hasError, same.error]

theorem Registry.takeError_eq_kOk (clean : r.hasError id = false) : r.takeError id = .kOk := by
  rw [hasError] at clean
  rw [takeError]
  cases found : r.findLocked id with
  | none => rfl
  | some =>
    rw [found] at clean
    dsimp only at clean ⊢
    rw [clean]
    rfl

end

open Foundation TaskGroup

theorem TaskGroup.marked_iff {capacity : Nat} (g : TaskGroup capacity) (i : Fin capacity) :
    g.marked i = true ↔ i ∈ setBits capacity g.completedMask := by
  have inside : i.val < 32 := i.isLt.trans_le g.fits
  rw [mem_setBits, marked, decide_eq_true_iff]
  change ¬ g.completedMask &&& BitVec.twoPow 32 i = 0#32 ↔ _
  rw [and_twoPow_eq_zero _ inside, Bool.not_eq_false]

/-- What the policies ask for, of the number of completed inputs. -/
def Call.Met (call : Call) (liveCount completed : Nat) : Prop :=
  match call.mode with
  | .kAll => completed = liveCount
  | .kAny => 0 < completed
  | .kSome => call.threshold.toNat ≤ completed

namespace Group

variable {T : Type} {capacity n m : Nat}

/-- The input that is in the bit map and not counted yet. -/
def Stage.uncounted : Stage capacity → Finset (Fin capacity)
  | .check i => {i}
  | .look _ | .blame _ | .judge | .done _ => ∅

/-- The input in the bit map whose error has not been looked at yet. -/
def Stage.unread : Stage capacity → Finset (Fin capacity)
  | .check i | .blame i => {i}
  | .look _ | .judge | .done _ => ∅

namespace World

/-- The inputs that were seen to be completed. -/
def observed (w : World T capacity n m) : Finset (Fin capacity) :=
  setBits capacity w.group.completedMask

def uncounted (w : World T capacity n m) : Finset (Fin capacity) :=
  w.call.elim ∅ fun running => running.2.uncounted

def unread (w : World T capacity n m) : Finset (Fin capacity) :=
  w.call.elim ∅ fun running => running.2.unread

/-- No live input is released, not even because its completion event cannot be delivered. -/
def Spares : Label T → World T capacity n m → Prop
  | .input op delivery, w => ∀ i : Fin capacity, i.val < w.group.liveCount.toNat →
      (op.kind (w.inputs.apply op delivery).2.result).retire ≠ some (w.group.inputs i)
  | _, _ => True

instance (label : Label T) (w : World T capacity n m) : Decidable (Spares label w) :=
  match label with
  | .input op delivery => inferInstanceAs (Decidable (∀ i : Fin capacity,
      i.val < w.group.liveCount.toNat →
        (op.kind (w.inputs.apply op delivery).2.result).retire ≠ some (w.group.inputs i)))
  | .evaluate _ | .proceed _ | .release | .aggregate _ _ => inferInstanceAs (Decidable True)

end World

/-- The counters against the outcomes of the inputs. `g` is the group, `counted` the inputs
of the bit map that are counted, and `read` those whose error has been looked at. -/
structure Tallied (r : Registry T n) (g : TaskGroup capacity)
    (counted read : Finset (Fin capacity)) : Prop where
  successes : g.successCount.toNat =
    (counted.filter fun i => r.hasError (g.inputs i) = false).card
  failures : g.failureCount.toNat =
    (counted.filter fun i => r.hasError (g.inputs i) = true).card
  first : g.firstError = .kOk ↔ ∀ i ∈ read, r.takeError (g.inputs i) = .kOk

structure Counted (w : World T capacity n m) : Prop where
  live : ∀ i, w.group.completedMask.getLsbD i = true → i < w.group.liveCount.toNat
  ready : ∀ i ∈ w.observed, w.inputs.isReady (w.group.inputs i) = true
  pending : ∀ i ∈ w.unread, i ∈ w.observed
  blaming : ∀ call i, w.call = some (call, .blame i) → w.group.firstError = .kOk
  tallied : Tallied w.inputs w.group (w.observed \ w.uncounted) (w.observed \ w.unread)

section
variable {r r' : Registry T n} {g : TaskGroup capacity} {counted read : Finset (Fin capacity)}
  {i : Fin capacity}

theorem Tallied.congr (tallied : Tallied r g counted read)
    (hasError : ∀ i ∈ counted, r'.hasError (g.inputs i) = r.hasError (g.inputs i))
    (takeError : ∀ i ∈ read, r'.takeError (g.inputs i) = r.takeError (g.inputs i)) :
    Tallied r' g counted read := by
  refine ⟨?_, ?_, ?_⟩
  · rw [tallied.successes]
    refine congrArg Finset.card (Finset.filter_congr fun i mem => ?_)
    rw [hasError i mem]
  · rw [tallied.failures]
    refine congrArg Finset.card (Finset.filter_congr fun i mem => ?_)
    rw [hasError i mem]
  · rw [tallied.first]
    constructor
    · intro clean i mem
      rw [takeError i mem]
      exact clean i mem
    · intro clean i mem
      rw [← takeError i mem]
      exact clean i mem

theorem toNat_succ {count : UInt16} (small : count.toNat ≤ 32) :
    (count + 1).toNat = count.toNat + 1 := by
  rw [UInt16.toNat_add]
  exact Nat.mod_eq_of_lt (by change _ + 1 < 2 ^ 16; omega)

section
variable (tallied : Tallied r g counted read)
include tallied

theorem Tallied.small : g.successCount.toNat ≤ 32 ∧ g.failureCount.toNat ≤ 32 := by
  have bound (s : Finset (Fin capacity)) : s.card ≤ 32 :=
    (Finset.card_le_univ s).trans ((Fintype.card_fin capacity).trans_le g.fits)
  rw [tallied.successes, tallied.failures]
  exact ⟨bound _, bound _⟩

/-- An input without error is counted; it has nothing to be blamed for. -/
theorem Tallied.succeed (new : i ∉ counted) (clean : r.hasError (g.inputs i) = false) :
    Tallied r g.countSuccess (insert i counted) (insert i read) where
  successes := by
    rw [countSuccess_successCount, toNat_succ tallied.small.1, tallied.successes]
    simp only [countSuccess_inputs]
    rw [Finset.filter_insert, if_pos clean, Finset.card_insert_of_notMem (by simp [new])]
  failures := by
    rw [countSuccess_failureCount, tallied.failures]
    simp only [countSuccess_inputs]
    rw [Finset.filter_insert, if_neg (by simp [clean])]
  first := by
    rw [countSuccess_firstError, tallied.first, Finset.forall_mem_insert,
      countSuccess_inputs]
    exact (and_iff_right (Registry.takeError_eq_kOk clean)).symm

theorem Tallied.fail (new : i ∉ counted) (failed : r.hasError (g.inputs i) = true) :
    Tallied r g.countFailure (insert i counted) read where
  successes := by
    rw [countFailure_successCount, tallied.successes]
    simp only [countFailure_inputs]
    rw [Finset.filter_insert, if_neg (by simp [failed])]
  failures := by
    rw [countFailure_failureCount, toNat_succ tallied.small.2, tallied.failures]
    simp only [countFailure_inputs]
    rw [Finset.filter_insert, if_pos failed, Finset.card_insert_of_notMem (by simp [new])]
  first := tallied.first

theorem Tallied.pass (known : g.firstError ≠ .kOk) : Tallied r g counted (insert i read) where
  successes := tallied.successes
  failures := tallied.failures
  first := by
    refine ⟨fun never => (known never).elim, fun clean => tallied.first.mpr fun j mem => ?_⟩
    exact clean j (Finset.mem_insert_of_mem mem)

theorem Tallied.blame (unknown : g.firstError = .kOk) :
    Tallied r (g.blame (r.takeError (g.inputs i))) counted (insert i read) where
  successes := tallied.successes
  failures := tallied.failures
  first := by
    rw [blame_firstError, Finset.forall_mem_insert]
    exact (and_iff_left (tallied.first.mp unknown)).symm

end

end

section
variable {w w' : World T capacity n m} {label : Label T} {call : Call} {i : Fin capacity}

theorem Counted.aside (counted : Counted w) (inputs : w'.inputs = w.inputs)
    (group : w'.group = w.group) (uncounted : w'.uncounted = w.uncounted)
    (unread : w'.unread = w.unread)
    (blaming : ∀ call i, w'.call = some (call, .blame i) → w.call = some (call, .blame i)) :
    Counted w' := by
  have observed : w'.observed = w.observed := by
    rw [World.observed, World.observed, group]
  constructor
  · rw [group]
    exact counted.live
  · rw [observed, inputs, group]
    exact counted.ready
  · rw [unread, observed]
    exact counted.pending
  · intro call i place
    rw [group]
    exact counted.blaming call i (blaming call i place)
  · rw [inputs, group, observed, uncounted, unread]
    exact counted.tallied

theorem Counted.input (counted : Counted w) {op : Op T} {delivery : Delivery}
    (spared : World.Spares (.input op delivery) w) :
    Counted { w with inputs := (w.inputs.apply op delivery).1 } := by
  have same (i : Fin capacity) (mem : i ∈ w.observed) :=
    (effect_apply w.inputs delivery op).spared (counted.ready i mem)
      (spared i (counted.live i (mem_setBits.mp mem)))
  refine ⟨counted.live, fun i mem => (same i mem).1, counted.pending, counted.blaming, ?_⟩
  refine counted.tallied.congr (fun i mem => ?_) (fun i mem => ?_)
  · exact (same i (Finset.mem_sdiff.mp mem).1).2.1
  · exact (same i (Finset.mem_sdiff.mp mem).1).2.2

variable {stage : Stage capacity}

theorem World.uncounted_of (place : w.call = some (call, stage)) :
    w.uncounted = stage.uncounted := by
  rw [uncounted, place, Option.elim_some]

theorem World.unread_of (place : w.call = some (call, stage)) : w.unread = stage.unread := by
  rw [unread, place, Option.elim_some]

theorem Counted.mark (counted : Counted w) (place : w.call = some (call, .look i))
    (live : i.val < w.group.liveCount.toNat) (unmarked : w.group.marked i = false)
    (ready : w.inputs.isReady (w.group.inputs i) = true) :
    Counted { w with group := w.group.mark i, call := some (call, .check i) } := by
  have observed : World.observed { w with group := w.group.mark i, call := some (call, .check i) } =
      insert i w.observed := setBits_or_twoPow _ i w.group.fits
  have new : i ∉ w.observed := by
    intro mem
    cases ((w.group.marked_iff i).mpr mem).symm.trans unmarked
  constructor
  · intro k set
    rw [mark_completedMask, BitVec.getLsbD_or, Bool.or_eq_true] at set
    rcases set with before | here
    · exact counted.live k before
    · change (BitVec.twoPow 32 i).getLsbD k = true at here
      rw [BitVec.getLsbD_twoPow, Bool.and_eq_true, decide_eq_true_iff, decide_eq_true_iff] at here
      rw [← here.2]
      exact live
  · rw [observed]
    exact Finset.forall_mem_insert .. |>.mpr ⟨ready, counted.ready⟩
  · rw [observed]
    intro j mem
    exact Finset.mem_insert.mpr (.inl (Finset.mem_singleton.mp mem))
  · intro call' j never
    cases never
  · have tallied := counted.tallied
    rw [World.uncounted_of place, World.unread_of place] at tallied
    have same : insert i w.observed \ {i} = w.observed \ ∅ := by
      rw [Finset.sdiff_singleton_eq_erase, Finset.erase_insert new, Finset.sdiff_empty]
    rw [observed]
    change Tallied w.inputs (w.group.mark i) (insert i w.observed \ {i}) (insert i w.observed \ {i})
    rw [same]
    exact ⟨tallied.successes, tallied.failures, tallied.first⟩

theorem Counted.recount (counted : Counted w)
    (mask : g.completedMask = w.group.completedMask) (inputs : g.inputs = w.group.inputs)
    (liveCount : g.liveCount = w.group.liveCount) (pending : ∀ i ∈ stage.unread, i ∈ w.observed)
    (blaming : ∀ i, stage = .blame i → g.firstError = .kOk)
    (tallied : Tallied w.inputs g (w.observed \ stage.uncounted) (w.observed \ stage.unread)) :
    Counted { w with group := g, call := some (call, stage) } := by
  have observed : World.observed { w with group := g, call := some (call, stage) } = w.observed := by
    rw [World.observed, World.observed, mask]
  constructor
  · rw [mask, liveCount]
    exact counted.live
  · rw [observed, inputs]
    exact counted.ready
  · rw [observed]
    exact pending
  · intro call' i place
    cases place
    exact blaming i rfl
  · rw [observed]
    exact tallied

/-- The iteration is over: everything in the bit map is counted and looked at. -/
theorem Counted.resume (counted : Counted w) {next : Nat}
    (mask : g.completedMask = w.group.completedMask) (inputs : g.inputs = w.group.inputs)
    (liveCount : g.liveCount = w.group.liveCount)
    (tallied : Tallied w.inputs g (w.observed \ ∅) (w.observed \ ∅)) :
    Counted { w with group := g, call := some (call, .look next) } := by
  refine counted.recount mask inputs liveCount ?_ ?_ tallied
  · intro i never
    cases never
  · intro i never
    cases never

theorem World.settled_of_idle (idle : w.call = none) : ∅ = w.uncounted ∧ ∅ = w.unread := by
  simp [uncounted, unread, idle]

theorem World.restored {i : Fin capacity} (mem : i ∈ w.observed) :
    insert i (w.observed \ {i}) = w.observed \ ∅ := by
  rw [Finset.sdiff_singleton_eq_erase, Finset.insert_erase mem, Finset.sdiff_empty]

theorem Counted.look (counted : Counted w) (place : w.call = some (call, .look k)) :
    Counted (w.look call k) := by
  have uncounted := (World.uncounted_of place).symm
  have unread := (World.unread_of place).symm
  unfold World.look
  split_ifs with live marked empty
  · exact counted.aside rfl rfl uncounted unread fun _ _ never => by cases never
  · exact counted.aside rfl rfl uncounted unread fun _ _ never => by cases never
  · exact counted.mark (i := ⟨k, live.trans_le w.group.live_le⟩) place live
      (Bool.eq_false_of_not_eq_true marked) (Bool.eq_true_of_not_eq_false empty)
  · exact counted.aside rfl rfl uncounted unread fun _ _ never => by cases never

theorem Counted.check (counted : Counted w) (place : w.call = some (call, .check i)) :
    Counted (w.check call i) := by
  have tallied := counted.tallied
  have pending := counted.pending i
  rw [World.unread_of place, Stage.unread] at tallied pending
  rw [World.uncounted_of place, Stage.uncounted] at tallied
  have mem := pending (Finset.mem_singleton_self i)
  have fresh : i ∉ w.observed \ {i} := by simp
  unfold World.check
  split_ifs with failed unknown
  · have tallied' := tallied.fail fresh failed
    rw [World.restored mem] at tallied'
    refine counted.recount rfl rfl rfl (fun j pending => ?_) (fun _ _ => unknown) tallied'
    rw [Finset.mem_singleton.mp pending]
    exact mem
  · have passed := (tallied.fail fresh failed).pass (i := i) unknown
    rw [World.restored mem] at passed
    exact counted.resume rfl rfl rfl passed
  · have tallied' := tallied.succeed fresh (Bool.eq_false_of_not_eq_true failed)
    rw [World.restored mem] at tallied'
    exact counted.resume rfl rfl rfl tallied'

theorem Counted.advance (counted : Counted w) (place : w.call = some (call, stage)) :
    Counted (w.advance call delivery stage) := by
  have uncounted := (World.uncounted_of place).symm
  have unread := (World.unread_of place).symm
  cases stage with
  | look => exact counted.look place
  | check => exact counted.check place
  | blame i =>
    have pending := counted.pending i
    have before := counted.tallied
    rw [← unread, Stage.unread] at pending before
    rw [← uncounted] at before
    have tallied := Tallied.blame (i := i) before (counted.blaming call i place)
    rw [World.restored (pending (Finset.mem_singleton_self i))] at tallied
    exact counted.resume rfl rfl rfl tallied
  | judge =>
    have tallied := counted.tallied
    rw [← uncounted, ← unread] at tallied
    rw [World.advance, World.judge]
    split
    · split
      · exact counted.aside rfl rfl uncounted unread fun _ _ never => by cases never
      · refine ⟨counted.live, counted.ready, fun _ never => ?_, fun _ _ never => ?_, ?_⟩
        · cases never
        · cases never
        · exact ⟨tallied.successes, tallied.failures, tallied.first⟩
    · exact counted.aside rfl rfl uncounted unread fun _ _ never => by cases never
  | done => exact counted.aside rfl rfl uncounted unread fun _ _ never => by cases never

theorem Counted.step (counted : Counted w) (spared : World.Spares label w)
    (ran : World.step label w = .ok w') : Counted w' := by
  cases label with
  | evaluate =>
    rw [World.step] at ran
    split at ran <;> cases ran
    obtain ⟨uncounted, unread⟩ := World.settled_of_idle ‹w.call = none›
    unfold World.enter
    repeat' split
    all_goals exact counted.aside rfl rfl uncounted unread fun _ _ never => by cases never
  | proceed =>
    rw [World.step] at ran
    split at ran <;> cases ran
    exact counted.advance ‹_›
  | release =>
    rw [World.step] at ran
    split at ran <;> cases ran
    unfold World.release
    split
    · exact counted.aside rfl rfl rfl rfl fun _ _ place => place
    · exact ⟨counted.live, counted.ready, counted.pending, counted.blaming, { counted.tallied with }⟩
  | input =>
    cases ran
    exact counted.input spared
  | aggregate =>
    cases ran
    exact counted.aside rfl rfl rfl rfl fun _ _ place => place

end

/-- The books of a group: the inputs in the bit map are live and completed, each is counted
once, by its outcome, and the first error is that of a failed input if any has one. While
`evaluate` works on an input, it is in the bit map and not counted yet. -/
structure Accounts (w : World T capacity n m) : Prop where
  completed : ∀ i ∈ w.observed, i.val < w.group.liveCount.toNat ∧
    w.inputs.isReady (w.group.inputs i) = true
  successes : w.group.successCount.toNat = ((w.observed \ w.uncounted).filter fun i =>
    w.inputs.hasError (w.group.inputs i) = false).card
  failures : w.group.failureCount.toNat = ((w.observed \ w.uncounted).filter fun i =>
    w.inputs.hasError (w.group.inputs i) = true).card
  total : w.group.successCount.toNat + w.group.failureCount.toNat + w.uncounted.card =
    w.group.completedMask.cpop.toNat
  bounded : w.group.completedMask.cpop.toNat ≤ w.group.liveCount.toNat
  firstError : w.group.firstError = .kOk ↔ ∀ i ∈ w.observed \ w.unread,
    w.inputs.hasError (w.group.inputs i) = true → w.inputs.takeError (w.group.inputs i) = .kOk
  satisfied : w.uncounted = ∅ → ∀ call : Call,
    call.satisfied w.group.liveCount w.group.status = true ↔
      call.Met w.group.liveCount.toNat w.group.completedMask.cpop.toNat

def Event.isCompleted : Event → Bool
  | .completed _ _ _ _ => true
  | .observed _ _ | .returned _ | .released _ => false

/-- `complete` is called on the aggregate task once, in the first `evaluate` whose counts
satisfy its policy, and with these counts. -/
structure CompletesFirst (w : World T capacity n m) : Prop where
  once : w.log.countP Event.isCompleted ≤ 1
  first : ∀ before rest status waiter delivery answer,
    w.log = before ++ .completed status waiter delivery answer :: rest →
    status = w.group.status ∧ w.unread = ∅ ∧
    ∃ earlier call, before = earlier ++ [.observed call status] ∧
      call.satisfied w.group.liveCount status = true ∧
      ∀ call' status', .observed call' status' ∈ earlier →
        call'.satisfied w.group.liveCount status' = false
  prompt : ∀ before rest call status, w.log = before ++ .observed call status :: rest →
    call.satisfied w.group.liveCount status = true →
    rest = [] ∧ w.call = some (call, .judge) ∨
    ∃ waiter delivery answer rest', rest = .completed status waiter delivery answer :: rest'

theorem Stage.uncounted_subset (stage : Stage capacity) : stage.uncounted ⊆ stage.unread := by
  cases stage with
  | check => exact Finset.Subset.refl _
  | _ => exact Finset.empty_subset _

theorem Counted.uncounted_subset (counted : Counted w) : w.uncounted ⊆ w.observed := by
  intro i mem
  refine counted.pending i ?_
  cases place : w.call with
  | none =>
    rw [World.uncounted, place] at mem
    cases mem
  | some running =>
    rw [World.uncounted, place, Option.elim_some] at mem
    rw [World.unread, place, Option.elim_some]
    exact running.2.uncounted_subset mem

theorem Counted.total (counted : Counted w) :
    w.group.successCount.toNat + w.group.failureCount.toNat + w.uncounted.card =
      w.group.completedMask.cpop.toNat := by
  have failed : (w.observed \ w.uncounted).filter (fun i =>
      w.inputs.hasError (w.group.inputs i) = true) = (w.observed \ w.uncounted).filter (fun i =>
        ¬ w.inputs.hasError (w.group.inputs i) = false) := by
    refine Finset.filter_congr fun i _ => ?_
    rw [Bool.not_eq_false]
  rw [cpop_eq_card w.group.fits fun i set => (counted.live i set).trans_le w.group.live_le]
  calc
    _ = (w.observed \ w.uncounted).card + w.uncounted.card := by
      rw [counted.tallied.successes, counted.tallied.failures, failed,
        Finset.card_filter_add_card_filter_not]
    _ = w.observed.card := Finset.card_sdiff_add_card_eq_card counted.uncounted_subset

theorem Counted.bounded (counted : Counted w) :
    w.group.completedMask.cpop.toNat ≤ w.group.liveCount.toNat := by
  rw [cpop_eq_card (w.group.live_le.trans w.group.fits) counted.live]
  exact (Finset.card_le_univ _).trans_eq (Fintype.card_fin _)

theorem Counted.satisfied (counted : Counted w) (settled : w.uncounted = ∅) (call : Call) :
    call.satisfied w.group.liveCount w.group.status = true ↔
      call.Met w.group.liveCount.toNat w.group.completedMask.cpop.toNat := by
  have total := counted.total
  have small := counted.tallied.small
  rw [settled, Finset.card_empty, Nat.add_zero] at total
  have sum : w.group.status.satisfiedCount.toNat = w.group.completedMask.cpop.toNat := by
    rw [GroupStatus.satisfiedCount, UInt16.toNat_add, ← total]
    refine Nat.mod_eq_of_lt ?_
    change w.group.successCount.toNat + w.group.failureCount.toNat < 2 ^ 16
    omega
  rw [Call.satisfied, Call.Met, ← sum]
  cases call.mode with
  | kAll =>
    rw [decide_eq_true_iff, UInt16.toNat_inj]
  | kAny =>
    rw [decide_eq_true_iff, Nat.pos_iff_ne_zero, ne_comm, ne_eq, ne_eq, ← UInt16.toNat_inj]
    rfl
  | kSome =>
    rw [decide_eq_true_iff, UInt16.le_iff_toNat_le]

theorem Counted.accounts (counted : Counted w) : Accounts w where
  completed i mem := ⟨counted.live i (mem_setBits.mp mem), counted.ready i mem⟩
  successes := counted.tallied.successes
  failures := counted.tallied.failures
  total := counted.total
  bounded := counted.bounded
  firstError := by
    rw [counted.tallied.first]
    constructor
    · intro clean i mem _
      exact clean i mem
    · intro clean i mem
      cases failed : w.inputs.hasError (w.group.inputs i) with
      | false => exact Registry.takeError_eq_kOk failed
      | true => exact clean i mem failed
  satisfied := counted.satisfied

theorem Counted.initial {inputs : Registry T n} {aggregates : Registry GroupStatus m}
    {g : TaskGroup capacity} (fresh : g.Fresh) : Counted (.initial inputs aggregates g) := by
  have observed : World.observed (.initial inputs aggregates g) = ∅ := by
    change setBits capacity g.completedMask = ∅
    rw [fresh.completedMask]
    exact setBits_zero
  constructor
  · intro i set
    change g.completedMask.getLsbD i = true at set
    rw [fresh.completedMask] at set
    simp at set
  · rw [observed]
    intro i never
    cases never
  · intro i never
    cases never
  · intro call i never
    cases never
  · rw [observed, Finset.empty_sdiff, Finset.empty_sdiff]
    refine ⟨?_, ?_, ?_⟩
    · exact congrArg UInt16.toNat fresh.successCount
    · exact congrArg UInt16.toNat fresh.failureCount
    · refine ⟨fun _ i never => ?_, fun _ => fresh.firstError⟩
      cases never

section
variable {w : World T capacity n m}

theorem countP_open {liveCount : UInt16} {log : List Event} (early : ∀ e ∈ log, e.Open liveCount) :
    log.countP Event.isCompleted = 0 := by
  refine List.countP_eq_zero.mpr fun e mem completed => ?_
  cases e with
  | completed => exact early _ mem
  | observed | returned | released => cases completed

theorem countP_quiet {log : List Event} (quiet : ∀ e ∈ log, e.Quiet) :
    log.countP Event.isCompleted = 0 := by
  refine List.countP_eq_zero.mpr fun e mem completed => ?_
  cases e with
  | completed => exact quiet _ mem
  | observed | returned | released => cases completed

theorem Shaped.once (shaped : Shaped w) : w.log.countP Event.isCompleted ≤ 1 := by
  cases shaped with
  | opened early => exact (countP_open early).trans_le (Nat.zero_le 1)
  | judging _ _ _ log early =>
    rw [log, List.countP_append, countP_open early]
    exact Nat.zero_le 1
  | closed closed =>
    rw [closed.log, List.countP_append, countP_open closed.early, List.countP_cons,
      List.countP_cons, countP_quiet closed.quiet]
    exact le_rfl

theorem Shaped.first (shaped : Shaped w) {before rest : List Event} {status : GroupStatus}
    {waiter : Option TargetId} {delivery : Delivery} {answer : Answer GroupStatus}
    (split : w.log = before ++ .completed status waiter delivery answer :: rest) :
    status = w.group.status ∧ w.unread = ∅ ∧
    ∃ earlier call, before = earlier ++ [.observed call status] ∧
      call.satisfied w.group.liveCount status = true ∧
      ∀ call' status', .observed call' status' ∈ earlier →
        call'.satisfied w.group.liveCount status' = false := by
  have there : .completed status waiter delivery answer ∈ w.log := by
    rw [split]
    exact List.mem_append_right _ List.mem_cons_self
  obtain ⟨call, earlier, waiter₀, delivery₀, answer₀, rest₀, closed⟩ :=
    shaped.closed_of_completed there
  have settled : w.unread = ∅ := by
    cases place : w.call with
    | none => rw [World.unread, place, Option.elim_none]
    | some running =>
      rw [World.unread_of place, (closed.running _ _ place).2]
      rfl
  have regrouped : w.log = (earlier ++ [.observed call w.group.status]) ++
      .completed w.group.status waiter₀ delivery₀ answer₀ :: rest₀ := by
    rw [closed.log, List.append_assoc]
    rfl
  have notBefore : .completed status waiter delivery answer ∉
      earlier ++ [.observed call w.group.status] := by
    intro mem
    rcases List.mem_append.mp mem with never | never
    · exact closed.early _ never
    · cases List.mem_singleton.mp never
  have notAfter : .completed status waiter delivery answer ∉ rest₀ := fun never =>
    closed.quiet _ never
  obtain ⟨rfl, same, rfl⟩ := (List.append_cons_inj_of_notMem notBefore notAfter).mp
    (regrouped.symm.trans split)
  cases same
  exact ⟨rfl, settled, earlier, call, rfl, closed.satisfied, fun call' status' mem =>
    closed.early _ mem⟩

theorem Shaped.prompt (shaped : Shaped w) {before rest : List Event} {call : Call}
    {status : GroupStatus} (split : w.log = before ++ .observed call status :: rest)
    (satisfied : call.satisfied w.group.liveCount status = true) :
    rest = [] ∧ w.call = some (call, .judge) ∨
    ∃ waiter delivery answer rest', rest = .completed status waiter delivery answer :: rest' := by
  have notOpen {log : List Event} (early : ∀ e ∈ log, e.Open w.group.liveCount) :
      .observed call status ∉ log := by
    intro mem
    have never : call.satisfied w.group.liveCount status = false := early _ mem
    cases satisfied.symm.trans never
  cases shaped with
  | opened early =>
    refine (notOpen early ?_).elim
    rw [split]
    exact List.mem_append_right _ List.mem_cons_self
  | judging place _ _ log early =>
    obtain ⟨-, same, rfl⟩ := (List.append_cons_inj_of_notMem (notOpen early) List.not_mem_nil).mp
      (log.symm.trans split)
    cases same
    exact .inl ⟨rfl, place⟩
  | @closed _ _ waiter delivery answer rest₀ closed =>
    have notAfter : .observed call status ∉
        .completed w.group.status waiter delivery answer :: rest₀ := by
      intro mem
      rcases List.mem_cons.mp mem with never | never
      · cases never
      · exact closed.quiet _ never
    obtain ⟨-, same, rfl⟩ := (List.append_cons_inj_of_notMem (notOpen closed.early) notAfter).mp
      (closed.log.symm.trans split)
    cases same
    exact .inr ⟨waiter, delivery, answer, rest₀, rfl⟩

end

section
variable {w : World T capacity n m} {fits : capacity ≤ 32} {registry registry' : Registry GroupStatus m}
  {inputs : Fin capacity → TaskId} {count signal : UInt16} {waiter : TargetId}
  {group : TaskGroup capacity} {inputRegistry : Registry T n}

/-- In every run in which no live input is released, the books of the group are right, and
`complete` is called on the aggregate task at most once, by the first `evaluate` whose counts
satisfy its policy. -/
theorem group_counts (made : make fits registry inputs count waiter signal = (registry', .ok group))
    (run : Reaches World.step World.Spares (.initial inputRegistry registry' group) w) :
    Accounts w ∧ CompletesFirst w := by
  have counted : Counted w := by
    refine run.invariant (Counted.initial (fresh_make made)) ?_
    intro label w w' counted spared ran
    exact counted.step spared ran
  have shaped := Shaped.reached run (shaped_make made)
  refine ⟨counted.accounts, shaped.once, ?_, ?_⟩
  · intro before rest status waiter delivery answer split
    exact shaped.first split
  · intro before rest call status split satisfied
    exact shaped.prompt split satisfied

end

/-- A registry of two tasks that nobody waits for. -/
def twoTasks : Registry Unit 2 :=
  (((Registry.initial Unit Nat.two_pos (by decide)).create kInvalidTarget 0
    ⟨false, false⟩).1.create kInvalidTarget 0 ⟨false, false⟩).1

def twoInputs : Fin 2 → TaskId
  | 0 => ⟨256⟩
  | 1 => ⟨257⟩

def madeTwo : Registry GroupStatus 1 × Except GroupError (TaskGroup 2) :=
  make (by decide) (.single GroupStatus 1) twoInputs 2 ⟨1⟩ 7

def both : TaskGroup 2 where
  inputs := Function.update (Function.update (fun _ => kInvalidTaskId) ⟨0, Nat.two_pos⟩ ⟨256⟩)
    ⟨1, Nat.one_lt_two⟩ ⟨257⟩
  groupId := ⟨256⟩
  liveCount := 2
  promise := ⟨true, ⟨256⟩⟩
  fits := by decide
  live_le := le_rfl
  promised := first_promised

def startTwo : World Unit 2 2 1 := .initial twoTasks madeTwo.1 both

/-- The first input is completed while the first `evaluate` is past it, and the second is
cancelled before the second `evaluate`. -/
def completeAndCancel : List (Label Unit) :=
  [.evaluate ⟨.kAll, 0⟩, .proceed .poolExhausted, .input (.complete ⟨256⟩ ()) .poolExhausted,
    .proceed .poolExhausted, .proceed .poolExhausted, .proceed .poolExhausted,
    .input (.cancel ⟨257⟩) .poolExhausted, .evaluate ⟨.kAll, 0⟩, .proceed .poolExhausted,
    .proceed .poolExhausted, .proceed .poolExhausted, .proceed .poolExhausted,
    .proceed .poolExhausted, .proceed .poolExhausted, .proceed (.submitted .Direct),
    .proceed .poolExhausted]

theorem group_counts_cancelled :
    (outcome World.step completeAndCancel startTwo).group.status = ⟨1, 1, .kCancelled⟩ ∧
    (outcome World.step completeAndCancel startTwo).log.getLast? = some (.returned (.ok true)) ∧
    Accounts (outcome World.step completeAndCancel startTwo) ∧
    CompletesFirst (outcome World.step completeAndCancel startTwo) := by
  have run : Reaches World.step World.Spares startTwo
      (outcome World.step completeAndCancel startTwo) :=
    reaches_decided (by decide +kernel)
  have groups : madeTwo = (madeTwo.1, .ok both) := rfl
  exact ⟨by decide +kernel, by decide +kernel, group_counts groups run⟩

end Group

end Coact.Coro
