import Coact.Staging.Sequential

/-! What `Staging` is for: three first-in first-out lists, a batch budget and the
age of the Low head. On the single-core ring every sequence of calls is answered
as this scheduler answers it. -/
namespace Coact.Staging
open Foundation Dispatch Function

structure Scheduler where
  list : Partition → List StagingSlot
  drawn : Nat
  calls : Nat

namespace Scheduler

def initial : Scheduler := ⟨fun _ => [], 0, 0⟩

/-- The slots of all three lists. -/
def contents (sch : Scheduler) : Multiset StagingSlot :=
  (sch.list .High : Multiset StagingSlot) + sch.list .Normal + sch.list .Low

/-- The number of slots admitted under a claim. -/
def holding (sch : Scheduler) (c : ReservationClaim) : Nat :=
  sch.contents.countP fun v => v.claim = c

section
variable (cfg : Config) (sch : Scheduler)

/-- The lane exists, its share is not used up and the list is not full. -/
def accepts (r : Request) : Bool :=
  r.valid cfg ∧ (r.claim cfg = .None ∨ sch.holding (r.claim cfg) < r.limit cfg) ∧
    (sch.list r.part).length < cfg.capacity r.part

def enqueue (r : Request) : Scheduler × Bool :=
  if sch.accepts cfg r then
    ({ sch with
        list := update sch.list r.part (sch.list r.part ++ [r.slot cfg sch.calls])
        calls := sch.calls + 1 }, true)
  else ({ sch with calls := sch.calls + 1 }, false)

/-- The wait of a slot on the 32-bit clock. -/
def waited (nowNs : Nat) (v : StagingSlot) : Int := ((nowNs : Int) - v.enqueueNs) % 2 ^ 32

def isAged (nowNs : Nat) (v : StagingSlot) : Bool :=
  (cfg.kLowMaxWaitMs : Int) * 10 ^ 6 ≤ waited nowNs v ∧ waited nowNs v < 2 ^ 31

def choice (nowNs : Nat) : Option Partition :=
  if cfg.kBatchSizeMax ≤ sch.drawn then none
  else if (sch.list .Low).head?.any (isAged cfg nowNs) then some .Low
  else [Partition.High, .Normal, .Low].find? fun p => (sch.list p).head?.isSome

def dequeueOne (nowNs : Nat) : Scheduler × Option StagingSlot :=
  match sch.choice cfg nowNs with
  | none => (sch, none)
  | some p =>
    match sch.list p with
    | [] => (sch, none)
    | v :: rest =>
      ({ sch with list := update sch.list p rest, drawn := sch.drawn + 1 }, some v)

def perform : Op → Scheduler × Response
  | .enqueue r => ((sch.enqueue cfg r).1, .queued (sch.enqueue cfg r).2)
  | .beginBatch => ({ sch with drawn := 0 }, .opened)
  | .dequeueOne nowNs => ((sch.dequeueOne cfg nowNs).1, .dequeued (sch.dequeueOne cfg nowNs).2)

end

theorem contents_append (sch : Scheduler) (p : Partition) (v : StagingSlot) (n : Nat) :
    contents ⟨update sch.list p (sch.list p ++ [v]), sch.drawn, n⟩ =
      v ::ₘ sch.contents := by
  cases p <;> simp [contents, ← Multiset.coe_add, ← Multiset.singleton_add,
    Multiset.coe_singleton] <;> abel

theorem contents_tail {sch : Scheduler} {rest : List StagingSlot}
    (head : sch.list p = v :: rest) (n : Nat) :
    sch.contents = v ::ₘ contents ⟨update sch.list p rest, n, sch.calls⟩ := by
  cases p <;> simp [contents, head, ← Multiset.cons_coe]

theorem choice_head {cfg : Config} {sch : Scheduler} {nowNs : Nat}
    (chosen : sch.choice cfg nowNs = some p) : ∃ v rest, sch.list p = v :: rest := by
  rw [choice] at chosen
  split at chosen
  · cases chosen
  · split at chosen
    · rename_i aged
      cases chosen
      cases listed : sch.list .Low with
      | nil => simp [listed] at aged
      | cons v rest => exact ⟨v, rest, rfl⟩
    · have found := List.find?_some (p := fun p => (sch.list p).head?.isSome) chosen
      cases listed : sch.list p with
      | nil => simp [listed] at found
      | cons v rest => exact ⟨v, rest, rfl⟩

end Scheduler

section

/-- The calls of `enqueue` among the exchanges, with their results. -/
def enqueued (history : List (Op × Response)) : List (Request × Bool) :=
  history.filterMap fun
    | (.enqueue r, .queued accepted) => some (r, accepted)
    | _ => none

/-- The slots of the accepted calls, as they were built. -/
def accepted (cfg : Config) (history : List (Op × Response)) : List StagingSlot :=
  (enqueued history).zipIdx.filterMap fun ((r, accepted), i) =>
    if accepted then some (r.slot cfg i) else none

/-- The slots `dequeue_one` has returned. -/
def dequeued (history : List (Op × Response)) : List StagingSlot :=
  history.filterMap fun
    | (_, .dequeued out) => out
    | _ => none

/-- Every accepted slot has been returned, or is still in its list. -/
structure Scheduler.Balanced (cfg : Config) (history : List (Op × Response)) (sch : Scheduler) :
    Prop where
  calls : sch.calls = (enqueued history).length
  conserved : (accepted cfg history : Multiset StagingSlot) = dequeued history + sch.contents

variable {cfg : Config} {past : List (Op × Response)}

theorem enqueued_enqueue (past : List (Op × Response)) (r : Request) (queued : Bool) :
    enqueued (past ++ [(.enqueue r, .queued queued)]) = enqueued past ++ [(r, queued)] := by
  simp [enqueued]

theorem accepted_enqueue (cfg : Config) (past : List (Op × Response)) (r : Request) (queued : Bool) :
    accepted cfg (past ++ [(.enqueue r, .queued queued)]) =
      accepted cfg past ++ if queued then [r.slot cfg (enqueued past).length] else [] := by
  rw [accepted, enqueued_enqueue, List.zipIdx_append, List.filterMap_append]
  cases queued <;> simp [accepted]

theorem Scheduler.Balanced.enqueue (balanced : Balanced cfg past sch) (r : Request) :
    Balanced cfg (past ++ [(Op.enqueue r, Response.queued (sch.enqueue cfg r).2)])
      (sch.enqueue cfg r).1 := by
  have none :
      dequeued (past ++ [(Op.enqueue r, Response.queued (sch.enqueue cfg r).2)]) =
        dequeued past := by
    simp [dequeued]
  constructor
  case calls =>
    rw [enqueued_enqueue, List.length_append, ← balanced.calls, Scheduler.enqueue]
    split <;> rfl
  case conserved =>
    rw [none, accepted_enqueue, ← Multiset.coe_add, balanced.conserved, add_assoc]
    congr 1
    rw [Scheduler.enqueue]
    split
    · rw [if_pos rfl, contents_append, Multiset.coe_singleton, ← balanced.calls, add_comm,
        Multiset.singleton_add]
    · exact add_zero _

theorem Scheduler.Balanced.dequeueOne (balanced : Balanced cfg past sch) (nowNs : Nat) :
    Balanced cfg (past ++ [(Op.dequeueOne nowNs, Response.dequeued (sch.dequeueOne cfg nowNs).2)])
      (sch.dequeueOne cfg nowNs).1 := by
  have same (out : Option StagingSlot) :
      enqueued (past ++ [(Op.dequeueOne nowNs, Response.dequeued out)]) = enqueued past := by
    simp [enqueued]
  have taken (out : Option StagingSlot) :
      dequeued (past ++ [(Op.dequeueOne nowNs, Response.dequeued out)]) =
        dequeued past ++ out.toList := by
    cases out <;> simp [dequeued]
  have quiet : Balanced cfg (past ++ [(Op.dequeueOne nowNs, Response.dequeued none)]) sch := by
    refine ⟨by rw [same, balanced.calls], ?_⟩
    rw [accepted, same, taken, Option.toList_none, List.append_nil]
    exact balanced.conserved
  rw [Scheduler.dequeueOne]
  split
  · exact quiet
  · split
    · exact quiet
    · rename_i p _ v rest head
      refine ⟨by rw [same]; exact balanced.calls, ?_⟩
      rw [accepted, same, taken, ← Multiset.coe_add, Option.toList_some, Multiset.coe_singleton,
        add_assoc, Multiset.singleton_add]
      exact balanced.conserved.trans
        (congrArg _ (contents_tail head (sch.drawn + 1)))

theorem Scheduler.balanced (cfg : Config) (ops : List Op) :
    Balanced cfg (ops.zip (answers (Scheduler.perform cfg) .initial ops).2)
      (answers (Scheduler.perform cfg) .initial ops).1 := by
  refine answers_invariant ?_ ⟨rfl, rfl⟩ ops
  intro past sch op balanced
  cases op with
  | enqueue r => exact balanced.enqueue r
  | beginBatch =>
    have same : enqueued (past ++ [(Op.beginBatch, Response.opened)]) = enqueued past := by
      simp [enqueued]
    have none : dequeued (past ++ [(Op.beginBatch, Response.opened)]) = dequeued past := by
      simp [dequeued]
    refine ⟨balanced.calls.trans (congrArg List.length same.symm), ?_⟩
    rw [accepted, show (perform cfg sch .beginBatch).2 = .opened from rfl, same, none]
    exact balanced.conserved
  | dequeueOne nowNs => exact balanced.dequeueOne nowNs

end

end Coact.Staging
