import Coact.Coro.Ledger
import Coact.Foundation.History

/-! The life of a task. Each handle goes through stages that only grow, from not yet
created to retired; completion, registration and the taking of the result are steps
across a threshold, so none of them happens twice. -/
namespace Coact.Coro
open Foundation Registry Function

variable {T : Type} {capacity : Nat}

/-- How far the task in a slot has come. -/
def TaskSlot.rank (slot : TaskSlot T) : Nat :=
  match slot.state with
  | .kFree | .kCreated => 0
  | .kWaiting => 1
  | .kCompleted => if slot.hasResult then 2 else 3

/-- The stage of the slot's task of generation `g`; 4 once that generation is over. -/
def TaskSlot.stage (slot : TaskSlot T) (g : UInt16) : Nat :=
  if g.toNat < slot.generation.toNat then 4
  else if slot.generation = g ∧ slot.state ≠ .kFree then slot.rank
  else 0

def Registry.stage (r : Registry T capacity) (id : TaskId) : Nat :=
  if inside : id.slot.raw.toNat < capacity then (r.slots ⟨_, inside⟩).stage id.generation else 0

section
variable {r : Registry T capacity} {slot slot' : TaskSlot T} {i : Fin capacity} {id : TaskId}

theorem TaskSlot.stage_mono (generation : slot'.generation = slot.generation)
    (onward : slot.state ≠ .kFree → slot'.state ≠ .kFree ∧ slot.rank ≤ slot'.rank) (g : UInt16) :
    slot.stage g ≤ slot'.stage g := by
  rw [stage, stage, generation]
  split
  · exact le_rfl
  · by_cases current : slot.generation = g ∧ slot.state ≠ .kFree
    · obtain ⟨still, ranks⟩ := onward current.2
      rw [if_pos current, if_pos ⟨current.1, still⟩]
      exact ranks
    · rw [if_neg current]
      exact Nat.zero_le _

theorem TaskSlot.stage_retired (generation : slot'.generation.toNat = slot.generation.toNat + 1)
    (g : UInt16) : slot.stage g ≤ slot'.stage g := by
  rw [stage]
  split
  · rw [stage, if_pos (by omega)]
  · by_cases current : slot.generation = g ∧ slot.state ≠ .kFree
    · rw [if_pos current, stage, if_pos (by rw [generation, current.1]; omega), rank]
      split
      · exact Nat.zero_le 4
      · exact Nat.zero_le 4
      · decide
      · split <;> decide
    · rw [if_neg current]
      exact Nat.zero_le _

theorem Registry.stage_set (onward : ∀ g, (r.slots i).stage g ≤ slot.stage g) (id : TaskId) :
    r.stage id ≤ (r.set i slot).stage id := by
  rw [stage, stage]
  split
  · rename_i inside
    by_cases here : ⟨_, inside⟩ = i
    · rw [here, set_slots, update_self]
      exact onward _
    · rw [set_slots, update_of_ne here]
  · exact le_rfl

theorem Registry.stage_found (found : r.findLocked id = some i) : r.stage id = (r.slots i).rank := by
  obtain ⟨-, slot, occupied, current⟩ := occupied_of_find found
  obtain ⟨i, inside⟩ := i
  subst slot
  rw [stage, dif_pos inside, TaskSlot.stage, current, if_neg (Nat.lt_irrefl _),
    if_pos ⟨rfl, occupied⟩]

theorem Registry.stage_set_found (slot : TaskSlot T) (found : r.findLocked id = some i)
    (generation : slot.generation = (r.slots i).generation) (still : slot.state ≠ .kFree) :
    (r.set i slot).stage id = slot.rank := by
  have here : (r.set i slot).slots i = slot := update_self ..
  obtain ⟨valid, place, -, current⟩ := occupied_of_find found
  have again : (r.set i slot).findLocked id = some i := by
    refine find_of_occupied valid place ?_ ?_
    · rw [here]
      exact still
    · rw [here, generation, current]
  rw [stage_found again, here]

theorem Registry.stage_over {r' : Registry T capacity} (found : r.findLocked id = some i)
    (generation : (r'.slots i).generation.toNat = (r.slots i).generation.toNat + 1) :
    r'.stage id = 4 := by
  obtain ⟨-, slot, -, current⟩ := occupied_of_find found
  obtain ⟨i, inside⟩ := i
  subst slot
  rw [stage, dif_pos inside, TaskSlot.stage, if_pos (by rw [generation, current]; omega)]

theorem TaskSlot.rank_created (state : slot.state = .kCreated) : slot.rank = 0 := by
  rw [rank, state]

theorem TaskSlot.rank_open (unfinished : slot.state ≠ .kCompleted) : slot.rank < 2 := by
  rw [rank]
  split
  · decide
  · decide
  · decide
  · rename_i completed
    exact (unfinished completed).elim

theorem TaskSlot.rank_completed (completed : slot.state = .kCompleted) : 2 ≤ slot.rank := by
  rw [rank, completed]
  dsimp only
  split <;> decide

end

namespace Entry

/-- A completion of `id` took effect, whether or not its event could be delivered. -/
def concludes (id : TaskId) (e : Entry T) : Bool :=
  match e.kind with
  | .concluded id' | .died id' => id' = id
  | _ => false

def registers (id : TaskId) (e : Entry T) : Bool :=
  match e.kind with
  | .registered id' => id' = id
  | _ => false

def takes (id : TaskId) (e : Entry T) : Bool :=
  match e.kind with
  | .taken id' _ => id' = id
  | _ => false

/-- A completion event for `id` was submitted. -/
def posts (id : TaskId) (e : Entry T) : Bool := e.op.handle = some id ∧ e.answer.posted.isSome

end Entry

/-- An operation takes every handle onward, and what it does for its own one is a step
across the threshold. -/
structure Onward (r r' : Registry T capacity) (op : Op T) (kind : Kind T)
    (posted : Option Posting) : Prop where
  grows : ∀ id, r.stage id ≤ r'.stage id
  concluded : ∀ id, kind = .concluded id ∨ kind = .died id → r.stage id < 2 ∧ 2 ≤ r'.stage id
  registered : ∀ id, kind = .registered id → r.stage id < 1 ∧ 1 ≤ r'.stage id
  taken : ∀ id value, kind = .taken id value → r.stage id < 3 ∧ 3 ≤ r'.stage id
  posted : ∀ id, op.handle = some id → posted.isSome = true → r.stage id < 2 ∧ 2 ≤ r'.stage id

section
variable {r r' : Registry T capacity} {delivery : Delivery} {op : Op T} {kind : Kind T}
  {posted : Option Posting} {i : Fin capacity}

/-- The kinds that complete, register and take nothing. -/
def Kind.plain : Kind T → Bool
  | .idle | .rejected | .issued _ | .released _ => true
  | _ => false

theorem Onward.grown (grows : ∀ id, r.stage id ≤ r'.stage id) (plain : kind.plain = true)
    (unposted : posted = none) : Onward r r' op kind posted where
  grows := grows
  concluded id own := by rcases own with rfl | rfl <;> cases plain
  registered id own := by
    subst own
    cases plain
  taken id value own := by
    subst own
    cases plain
  posted id handle sent := by
    subst unposted
    cases sent

theorem Onward.conclude (conclusion : op.conclusion = some c)
    (own : kind = .concluded c.id ∨ kind = .died c.id) (grows : ∀ id, r.stage id ≤ r'.stage id)
    (crosses : r.stage c.id < 2 ∧ 2 ≤ r'.stage c.id) : Onward r r' op kind posted where
  grows := grows
  concluded id same := by
    rcases own with rfl | rfl <;> rcases same with same | same <;> cases same <;> exact crosses
  registered id never := by rcases own with rfl | rfl <;> cases never
  taken id value never := by rcases own with rfl | rfl <;> cases never
  posted id handle _ := by
    rw [Op.handle_conclusion conclusion] at handle
    cases handle
    exact crosses

theorem Onward.completed (conclusion : op.conclusion = some c)
    (found : r.findLocked c.id = some i) (unfinished : (r.slots i).state ≠ .kCompleted) :
    Onward r (r.set i (c.outcome (r.slots i))) op (.concluded c.id) posted := by
  have before := TaskSlot.rank_open unfinished
  have after := TaskSlot.rank_completed (c.completes (r.slots i))
  have still : (c.outcome (r.slots i)).state ≠ .kFree := by
    rw [c.completes]
    decide
  refine .conclude conclusion (.inl rfl)
    (stage_set (TaskSlot.stage_mono (c.generation _) fun _ => ⟨still, by omega⟩)) ?_
  rw [stage_found found, stage_set_found _ found (c.generation _) still]
  exact ⟨before, after⟩

theorem Effect.onward (effect : Effect r delivery op r' kind posted) : Onward r r' op kind posted := by
  cases effect with
  | idle | rejected => exact .grown (fun _ => le_rfl) rfl rfl
  | @issued _ _ _ _ free =>
    refine .grown (stage_set (TaskSlot.stage_mono rfl fun occupied => ?_)) rfl rfl
    exact (occupied (free_of_firstFree free)).elim
  | @registered id waiter signal i found created =>
    have zero := TaskSlot.rank_created created
    have still : ((r.slots i).awaited waiter signal).state ≠ .kFree := by
      rw [TaskSlot.awaited_state]
      decide
    have crosses : r.stage id < 1 ∧
        1 ≤ (r.set i ((r.slots i).awaited waiter signal)).stage id := by
      rw [stage_found found, zero,
        stage_set_found ((r.slots i).awaited waiter signal) found rfl still]
      exact ⟨Nat.one_pos, le_rfl⟩
    refine ⟨stage_set (TaskSlot.stage_mono rfl fun _ => ⟨still, ?_⟩), by simp, ?_, by simp,
      by simp⟩
    · rw [zero]
      exact Nat.zero_le _
    · intro id' same
      cases same
      exact crosses
  | silent conclusion found unfinished | posted conclusion found unfinished =>
    exact .completed conclusion found unfinished
  | @died op c i conclusion found unfinished =>
    have generation : (r.slots i).release.generation =
        (c.outcome (r.slots i)).release.generation := by
      rw [TaskSlot.release, TaskSlot.release, c.generation]
    have next := generation_release found
    rw [generation] at next
    have ended : ∀ id, ((r.set i (c.outcome (r.slots i))).undelivered i).stage id =
        (r.set i (c.outcome (r.slots i)).release).stage id := by
      intro id
      rw [stage, stage, undelivered_slots]
      rfl
    refine .conclude conclusion (.inr rfl) (fun id => ?_) ⟨?_, ?_⟩
    · rw [ended]
      exact stage_set (TaskSlot.stage_retired next) id
    · rw [stage_found found]
      exact TaskSlot.rank_open unfinished
    · rw [ended, stage_over found (by rw [set_slots, update_self, next])]
      decide
  | @taken id i value found completed unfailed present =>
    have before : (r.slots i).rank = 2 := by
      rw [TaskSlot.rank, completed]
      exact if_pos present
    have after : (r.slots i).taken.rank = 3 := by
      rw [TaskSlot.rank, TaskSlot.taken_state, completed]
      rfl
    have still : (r.slots i).taken.state ≠ .kFree := by
      rw [TaskSlot.taken_state, completed]
      decide
    refine ⟨stage_set (TaskSlot.stage_mono rfl fun _ => ⟨still, by omega⟩), by simp, by simp,
      ?_, by simp⟩
    intro id' value' same
    cases same
    rw [stage_found found, stage_set_found (r.slots i).taken found rfl still, before, after]
    decide
  | @released _ _ found =>
    exact .grown (stage_set (TaskSlot.stage_retired (generation_release found)))
      rfl rfl

end

/-- How often each thing has happened to a handle, by its stage. -/
structure Ledger.Staged (s : Ledger T capacity) : Prop where
  concluded : ∀ id, Passed (Entry.concludes id) 2 (s.registry.stage id) s.history
  posted : ∀ id, Passed (Entry.posts id) 2 (s.registry.stage id) s.history
  registered : ∀ id, Passed (Entry.registers id) 1 (s.registry.stage id) s.history
  taken : ∀ id, Passed (Entry.takes id) 3 (s.registry.stage id) s.history

theorem Ledger.Staged.after {s : Ledger T capacity} (inv : s.Staged) (op : Op T)
    (delivery : Delivery) : (s.after op delivery).Staged := by
  have onward := (s.effect op delivery).onward
  refine ⟨fun id => ?_, fun id => ?_, fun id => ?_, fun id => ?_⟩
  · refine (inv.concluded id).snoc (onward.grows id) fun marked => onward.concluded id ?_
    rw [Entry.concludes] at marked
    split at marked
    · rename_i id' kind
      exact .inl (kind.trans (congrArg _ (of_decide_eq_true marked)))
    · rename_i id' kind
      exact .inr (kind.trans (congrArg _ (of_decide_eq_true marked)))
    · cases marked
  · refine (inv.posted id).snoc (onward.grows id) fun marked => ?_
    obtain ⟨handle, submitted⟩ := of_decide_eq_true marked
    exact onward.posted id handle submitted
  · refine (inv.registered id).snoc (onward.grows id) fun marked => onward.registered id ?_
    rw [Entry.registers] at marked
    split at marked
    · rename_i id' kind
      exact kind.trans (congrArg _ (of_decide_eq_true marked))
    · cases marked
  · refine (inv.taken id).snoc (onward.grows id) fun marked => ?_
    rw [Entry.takes] at marked
    split at marked
    · rename_i id' value kind
      exact onward.taken id value (kind.trans (congrArg (Kind.taken · value)
        (of_decide_eq_true marked)))
    · cases marked

theorem Ledger.Reached.staged {s : Ledger T capacity} (run : s.Reached) : s.Staged := by
  refine Reaches.invariant run ⟨fun _ => .nil, fun _ => .nil, fun _ => .nil, fun _ => .nil⟩
    fun call s t inv _ ran => ?_
  cases ran
  exact inv.after call.1 call.2

end Coact.Coro
