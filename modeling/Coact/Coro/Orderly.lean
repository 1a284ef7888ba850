import Coact.Coro.Ledger

/-! What a registry operation leaves alone and what it answers for: outcomes are not
overwritten, waiters change by registration only, stale handles touch nothing, and
every stored outcome goes back to the one operation that completed the task. -/
namespace Coact.Coro
open Foundation Registry Function

variable {T : Type} {capacity : Nat}

/-- What `rejected_count_` grows by. -/
def Kind.rejections : Kind T → UInt32
  | .rejected => 1
  | _ => 0

/-- The completed task keeps its outcome and its waiter. -/
structure SameOutcome (slot slot' : TaskSlot T) : Prop where
  state : slot'.state = slot.state
  generation : slot'.generation = slot.generation
  hasError : slot'.hasError = slot.hasError
  error : slot'.error = slot.error
  result : slot'.result = slot.result
  waiter : slot'.waiter = slot.waiter

theorem SameOutcome.refl (slot : TaskSlot T) : SameOutcome slot slot := ⟨rfl, rfl, rfl, rfl, rfl, rfl⟩

/-- What an operation leaves alone and what it answers for. -/
structure Orderly (r r' : Registry T capacity) (delivery : Delivery) (op : Op T) (kind : Kind T)
    (posted : Option Posting) : Prop where
  outcome : ∀ i, (r.slots i).state = .kCompleted →
    SameOutcome (r.slots i) (r'.slots i) ∨ kind = .released (r.idOf i)
  posting : ∀ c i, op.conclusion = some c → r.findLocked c.id = some i →
    (r.slots i).state ≠ .kCompleted → posted =
      if (r.slots i).waiter = kInvalidTarget then none
      else delivery.submission (c.posting (r.slots i))
  unposted : (∀ id, kind ≠ .concluded id ∧ kind ≠ .died id) → posted = none
  waiter : ∀ i, (r.slots i).state ≠ .kFree → (r'.slots i).generation = (r.slots i).generation →
    (r'.slots i).waiter ≠ (r.slots i).waiter →
      ∃ id waiter signal, op = .setAwaiter id waiter signal ∧ kind = .registered id ∧
        r.findLocked id = some i ∧ (r.slots i).state = .kCreated
  taken : ∀ id value, kind = .taken id value → ∃ i, r.findLocked id = some i ∧
    (r.slots i).state = .kCompleted ∧ (r.slots i).hasError = false ∧
    (r.slots i).result = some value
  stale : ∀ id, op.handle = some id → r.findLocked id = none → r'.slots = r.slots
  counted : r'.rejectedCount = r.rejectedCount + kind.rejections
  refused : kind = .rejected ↔ Refused r op
  died : ∀ id, kind = .died id → (∃ i, r.findLocked id = some i ∧ (r'.slots i).state = .kFree) ∧
    r'.findLocked id = none ∧
    ∀ disposition, delivery = .submitted disposition → delivered disposition = false

section
variable {r r' : Registry T capacity} {delivery : Delivery} {op : Op T} {kind : Kind T}
  {posted : Option Posting}

theorem outcome_elsewhere {slot : TaskSlot T} (changed : slots' = update r.slots j slot)
    (unfinished : (r.slots j).state ≠ .kCompleted) (completed : (r.slots i).state = .kCompleted) :
    SameOutcome (r.slots i) (slots' i) := by
  have apart : i ≠ j := by
    rintro rfl
    exact unfinished completed
  rw [changed, update_of_ne apart]
  exact .refl _

section
variable (effect : Effect r delivery op r' kind posted)
include effect

theorem Effect.outcome (i : Fin capacity) (completed : (r.slots i).state = .kCompleted) :
    SameOutcome (r.slots i) (r'.slots i) ∨ kind = .released (r.idOf i) := by
  cases effect with
  | idle | rejected => exact .inl (.refl _)
  | issued free =>
    refine .inl (outcome_elsewhere rfl ?_ completed)
    rw [free_of_firstFree free]
    nofun
  | registered _ created =>
    refine .inl (outcome_elsewhere rfl ?_ completed)
    rw [created]
    nofun
  | silent _ _ unfinished | posted _ _ unfinished =>
    exact .inl (outcome_elsewhere rfl unfinished completed)
  | died _ _ unfinished =>
    exact .inl (outcome_elsewhere (undelivered_slots ..) unfinished completed)
  | @taken _ j =>
    refine .inl ?_
    by_cases here : i = j
    · rw [here, set_slots, update_self]
      exact ⟨rfl, rfl, rfl, rfl, rfl, rfl⟩
    · rw [set_slots, update_of_ne here]
      exact .refl _
  | @released _ j found =>
    by_cases here : i = j
    · rw [here, ← eq_idOf found]
      exact .inr rfl
    · rw [set_slots, update_of_ne here]
      exact .inl (.refl _)

theorem Effect.waiter (i : Fin capacity) (occupied : (r.slots i).state ≠ .kFree)
    (generation : (r'.slots i).generation = (r.slots i).generation)
    (changed : (r'.slots i).waiter ≠ (r.slots i).waiter) :
    ∃ id waiter signal, op = .setAwaiter id waiter signal ∧ kind = .registered id ∧
      r.findLocked id = some i ∧ (r.slots i).state = .kCreated := by
  have here {j : Fin capacity} {slots' : Fin capacity → TaskSlot T} {slot : TaskSlot T}
      (same : slots' = update r.slots j slot)
      (changed : (slots' i).waiter ≠ (r.slots i).waiter) : j = i := by
    by_contra apart
    rw [same, update_of_ne (Ne.symm apart)] at changed
    exact changed rfl
  have kept {j : Fin capacity} {slot : TaskSlot T} (same : slot.waiter = (r.slots j).waiter)
      (changed : ((r.set j slot).slots i).waiter ≠ (r.slots i).waiter) : False := by
    obtain rfl := here rfl changed
    rw [set_slots, update_self] at changed
    exact changed same
  have aged {j : Fin capacity} {id : TaskId} (found : r.findLocked id = some j)
      {slots' : Fin capacity → TaskSlot T} {slot : TaskSlot T}
      (same : slots' = update r.slots j slot)
      (next : slot.generation = (r.slots j).release.generation)
      (generation : (slots' i).generation = (r.slots i).generation)
      (changed : (slots' i).waiter ≠ (r.slots i).waiter) : False := by
    obtain rfl := here same changed
    have grown := generation_release found
    rw [same, update_self, next] at generation
    rw [generation] at grown
    omega
  cases effect with
  | idle | rejected => exact (changed rfl).elim
  | issued free =>
    obtain rfl := here rfl changed
    exact (occupied (free_of_firstFree free)).elim
  | @registered id waiter signal _ found created =>
    obtain rfl := here rfl changed
    exact ⟨id, waiter, signal, rfl, rfl, found, created⟩
  | silent | posted => exact (kept (Conclusion.waiter _ _) changed).elim
  | @died _ c _ _ found =>
    refine (aged found (undelivered_slots ..) ?_ generation changed).elim
    rw [TaskSlot.release, TaskSlot.release, c.generation]
  | @taken _ j =>
    have same : (r.slots j).taken.waiter = (r.slots j).waiter := rfl
    exact (kept same changed).elim
  | released found => exact (aged found rfl rfl generation changed).elim

theorem Effect.stale {id : TaskId}
    (handle : op.handle = some id) (absent : r.findLocked id = none) : r'.slots = r.slots := by
  have concluded {c : Conclusion T} {i : Fin capacity} (conclusion : op.conclusion = some c)
      (found : r.findLocked c.id = some i) : False := by
    cases (Op.handle_conclusion conclusion).symm.trans handle
    cases absent.symm.trans found
  cases effect with
  | idle | rejected => rfl
  | issued => cases handle
  | registered found | taken found | released found =>
    cases handle
    cases absent.symm.trans found
  | silent conclusion found | posted conclusion found | died conclusion found =>
    exact (concluded conclusion found).elim

theorem Effect.refused : kind = .rejected ↔ Refused r op := by
  have concluded {c : Conclusion T} {i : Fin capacity} (conclusion : op.conclusion = some c)
      (found : r.findLocked c.id = some i) (unfinished : (r.slots i).state ≠ .kCompleted)
      (refused : Refused r op) : False := by
    cases refused with
    | completed again found' completed =>
      cases conclusion.symm.trans again
      cases found.symm.trans found'
      exact unfinished completed
    | awaited => cases conclusion
  cases effect with
  | rejected refused => exact ⟨fun _ => refused, fun _ => rfl⟩
  | idle idle =>
    refine ⟨nofun, fun refused => ?_⟩
    cases refused with
    | completed conclusion found =>
      cases idle with
      | unknown handle absent =>
        cases (Op.handle_conclusion conclusion).symm.trans handle
        cases absent.symm.trans found
      | _ => cases conclusion
    | awaited found waiting =>
      cases idle with
      | unknown handle absent =>
        cases handle
        cases absent.symm.trans found
      | unawaited found' completed =>
        cases found.symm.trans found'
        cases waiting.symm.trans completed
  | issued | taken | released =>
    refine ⟨nofun, fun refused => ?_⟩
    cases refused with
    | completed conclusion => cases conclusion
  | registered found created =>
    refine ⟨nofun, fun refused => ?_⟩
    cases refused with
    | completed conclusion => cases conclusion
    | awaited found' waiting =>
      cases found.symm.trans found'
      cases created.symm.trans waiting
  | silent conclusion found unfinished | posted conclusion found unfinished
  | died conclusion found unfinished =>
    exact ⟨nofun, fun refused => (concluded conclusion found unfinished refused).elim⟩

theorem Effect.posting (conclusion : op.conclusion = some c) (found : r.findLocked c.id = some i)
    (unfinished : (r.slots i).state ≠ .kCompleted) : posted =
      if (r.slots i).waiter = kInvalidTarget then none
      else delivery.submission (c.posting (r.slots i)) := by
  cases effect with
  | idle idle =>
    cases idle with
    | unknown handle absent =>
      cases (Op.handle_conclusion conclusion).symm.trans handle
      cases absent.symm.trans found
    | _ => cases conclusion
  | rejected refused =>
    cases refused with
    | completed again found' completed =>
      cases conclusion.symm.trans again
      cases found.symm.trans found'
      exact (unfinished completed).elim
    | awaited => cases conclusion
  | silent again found' _ silent =>
    cases conclusion.symm.trans again
    cases found.symm.trans found'
    rw [if_pos silent]
  | posted again found' _ waited submitted =>
    cases conclusion.symm.trans again
    cases found.symm.trans found'
    rw [if_neg waited, submitted]
    rfl
  | died again found' _ waited =>
    cases conclusion.symm.trans again
    cases found.symm.trans found'
    rw [if_neg waited]
  | _ => cases conclusion

theorem Effect.orderly : Orderly r r' delivery op kind posted where
  outcome := effect.outcome
  posting _ _ conclusion found unfinished := effect.posting conclusion found unfinished
  unposted none := by
    cases effect with
    | posted => exact ((none _).1 rfl).elim
    | died => exact ((none _).2 rfl).elim
    | _ => rfl
  waiter := effect.waiter
  taken id value same := by
    cases effect with
    | taken found completed unfailed _ result =>
      cases same
      exact ⟨_, found, completed, unfailed, result⟩
    | _ => cases same
  stale _ handle absent := effect.stale handle absent
  counted := by
    cases effect with
    | rejected => rfl
    | _ => exact (UInt32.add_zero _).symm
  refused := effect.refused
  died id same := by
    cases effect with
    | @died _ c i _ found _ _ undelivered =>
      cases same
      have free : (((r.set i (c.outcome (r.slots i))).undelivered i).slots i).state = .kFree := by
        rw [undelivered_slots, update_self]
        rfl
      refine ⟨⟨i, found, free⟩, ?_, undelivered⟩
      rw [Option.eq_none_iff_forall_ne_some]
      intro j again
      obtain ⟨-, place, occupied, -⟩ := occupied_of_find again
      have slot := (occupied_of_find found).2.1
      obtain rfl : i = j := Fin.ext (slot.symm.trans place)
      exact occupied free
    | _ => cases same

end

end

/-- The slot stores what the completing operation was given. -/
def Op.Stored : Op T → TaskSlot T → Prop
  | .complete _ value, slot => slot.hasError = false ∧ slot.result = some value
  | .fail _ err, slot => slot.hasError = true ∧ slot.error = err
  | .cancel _, slot => slot.hasError = true ∧ slot.error = .kCancelled
  | _, _ => False

/-- Every completed task was completed by one operation of the history, and stores its
outcome. -/
def Ledger.Explained (s : Ledger T capacity) : Prop :=
  ∀ i, (s.registry.slots i).state = .kCompleted →
    ∃ e ∈ s.history, e.kind = .concluded (s.registry.idOf i) ∧ e.op.Stored (s.registry.slots i)

section
variable {s : Ledger T capacity} {delivery : Delivery} {op : Op T} {kind : Kind T}
  {posted : Option Posting}

theorem Op.stored_outcome (conclusion : op.conclusion = some c)
    (slot : TaskSlot T) : op.Stored (c.outcome slot) := by
  cases op <;> cases conclusion <;> exact ⟨rfl, rfl⟩

theorem SameOutcome.stored {slot slot' : TaskSlot T} (same : SameOutcome slot slot')
    (stored : op.Stored slot) : op.Stored slot' := by
  cases op with
  | complete => exact ⟨same.hasError.trans stored.1, same.result.trans stored.2⟩
  | fail | cancel => exact ⟨same.hasError.trans stored.1, same.error.trans stored.2⟩
  | _ => exact stored

theorem Effect.completed (effect : Effect r delivery op r' kind posted) (i : Fin capacity)
    (completed : (r'.slots i).state = .kCompleted) :
    (r.slots i).state = .kCompleted ∧ SameOutcome (r.slots i) (r'.slots i) ∨
      kind = .concluded (r'.idOf i) ∧ op.Stored (r'.slots i) := by
  by_cases before : (r.slots i).state = .kCompleted
  · rcases effect.outcome i before with same | rfl
    · exact .inl ⟨before, same⟩
    · cases effect with
      | @released _ j =>
        -- The slot of a released handle is free, so it was another one.
        by_cases here : i = j
        · rw [here, set_slots, update_self] at completed
          cases completed
        · rw [set_slots, update_of_ne here] at completed ⊢
          exact .inl ⟨before, .refl _⟩
  · refine .inr ?_
    have here {j : Fin capacity} {slots' : Fin capacity → TaskSlot T} {slot : TaskSlot T}
        (same : slots' = update r.slots j slot)
        (completed : (slots' i).state = .kCompleted) : j = i ∧ slot.state = .kCompleted := by
      by_cases apart : i = j
      · subst apart
        rw [same, update_self] at completed
        exact ⟨rfl, completed⟩
      · rw [same, update_of_ne apart] at completed
        exact (before completed).elim
    have concluded {c : Conclusion T} {j : Fin capacity} (conclusion : op.conclusion = some c)
        (found : r.findLocked c.id = some j)
        (completed : ((r.set j (c.outcome (r.slots j))).slots i).state = .kCompleted) :
        Kind.concluded (T := T) c.id = .concluded ((r.set j (c.outcome (r.slots j))).idOf i) ∧
          op.Stored ((r.set j (c.outcome (r.slots j))).slots i) := by
      obtain ⟨rfl, -⟩ := here rfl completed
      have slot : (r.set j (c.outcome (r.slots j))).slots j = c.outcome (r.slots j) :=
        update_self ..
      have own : (r.set j (c.outcome (r.slots j))).idOf j = c.id := by
        rw [eq_idOf found]
        exact idOf_congr (by rw [slot, c.generation])
      rw [slot, own]
      exact ⟨rfl, Op.stored_outcome conclusion _⟩
    cases effect with
    | idle | rejected => exact (before completed).elim
    | issued | registered | released => cases (here rfl completed).2
    | silent conclusion found | posted conclusion found =>
      exact concluded conclusion found completed
    | died => cases (here (undelivered_slots ..) completed).2
    | taken _ finished =>
      obtain ⟨rfl, -⟩ := here rfl completed
      exact (before finished).elim

theorem Ledger.Explained.after (inv : s.Explained) (op : Op T) (delivery : Delivery) :
    (s.after op delivery).Explained := by
  intro i completed
  rcases (s.effect op delivery).completed i completed with ⟨before, same⟩ | ⟨concluded, stored⟩
  · obtain ⟨e, mem, kind, stored⟩ := inv i before
    refine ⟨e, List.mem_append_left _ mem, ?_, same.stored stored⟩
    rw [kind, idOf_congr same.generation]
  · exact ⟨s.entry op delivery, List.mem_append_right _ (List.mem_singleton_self _), concluded,
      stored⟩

theorem Ledger.Reached.explained (run : s.Reached) : s.Explained := by
  refine Reaches.invariant run (fun i never => nomatch never) fun call s t inv _ ran => ?_
  cases ran
  exact inv.after call.1 call.2

theorem Ledger.Explained.complete (inv : s.Explained) {id : TaskId} {value : T}
    (found : s.registry.findLocked id = some i) (completed : (s.registry.slots i).state = .kCompleted)
    (unfailed : (s.registry.slots i).hasError = false)
    (result : (s.registry.slots i).result = some value) :
    ∃ e ∈ s.history, e.op = .complete id value ∧ e.kind = .concluded id := by
  obtain ⟨⟨op, delivery, answer⟩, mem, kind, stored⟩ := inv i completed
  rw [← eq_idOf found] at kind
  refine ⟨_, mem, ?_, kind⟩
  cases op with
  | complete id' =>
    have own : Kind.ofConclusion id' answer.result = .concluded id := kind
    rw [Kind.ofConclusion.eq_def] at own
    split at own <;> cases own
    cases stored.2.symm.trans result
    rfl
  | fail | cancel => cases unfailed.symm.trans stored.1
  | _ => exact stored.elim

end

end Coact.Coro
