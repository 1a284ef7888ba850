import Coact.Coro.Registry

/-! What one registry operation can do, once and for all: nothing, a counted
rejection, or one step of the slot that its handle resolves to. -/
namespace Coact.Coro
open Registry

variable {T : Type} {capacity : Nat}

/-- What `complete`, `fail` and `cancel` have in common: they complete the slot and
leave its identity and its waiter alone. -/
structure Conclusion (T : Type) where
  id : TaskId
  outcome : TaskSlot T → TaskSlot T
  rejection : TaskSlot T → TaskError
  status : CompletionStatus
  err : TaskError
  completes : ∀ slot, (outcome slot).state = .kCompleted
  generation : ∀ slot, (outcome slot).generation = slot.generation
  waiter : ∀ slot, (outcome slot).waiter = slot.waiter
  signal : ∀ slot, (outcome slot).waiterSignal = slot.waiterSignal
  qos : ∀ slot, (outcome slot).qos = slot.qos
  refuses : ∀ slot, rejection slot = .kAlreadyCompleted ∨ rejection slot = .kCancelled

def Op.conclusion : Op T → Option (Conclusion T)
  | .complete id value => some
    { id := id
      outcome := (·.succeeded value)
      rejection := fun slot =>
        if slot.hasError ∧ slot.error = .kCancelled then .kCancelled else .kAlreadyCompleted
      status := .kSucceeded
      err := .kOk
      completes := fun _ => rfl
      generation := fun _ => rfl
      waiter := fun _ => rfl
      signal := fun _ => rfl
      qos := fun _ => rfl
      refuses := fun slot => by
        split
        · exact .inr rfl
        · exact .inl rfl }
  | .fail id err => some
    { id := id
      outcome := (·.failed err)
      rejection := fun _ => .kAlreadyCompleted
      status := .kFailed
      err := err
      completes := fun _ => rfl
      generation := fun _ => rfl
      waiter := fun _ => rfl
      signal := fun _ => rfl
      qos := fun _ => rfl
      refuses := fun _ => .inl rfl }
  | .cancel id => some
    { id := id
      outcome := (·.failed .kCancelled)
      rejection := fun _ => .kAlreadyCompleted
      status := .kCancelled
      err := .kCancelled
      completes := fun _ => rfl
      generation := fun _ => rfl
      waiter := fun _ => rfl
      signal := fun _ => rfl
      qos := fun _ => rfl
      refuses := fun _ => .inl rfl }
  | _ => none

/-- The completion event for a slot that has been completed. -/
def Conclusion.posting (c : Conclusion T) (slot : TaskSlot T) : Posting where
  target := slot.waiter
  signal := slot.waiterSignal
  qos := slot.qos
  payload := ⟨c.id.raw, c.status.code, 0, c.err.code⟩

variable {c : Conclusion T}

theorem Op.execute_conclusion {op : Op T} (conclusion : op.conclusion = some c)
    (r : Registry T capacity) :
    r.execute op = r.conclude c.id c.outcome c.rejection c.status c.err := by
  cases op <;> cases conclusion <;> rfl

/-- What an operation amounts to, read off from its result. -/
inductive Kind (T : Type) where
  | idle
  | rejected
  | issued (id : TaskId)
  | registered (id : TaskId)
  | concluded (id : TaskId)
  | died (id : TaskId)
  | taken (id : TaskId) (value : T)
  | released (id : TaskId)

/-- The results of a completing operation. -/
def Kind.ofConclusion (id : TaskId) : Result T → Kind T
  | .ok _ => .concluded id
  | .error .kPoolExhausted | .error .kTargetRejected => .died id
  | .error .kAlreadyCompleted | .error .kCancelled => .rejected
  | .error _ => .idle

def Op.kind : Op T → Result T → Kind T
  | .create _ _ _, .ok (.id id) => .issued id
  | .complete id _, result | .fail id _, result | .cancel id, result => .ofConclusion id result
  | .setAwaiter id _ _, .ok _ => .registered id
  | .setAwaiter _ _ _, .error .kAwaiterBusy => .rejected
  | .takeResult id, .ok (.result value) => .taken id value
  | .releaseTask id, .ok _ => .released id
  | _, _ => .idle

theorem Op.kind_conclusion {op : Op T} (conclusion : op.conclusion = some c) (result : Result T) :
    op.kind result = .ofConclusion c.id result := by
  cases op <;> cases conclusion <;> rfl

/-- The handle that an operation goes by. -/
def Op.handle : Op T → Option TaskId
  | .complete id _ | .fail id _ | .cancel id | .setAwaiter id _ _ | .isReady id | .hasError id
  | .takeResult id | .takeError id | .releaseTask id => some id
  | .create _ _ _ | .used | .rejectedCount | .submitFailures => none

theorem Op.handle_conclusion {op : Op T} (conclusion : op.conclusion = some c) :
    op.handle = some c.id := by
  cases op <;> cases conclusion <;> rfl

/-- The rejections that are counted. -/
inductive Refused (r : Registry T capacity) : Op T → Prop where
  | completed {op c i} : op.conclusion = some c → r.findLocked c.id = some i →
      (r.slots i).state = .kCompleted → Refused r op
  | awaited {id waiter signal i} : r.findLocked id = some i → (r.slots i).state = .kWaiting →
      Refused r (.setAwaiter id waiter signal)

/-- The operation is refused without being counted, or it only looks. -/
inductive Idle (r : Registry T capacity) : Op T → Prop where
  | full {waiter signal qos} : r.firstFree = none → Idle r (.create waiter signal qos)
  | unknown {op id} : op.handle = some id → r.findLocked id = none → Idle r op
  | unawaited {id waiter signal i} : r.findLocked id = some i →
      (r.slots i).state = .kCompleted → Idle r (.setAwaiter id waiter signal)
  | untaken {id i} : r.findLocked id = some i →
      ((r.slots i).state = .kCompleted → (r.slots i).hasError = false →
        (r.slots i).hasResult = false) → Idle r (.takeResult id)
  | isReady {id} : Idle r (.isReady id)
  | hasError {id} : Idle r (.hasError id)
  | takeError {id} : Idle r (.takeError id)
  | used : Idle r .used
  | rejectedCount : Idle r .rejectedCount
  | submitFailures : Idle r .submitFailures

/-- The registry after an operation, the kind of the operation, and its posting. -/
inductive Effect (r : Registry T capacity) (delivery : Delivery) :
    Op T → Registry T capacity → Kind T → Option Posting → Prop where
  | idle {op} : Idle r op → Effect r delivery op r .idle none
  | rejected {op} : Refused r op → Effect r delivery op r.reject .rejected none
  | issued {waiter signal qos i} : r.firstFree = some i →
      Effect r delivery (.create waiter signal qos) (r.set i ((r.slots i).created waiter signal qos))
        (.issued (r.idOf i)) none
  | registered {id waiter signal i} : r.findLocked id = some i → (r.slots i).state = .kCreated →
      Effect r delivery (.setAwaiter id waiter signal) (r.set i ((r.slots i).awaited waiter signal))
        (.registered id) none
  | silent {op c i} : op.conclusion = some c → r.findLocked c.id = some i →
      (r.slots i).state ≠ .kCompleted → (r.slots i).waiter = kInvalidTarget →
      Effect r delivery op (r.set i (c.outcome (r.slots i))) (.concluded c.id) none
  | posted {op c i disposition} : op.conclusion = some c → r.findLocked c.id = some i →
      (r.slots i).state ≠ .kCompleted → (r.slots i).waiter ≠ kInvalidTarget →
      delivery = .submitted disposition → delivered disposition = true →
      Effect r delivery op (r.set i (c.outcome (r.slots i))) (.concluded c.id)
        (some (c.posting (r.slots i)))
  | died {op c i} : op.conclusion = some c → r.findLocked c.id = some i →
      (r.slots i).state ≠ .kCompleted → (r.slots i).waiter ≠ kInvalidTarget →
      (∀ disposition, delivery = .submitted disposition →
        delivered disposition = false) →
      Effect r delivery op ((r.set i (c.outcome (r.slots i))).undelivered i) (.died c.id)
        (delivery.submission (c.posting (r.slots i)))
  | taken {id i value} : r.findLocked id = some i → (r.slots i).state = .kCompleted →
      (r.slots i).hasError = false → (r.slots i).hasResult = true →
      (r.slots i).result = some value →
      Effect r delivery (.takeResult id) (r.set i (r.slots i).taken) (.taken id value) none
  | released {id i} : r.findLocked id = some i →
      Effect r delivery (.releaseTask id) (r.set i (r.slots i).release) (.released id) none

section
variable (r : Registry T capacity) (delivery : Delivery)

theorem Registry.occupied_of_find {r : Registry T capacity} {id : TaskId}
    (found : r.findLocked id = some i) :
    id ≠ kInvalidTaskId ∧ id.slot.raw.toNat = i ∧ (r.slots i).state ≠ .kFree ∧
      (r.slots i).generation = id.generation := by
  rw [findLocked] at found
  split at found
  · cases found
  · split at found
    · split at found
      · cases found
      · split at found <;> cases found
        rename_i valid inside occupied current
        exact ⟨valid, rfl, occupied, not_not.mp current⟩
    · cases found

theorem Registry.find_of_occupied {r : Registry T capacity} {id : TaskId} {i : Fin capacity}
    (valid : id ≠ kInvalidTaskId) (slot : id.slot.raw.toNat = i)
    (occupied : (r.slots i).state ≠ .kFree)
    (current : (r.slots i).generation = id.generation) : r.findLocked id = some i := by
  obtain ⟨i, inside⟩ := i
  subst slot
  rw [findLocked, if_neg valid, dif_pos inside, if_neg occupied, if_neg (not_not_intro current)]

theorem effect_conclusion {op : Op T} {c : Conclusion T} (conclusion : op.conclusion = some c) :
    Effect r delivery op (r.apply op delivery).1 (op.kind (r.apply op delivery).2.result)
      (r.apply op delivery).2.posted := by
  rw [Op.kind_conclusion conclusion, apply, Op.execute_conclusion conclusion,
    conclude]
  cases found : r.findLocked c.id with
  | none => exact .idle (.unknown (Op.handle_conclusion conclusion) found)
  | some i =>
    dsimp only
    split_ifs with completed
    · have counted : Kind.ofConclusion (T := T) c.id (.error (c.rejection (r.slots i))) = .rejected := by
        rcases c.refuses (r.slots i) with refusal | refusal <;> rw [refusal] <;> rfl
      rw [counted]
      exact .rejected (.completed conclusion found completed)
    · have slot : (r.set i (c.outcome (r.slots i))).slots i = c.outcome (r.slots i) :=
        Function.update_self ..
      simp only [postCompletionLocked, slot, c.waiter, c.signal, c.qos]
      split_ifs with silent
      · exact .silent conclusion found completed silent
      · dsimp only
        cases delivery with
        | poolExhausted =>
          exact .died conclusion found completed silent fun disposition never => nomatch never
        | submitted disposition =>
          rw [afterPost]
          split_ifs with arrived
          · exact .posted conclusion found completed silent rfl arrived
          · refine .died conclusion found completed silent fun disposition' same => ?_
            cases same
            exact Bool.not_eq_true _ ▸ arrived

theorem effect_create (waiter : TargetId) (signal : UInt16) (qos : EventQos) :
    Effect r delivery (.create waiter signal qos)
      (r.apply (.create waiter signal qos) delivery).1
      (Op.kind (.create waiter signal qos) (r.apply (.create waiter signal qos) delivery).2.result)
      (r.apply (.create waiter signal qos) delivery).2.posted := by
  simp only [apply, execute, create]
  cases free : r.firstFree with
  | none => exact .idle (.full free)
  | some => exact .issued free

theorem effect_setAwaiter (id : TaskId) (waiter : TargetId) (signal : UInt16) :
    Effect r delivery (.setAwaiter id waiter signal)
      (r.apply (.setAwaiter id waiter signal) delivery).1
      (Op.kind (.setAwaiter id waiter signal)
        (r.apply (.setAwaiter id waiter signal) delivery).2.result)
      (r.apply (.setAwaiter id waiter signal) delivery).2.posted := by
  simp only [apply, execute, setAwaiter]
  cases found : r.findLocked id with
  | none => exact .idle (.unknown rfl found)
  | some i =>
    dsimp only
    split_ifs with waiting completed
    · exact .rejected (.awaited found waiting)
    · exact .idle (.unawaited found completed)
    · have created : (r.slots i).state = .kCreated := by
        have occupied := (occupied_of_find found).2.2.1
        cases state : (r.slots i).state with
        | kFree => exact (occupied state).elim
        | kCreated => rfl
        | kWaiting => exact (waiting state).elim
        | kCompleted => exact (completed state).elim
      exact .registered found created

theorem effect_takeResult (id : TaskId) :
    Effect r delivery (.takeResult id) (r.apply (.takeResult id) delivery).1
      (Op.kind (.takeResult id) (r.apply (.takeResult id) delivery).2.result)
      (r.apply (.takeResult id) delivery).2.posted := by
  simp only [apply, execute, takeResult]
  cases found : r.findLocked id with
  | none => exact .idle (.unknown rfl found)
  | some i =>
    dsimp only
    split_ifs with completed failed present
    · exact .idle (.untaken found fun state => (completed state).elim)
    · exact .idle (.untaken found fun _ never => nomatch failed.symm.trans never)
    · refine .taken found (not_not.mp completed) (Bool.not_eq_true _ ▸ failed) present ?_
      exact (Option.some_get _).symm
    · exact .idle (.untaken found fun _ _ => Bool.not_eq_true _ ▸ present)

theorem effect_apply (op : Op T) :
    Effect r delivery op (r.apply op delivery).1 (op.kind (r.apply op delivery).2.result)
      (r.apply op delivery).2.posted := by
  cases op with
  | create waiter signal qos => exact effect_create r delivery waiter signal qos
  | complete | fail | cancel => exact effect_conclusion r delivery rfl
  | setAwaiter id waiter signal => exact effect_setAwaiter r delivery id waiter signal
  | takeResult id => exact effect_takeResult r delivery id
  | releaseTask id =>
    simp only [apply, execute, releaseTask]
    cases found : r.findLocked id with
    | none => exact .idle (.unknown rfl found)
    | some => exact .released found
  | isReady => exact .idle .isReady
  | hasError => exact .idle .hasError
  | takeError => exact .idle .takeError
  | used => exact .idle .used
  | rejectedCount => exact .idle .rejectedCount
  | submitFailures => exact .idle .submitFailures

end

end Coact.Coro
