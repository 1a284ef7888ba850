import Coact.Coro.Ledger

/-! Task handles. A handle stays usable until its task ends exactly if its slot had a
generation below 256 when it was created: the packed generation has eight bits, the
slot compares all sixteen of its own. -/
namespace Coact.Coro
open Foundation Ledger Function

variable {T : Type} {capacity : Nat}

/-- The handles that were handed out. -/
def Ledger.handles (s : Ledger T capacity) : List TaskId :=
  s.history.filterMap fun e => e.kind.issue

theorem Ledger.mem_handles {s : Ledger T capacity} {id : TaskId} : id ∈ s.handles ↔ s.Issued id :=
  List.mem_filterMap

/-- All holders release. -/
def Registry.releaseAll (r : Registry T capacity) (ids : List TaskId) : Registry T capacity :=
  ids.foldl (fun r id => (r.releaseTask id).1) r

section
variable {r : Registry T capacity} {i : Fin capacity}

theorem Registry.releaseTask_slots (r : Registry T capacity) (id : TaskId) (i : Fin capacity) :
    (r.releaseTask id).1.slots i =
      if r.findLocked id = some i then (r.slots i).release else r.slots i := by
  rw [releaseTask]
  cases found : r.findLocked id with
  | none => rfl
  | some j =>
    by_cases here : i = j
    · rw [here, if_pos rfl, set_slots, update_self]
    · rw [if_neg fun same => here (Option.some.inj same).symm, set_slots, update_of_ne here]

theorem Registry.releaseAll_free (ids : List TaskId) (r : Registry T capacity) (i : Fin capacity) :
    ((r.releaseAll ids).slots i).state = .kFree ↔
      (r.slots i).state = .kFree ∨ ∃ id ∈ ids, r.findLocked id = some i := by
  induction ids generalizing r with
  | nil => simp [releaseAll]
  | cons id rest ih =>
    have unfolded : r.releaseAll (id :: rest) = (r.releaseTask id).1.releaseAll rest := rfl
    have slot := r.releaseTask_slots id i
    rw [unfolded, ih]
    by_cases found : r.findLocked id = some i
    · rw [if_pos found] at slot
      have free : ((r.releaseTask id).1.slots i).state = .kFree := by
        rw [slot]
        rfl
      exact ⟨fun _ => .inr ⟨id, List.mem_cons_self, found⟩, fun _ => .inl free⟩
    · rw [if_neg found] at slot
      simp [find_congr slot, slot, found]

theorem Registry.used_eq_zero : r.used = 0 ↔ ∀ i, (r.slots i).state = .kFree := by
  simp [used, List.countP_eq_zero, TaskSlot.occupied]

end

section
variable {s : Ledger T capacity}

/-- When all holders have released, what is left are the slots of generation 256. -/
theorem Ledger.Sound.releaseAll_used (inv : s.Sound) :
    (s.registry.releaseAll s.handles).used = 0 ↔
      ∀ i, (s.registry.slots i).state ≠ .kFree → (s.registry.slots i).generation.toNat < 256 := by
  rw [Registry.used_eq_zero]
  constructor
  · intro free i occupied
    rcases (Registry.releaseAll_free s.handles s.registry i).mp (free i) with never | ⟨id, -, found⟩
    · exact (occupied never).elim
    · rw [(Registry.occupied_of_find found).2.2.2]
      exact id.generation_lt
  · intro small i
    rw [Registry.releaseAll_free]
    by_cases free : (s.registry.slots i).state = .kFree
    · exact .inl free
    · exact .inr ⟨_, mem_handles.mpr (inv.held i free),
        Registry.find_idOf (inv.generation i).1 free (small i free)⟩

theorem Ledger.Sound.resolves (inv : s.Sound) {id : TaskId} (issued : s.Issued id)
    (unretired : ¬ s.Retired id) (positive : 0 < id.generation.toNat) {i : Fin capacity}
    (slot : id.slot.raw.toNat = i) : s.registry.findLocked id = some i := by
  rcases inv.issued id issued with gone | ⟨j, rfl, occupied⟩
  · exact (unretired gone).elim
  · have place := s.registry.slot_idOf j
    obtain rfl : j = i := Fin.ext (place.symm.trans slot)
    rw [Registry.generation_idOf] at positive
    have bounds := inv.generation j
    exact Registry.find_idOf bounds.1 occupied (by omega)

theorem Ledger.issued_reaches {id : TaskId}
    (run : Reaches step Always s t) (issued : s.Issued id) : t.Issued id := by
  refine run.invariant (P := fun t => t.Issued id) issued fun call t u known _ ran => ?_
  cases ran
  exact (issued_after id).mpr (.inl known)

/-- Whatever happened before: a handle is valid and resolves to its own slot in every
later state until it is retired, exactly if the slot had a generation below 256; and
after all holders release no slot is in use, exactly if no task has a slot of a larger
generation. -/
theorem task_handles_usable (reached : s.Reached) :
    (∀ waiter signal qos delivery i, s.registry.firstFree = some i →
      ((s.registry.idOf i ≠ kInvalidTaskId ∧
        ∀ u, Reaches step Always (s.after (.create waiter signal qos) delivery) u →
          ¬ u.Retired (s.registry.idOf i) →
            u.registry.findLocked (s.registry.idOf i) = some i) ↔
        (s.registry.slots i).generation.toNat < 256)) ∧
    ((s.registry.releaseAll s.handles).used = 0 ↔
      ∀ i, (s.registry.slots i).state ≠ .kFree →
        (s.registry.slots i).generation.toNat < 256) := by
  have inv := reached.sound
  refine ⟨fun waiter signal qos delivery i free => ?_, inv.releaseAll_used⟩
  have bounds := inv.generation i
  have generation := s.registry.generation_idOf i
  have issued : (s.after (.create waiter signal qos) delivery).Issued (s.registry.idOf i) := by
    rw [issued_after]
    refine .inr ?_
    simp only [entry, Registry.apply, Registry.execute, Registry.create, free]
    rfl
  constructor
  · rintro ⟨-, resolves⟩
    by_contra large
    -- The handle carries generation 0, with which nothing was retired and nothing resolves.
    have after := inv.after (.create waiter signal qos) delivery
    have unretired : ¬ (s.after (.create waiter signal qos) delivery).Retired
        (s.registry.idOf i) := by
      intro gone
      obtain ⟨-, -, positive, -⟩ := after.retired _ gone
      omega
    obtain ⟨-, -, -, current⟩ := Registry.occupied_of_find (resolves _ .refl unretired)
    have positive := (after.generation i).1
    rw [current] at positive
    omega
  · intro small
    have positive : 0 < (s.registry.idOf i).generation.toNat := by
      rw [generation, Nat.mod_eq_of_lt small]
      exact bounds.1
    refine ⟨fun invalid => ?_, fun u run unretired => ?_⟩
    · have zero := ((TaskId.eq_invalid_iff _).mp invalid).2
      omega
    · have sound : u.Sound := by
        refine run.invariant (inv.after _ _) fun call t u inv _ ran => ?_
        cases ran
        exact inv.after call.1 call.2
      exact sound.resolves (issued_reaches run issued) unretired positive
        (s.registry.slot_idOf i)

end

/-- A registry whose slot has been used before. -/
def worn (generation : UInt16) : Registry Unit 1 := .single Unit generation

/-- A task without waiter. -/
def polled : Op Unit := .create kInvalidTarget 0 ⟨false, false⟩

/-- The same registry with a task in its slot. -/
def busy (generation : UInt16) : Registry Unit 1 :=
  { worn generation with
    slots := fun _ => { generation := generation, state := .kCreated, stored := unstored } }

theorem update_single {α : Type} (f : Fin 1 → α) (a : α) : update f 0 a = fun _ => a := by
  funext i
  rw [Subsingleton.elim i 0, update_self]

theorem worn_create (generation : UInt16) (delivery : Delivery) :
    (worn generation).apply polled delivery =
      (busy generation, ⟨.ok (.id (TaskId.make ⟨0⟩ generation)), none⟩) := by
  have free : (worn generation).firstFree = some 0 := rfl
  simp only [polled, Registry.apply, Registry.execute, Registry.create, free, Registry.set,
    update_single]
  rfl

theorem busy_release {generation : UInt16} (positive : 0 < generation.toNat)
    (small : generation.toNat < 256) (delivery : Delivery) :
    ((busy generation).apply (.releaseTask (TaskId.make ⟨0⟩ generation)) delivery).1 =
      worn (generation + 1) := by
  have found : (busy generation).findLocked (TaskId.make ⟨0⟩ generation) = some 0 :=
    Registry.find_idOf (r := busy generation) (i := 0) positive nofun small
  have next : generation + 1 ≠ 0 := by
    intro zero
    have wrapped := congrArg UInt16.toNat zero
    change (generation.toNat + 1) % 2 ^ 16 = 0 at wrapped
    omega
  have slot : ((busy generation).slots 0).release =
      { generation := generation + 1, stored := unstored } := by
    change TaskSlot.release
      { generation := generation, state := .kCreated, stored := unstored } = _
    simp only [TaskSlot.release, if_neg next]
  simp only [Registry.apply, Registry.execute, Registry.releaseTask, found, Registry.set,
    update_single, slot]
  rfl

/-- Rounds of a create and a release take the slot through its generations. -/
theorem worn_reached {n : Nat} (small : n ≤ 255) :
    ∃ history, Reached ⟨worn (.ofNat (n + 1)), history⟩ := by
  induction n with
  | zero => exact ⟨[], .refl⟩
  | succ n ih =>
    obtain ⟨history, reached⟩ := ih (by omega)
    have generation : (UInt16.ofNat (n + 1)).toNat = n + 1 := by
      exact Nat.mod_eq_of_lt (by omega)
    let task := TaskId.make ⟨0⟩ (.ofNat (n + 1))
    let created := (mk (worn (.ofNat (n + 1))) history).after polled .poolExhausted
    let released := created.after (.releaseTask task) .poolExhausted
    have run := (reached.tail ⟨(polled, .poolExhausted), trivial, rfl⟩).tail
        ⟨(.releaseTask task, .poolExhausted), trivial, rfl⟩
    have busied : created.registry = busy (.ofNat (n + 1)) :=
      congrArg Prod.fst (worn_create _ .poolExhausted)
    have ended : released.registry = worn (.ofNat (n + 1 + 1)) := by
      change (created.registry.apply (.releaseTask task) .poolExhausted).1 = _
      rw [busied, busy_release (by omega) (by omega), UInt16.ofNat_add (n + 1) 1]
      rfl
    refine ⟨released.history, ?_⟩
    have whole : released = ⟨worn (.ofNat (n + 1 + 1)), released.history⟩ := by rw [← ended]
    rw [← whole]
    exact run

/-- The 256th task of a slot gets the invalid handle, occupies the slot and cannot be
released by anybody. -/
theorem handle_of_generation_256 : ∃ history, Reached ⟨worn 256, history⟩ ∧
    ((mk (worn 256) history).entry polled .poolExhausted).answer.result =
      .ok (.id kInvalidTaskId) ∧
    ((mk (worn 256) history).after polled .poolExhausted).registry.used = 1 ∧
    ∀ id, ((mk (worn 256) history).after polled .poolExhausted).registry.findLocked id =
      none := by
  obtain ⟨history, reached⟩ := worn_reached (n := 255) le_rfl
  refine ⟨history, reached, ?_, ?_, fun id => ?_⟩
  · rw [entry, worn_create]
    rfl
  · rfl
  · rw [Ledger.after, worn_create]
    rw [Option.eq_none_iff_forall_ne_some]
    intro i found
    obtain ⟨-, -, -, current⟩ := Registry.occupied_of_find found
    have small := id.generation_lt
    rw [← current] at small
    exact Nat.lt_irrefl 256 small

/-- The second task of the slot. -/
theorem task_handles_usable_reused :
    ∃ history, Reached ⟨worn 2, history⟩ ∧ (worn 2).idOf 0 ≠ kInvalidTaskId ∧
      ∀ u, Reaches step Always
          ((mk (worn 2) history).after polled .poolExhausted) u →
        ¬ u.Retired ((worn 2).idOf 0) → u.registry.findLocked ((worn 2).idOf 0) = some 0 := by
  obtain ⟨history, reached⟩ := worn_reached (n := 1) (by omega)
  have small : ((worn 2).slots 0).generation.toNat < 256 := by decide
  exact ⟨history, reached, ((task_handles_usable reached).1 _ _ _ _ 0 rfl).mpr small⟩

end Coact.Coro
