import Coact.FreeRtos.Workers

/-! The hand-over keeps a slot to one handle at a time: from the create's critical section to the
join's, the slot goes through one life, with one run of that create's work. -/
namespace Coact.FreeRtos
open Foundation Function

variable {n : Nat} {η E C : Type}

/-! The life of a slot, over and over: work is handed over, taken up, run to its end and
collected. -/

inductive Phase (η E C : Type) where
  | free
  | handing (work : Work η E C)
  | waiting (work : Work η E C)
  | loading (work : Work η E C)
  | running (work : Work η E C)
  | finishing (work : Work η E C)
  | finished (work : Work η E C)
  | joining (work : Work η E C)

/-- A slot that began free can have had these events and be in this phase. -/
inductive Life : List (SlotEvent η E C) → Phase η E C → Prop where
  | init : Life [] .free
  | create {events : List (SlotEvent η E C)} (work : Work η E C) (before : Life events .free) :
      Life (events ++ [SlotEvent.created work]) (.handing work)
  | give {events : List (SlotEvent η E C)} {work : Work η E C}
      (before : Life events (.handing work)) : Life events (.waiting work)
  | take {events : List (SlotEvent η E C)} {work : Work η E C}
      (before : Life events (.waiting work)) : Life events (.loading work)
  | start {events : List (SlotEvent η E C)} {work : Work η E C}
      (before : Life events (.loading work)) :
      Life (events ++ [SlotEvent.started work.entry work.context]) (.running work)
  | finish {events : List (SlotEvent η E C)} {work : Work η E C}
      (before : Life events (.running work)) :
      Life (events ++ [SlotEvent.finished]) (.finishing work)
  | signal {events : List (SlotEvent η E C)} {work : Work η E C}
      (before : Life events (.finishing work)) : Life events (.finished work)
  | collect {events : List (SlotEvent η E C)} {work : Work η E C}
      (before : Life events (.finished work)) : Life events (.joining work)
  | free {events : List (SlotEvent η E C)} {work : Work η E C}
      (before : Life events (.joining work)) :
      Life (events ++ [SlotEvent.freed work.handle]) .free

namespace Phase

def work : Phase η E C → Option (Work η E C)
  | .free => none
  | .handing w | .waiting w | .loading w | .running w | .finishing w | .finished w | .joining w =>
    some w

def startSet : Phase η E C → Bool
  | .waiting _ => true
  | _ => false

def joinSet : Phase η E C → Bool
  | .finished _ => true
  | _ => false

/-- Where the worker is in this phase. -/
def Places : Phase η E C → WorkerPc E C → Prop
  | .loading w, pc =>
    pc = .loadEntry ∨ pc = .loadContext (some w.entry) ∨ pc = .call (some w.entry) w.context
  | .running _, pc => pc = .running
  | .finishing _, pc => pc = .give
  | _, pc => pc = .wait

end Phase

namespace ThreadHandle

/-- The handle owns the slot: its create has claimed it, and its join has not freed it. -/
def Owns (k : ThreadHandle n E C) (i : Fin n) : Prop :=
  k.creator = .record i ∨ k.creator = .publish i ∨
    (k.valid = true ∧ k.slotIdx = i ∧ ∀ j, k.joiner ≠ .invalidate j)

/-- The create has claimed the slot and its give is ahead. -/
def Hands (k : ThreadHandle n E C) (i : Fin n) : Prop :=
  k.creator = .record i ∨ k.creator = .publish i ∨ k.creator = .give i

def Joins (k : ThreadHandle n E C) (i : Fin n) : Prop := k.joiner = .clear i

/-- What the handle holds where its create is. -/
def CreatorFits (k : ThreadHandle n E C) : Prop :=
  match k.creator with
  | .idle => True
  | .claim _ _ | .record _ => k.valid = false
  | .publish i => k.valid = false ∧ k.pal = true ∧ k.slotIdx = i
  | .give i => k.valid = true ∧ k.slotIdx = i ∧ ∀ j, k.joiner ≠ .invalidate j

/-- What the handle holds where its join is. -/
def JoinerFits (k : ThreadHandle n E C) : Prop :=
  match k.joiner with
  | .idle => True
  | .take i | .clear i | .invalidate i => k.valid = true ∧ k.slotIdx = i

structure Sound (k : ThreadHandle n E C) : Prop where
  valid : k.valid = true → k.pal = true ∧ k.slotIdx < n
  creator : k.CreatorFits
  joiner : k.JoinerFits

end ThreadHandle

/-- The slot is as its phase has it. -/
structure Fits (t : WorkerSlot η E C) (p : Phase η E C) : Prop where
  life : Life t.events p
  busy : t.busy = p.work.isSome
  start : t.start = p.startSet
  join : t.join = p.joinSet
  work : ∀ w, p.work = some w → t.entry = some w.entry ∧ t.context = w.context
  worker : p.Places t.worker

/-- The slot's phase tells which handle owns it, and which call of that handle is using it. -/
structure Held (handles : η → ThreadHandle n E C) (i : Fin n) (p : Phase η E C) : Prop where
  owns : ∀ h, (handles h).Owns i ↔ ∃ w, p.work = some w ∧ w.handle = h
  hands : ∀ h, (handles h).Hands i ↔ ∃ w, p = .handing w ∧ w.handle = h
  joins : ∀ h, (handles h).Joins i ↔ ∃ w, p = .joining w ∧ w.handle = h

structure Workers.Sound (s : Workers n η E C) : Prop where
  handles : ∀ h, (s.handles h).Sound
  slots : ∀ i, ∃ p, Fits (s.slots i) p ∧ Held s.handles i p

namespace ThreadHandle
variable {k : ThreadHandle n E C} {i j : Fin n}

section
variable (sound : k.Sound)
include sound

theorem Sound.recording (place : k.creator = .record i) : k.valid = false := by
  have fits := sound.creator
  simpa only [CreatorFits, place] using fits

theorem Sound.publishing (place : k.creator = .publish i) :
    k.valid = false ∧ k.pal = true ∧ k.slotIdx = i := by
  have fits := sound.creator
  simpa only [CreatorFits, place] using fits

theorem Sound.giving (place : k.creator = .give i) :
    k.valid = true ∧ k.slotIdx = i ∧ ∀ j, k.joiner ≠ .invalidate j := by
  have fits := sound.creator
  simpa only [CreatorFits, place] using fits

theorem Sound.joining
    (place : k.joiner = .take i ∨ k.joiner = .clear i ∨ k.joiner = .invalidate i) :
    k.valid = true ∧ k.slotIdx = i := by
  have fits := sound.joiner
  rcases place with place | place | place <;> simpa only [JoinerFits, place] using fits

theorem Sound.not_joining (invalid : k.valid = false) : k.joiner = .idle := by
  have fits := sound.joiner
  cases place : k.joiner with
  | idle => rfl
  | take | clear | invalidate =>
    simp only [JoinerFits, place, invalid, Bool.false_eq_true, false_and] at fits

theorem Sound.not_creating (valid : k.valid = true) (past : ∀ i, ¬ k.Hands i) :
    k.creator = .idle := by
  have fits := sound.creator
  cases place : k.creator with
  | idle => rfl
  | give i => exact absurd (.inr (.inr place)) (past i)
  | claim | record | publish =>
    simp only [CreatorFits, place, valid, Bool.true_eq_false, false_and] at fits

theorem Sound.owns_of_hands (hands : k.Hands i) : k.Owns i := by
  rcases hands with here | here | here
  · exact .inl here
  · exact .inr (.inl here)
  · exact .inr (.inr (sound.giving here))

theorem Sound.owns_of_joins (joins : k.Joins i) : k.Owns i := by
  obtain ⟨valid, slot⟩ := sound.joining (.inr (.inl joins))
  refine .inr (.inr ⟨valid, slot, ?_⟩)
  intro j other
  cases joins.symm.trans other

theorem Sound.owns_one (one : k.Owns i) (other : k.Owns j) : i = j := by
  rcases one with here | here | ⟨valid, slot, -⟩
  · have invalid := sound.recording here
    rcases other with there | there | ⟨valid, -⟩
    · cases here.symm.trans there
      rfl
    · cases here.symm.trans there
    · cases invalid.symm.trans valid
  · have invalid := (sound.publishing here).1
    rcases other with there | there | ⟨valid, -⟩
    · cases here.symm.trans there
    · cases here.symm.trans there
      rfl
    · cases invalid.symm.trans valid
  · rcases other with there | there | ⟨-, slot', -⟩
    · cases (sound.recording there).symm.trans valid
    · cases (sound.publishing there).1.symm.trans valid
    · exact Fin.ext (slot.symm.trans slot')

end

end ThreadHandle

namespace Held
variable {handles : η → ThreadHandle n E C} {i : Fin n} {p p' : Phase η E C}

theorem turn (held : Held handles i p) (work : p'.work = p.work)
    (apart : ∀ w, p ≠ .handing w ∧ p ≠ .joining w)
    (apart' : ∀ w, p' ≠ .handing w ∧ p' ≠ .joining w) : Held handles i p' := by
  constructor
  · rw [work]
    exact held.owns
  · intro h
    rw [held.hands]
    exact ⟨fun ⟨w, here, _⟩ => absurd here (apart w).1, fun ⟨w, here, _⟩ => absurd here (apart' w).1⟩
  · intro h
    rw [held.joins]
    exact ⟨fun ⟨w, here, _⟩ => absurd here (apart w).2, fun ⟨w, here, _⟩ => absurd here (apart' w).2⟩

variable [DecidableEq η] {h : η} {k : ThreadHandle n E C}

variable {P : ThreadHandle n E C → Prop}

theorem iff_frame {Q : η → Prop} (old : ∀ g, P (handles g) ↔ Q g) (same : P k ↔ P (handles h))
    (g : η) : P (update handles h k g) ↔ Q g := by
  rcases eq_or_ne g h with rfl | other
  · rw [update_self, same, old]
  · rw [update_of_ne other, old]

theorem iff_turn {R R' : Work η E C → Prop} (old : ∀ g, P (handles g) ↔ ∃ w, R w ∧ w.handle = g)
    (mine : ∀ w, R w → w.handle = h) (mine' : ∀ w, R' w → w.handle = h) (new : P k ↔ ∃ w, R' w)
    (g : η) : P (update handles h k g) ↔ ∃ w, R' w ∧ w.handle = g := by
  rcases eq_or_ne g h with rfl | other
  · rw [update_self, new]
    exact exists_congr fun w => ⟨fun here => ⟨here, mine' w here⟩, And.left⟩
  · rw [update_of_ne other, old]
    refine iff_of_false ?_ ?_
    · rintro ⟨w, here, rfl⟩
      exact other (mine w here)
    · rintro ⟨w, here, rfl⟩
      exact other (mine' w here)

theorem frame (held : Held handles i p) (sound : (handles h).Sound) (sound' : k.Sound)
    (before : ¬ (handles h).Owns i) (after : ¬ k.Owns i) :
    Held (update handles h k) i p := by
  constructor
  · exact iff_frame (P := fun k => k.Owns i) held.owns (iff_of_false after before)
  · refine iff_frame (P := fun k => k.Hands i) held.hands (iff_of_false ?_ ?_)
    · exact fun hands => after (sound'.owns_of_hands hands)
    · exact fun hands => before (sound.owns_of_hands hands)
  · refine iff_frame (P := fun k => k.Joins i) held.joins (iff_of_false ?_ ?_)
    · exact fun joins => after (sound'.owns_of_joins joins)
    · exact fun joins => before (sound.owns_of_joins joins)

/-- The slot is this handle's, as far as it is anyone's, and goes to another phase. -/
theorem update (held : Held handles i p) (mine : ∀ w, p.work = some w → w.handle = h)
    (mine' : ∀ w, p'.work = some w → w.handle = h) (owns : k.Owns i ↔ ∃ w, p'.work = some w)
    (hands : k.Hands i ↔ ∃ w, p' = .handing w) (joins : k.Joins i ↔ ∃ w, p' = .joining w) :
    Held (update handles h k) i p' := by
  constructor
  · exact iff_turn (P := fun k => k.Owns i) held.owns mine mine' owns
  · refine iff_turn (P := fun k => k.Hands i) held.hands ?_ ?_ hands
    · exact fun w here => mine w (here ▸ rfl)
    · exact fun w here => mine' w (here ▸ rfl)
  · refine iff_turn (P := fun k => k.Joins i) held.joins ?_ ?_ joins
    · exact fun w here => mine w (here ▸ rfl)
    · exact fun w here => mine' w (here ▸ rfl)

theorem hand_on (held : Held handles i p) (work : p.work = some w)
    (work' : p'.work = some w) (owns : k.Owns i) (hands : k.Hands i ↔ ∃ w, p' = .handing w)
    (joins : k.Joins i ↔ ∃ w, p' = .joining w) :
    Held (Function.update handles w.handle k) i p' := by
  refine held.update ?_ ?_ ⟨fun _ => ⟨w, work'⟩, fun _ => owns⟩ hands joins
  · intro w' here
    cases here.symm.trans work
    rfl
  · intro w' here
    cases here.symm.trans work'
    rfl

end Held

variable {p : Phase η E C}

theorem Phase.Places.phase {pc : WorkerPc E C} : p.Places pc →
    match pc with
    | .wait => True
    | .loadEntry => ∃ w, p = .loading w
    | .loadContext entry => ∃ w, p = .loading w ∧ entry = some w.entry
    | .call entry context => ∃ w, p = .loading w ∧ entry = some w.entry ∧ context = w.context
    | .running => ∃ w, p = .running w
    | .give => ∃ w, p = .finishing w := by
  intro places
  cases p with
  | loading w =>
    rcases places with rfl | rfl | rfl
    · exact ⟨w, rfl⟩
    · exact ⟨w, rfl, rfl⟩
    · exact ⟨w, rfl, rfl, rfl⟩
  | running w | finishing w =>
    cases places
    exact ⟨w, rfl⟩
  | free | handing | waiting | finished | joining =>
    cases places
    trivial

namespace Workers.Sound
open ThreadHandle (Owns Hands Joins CreatorFits JoinerFits)
variable {s s' : Workers n η E C}

theorem init : Sound (init : Workers n η E C) := by
  constructor
  · intro h
    refine ⟨?_, trivial, trivial⟩
    intro valid
    cases valid
  · intro i
    refine ⟨.free, ⟨.init, rfl, rfl, rfl, ?_, rfl⟩, ?_, ?_, ?_⟩
    · intro w none
      cases none
    all_goals
      intro h
      simp [Workers.init, Owns, Hands, Joins, Phase.work]

variable {h : η} {k : ThreadHandle n E C} {i : Fin n} {t : WorkerSlot η E C}

section
variable (sound : s.Sound)
include sound

theorem owned (owns : (s.handles h).Owns i) :
    ∃ p w, Fits (s.slots i) p ∧ Held s.handles i p ∧ p.work = some w ∧ w.handle = h := by
  obtain ⟨p, fits, held⟩ := sound.slots i
  obtain ⟨w, work, owner⟩ := (held.owns h).mp owns
  exact ⟨p, w, fits, held, work, owner⟩

theorem handing (hands : (s.handles h).Hands i) :
    ∃ w, Fits (s.slots i) (.handing w) ∧ Held s.handles i (.handing w) ∧ w.handle = h := by
  obtain ⟨p, fits, held⟩ := sound.slots i
  obtain ⟨w, rfl, owner⟩ := (held.hands h).mp hands
  exact ⟨w, fits, held, owner⟩

theorem collecting (joins : (s.handles h).Joins i) :
    ∃ w, Fits (s.slots i) (.joining w) ∧ Held s.handles i (.joining w) ∧ w.handle = h := by
  obtain ⟨p, fits, held⟩ := sound.slots i
  obtain ⟨w, rfl, owner⟩ := (held.joins h).mp joins
  exact ⟨w, fits, held, owner⟩

theorem handed {p : Phase η E C} (held : Held s.handles i p)
    (valid : (s.handles h).valid = true) (owns : (s.handles h).Owns i)
    (past : ∀ w, p ≠ .handing w) : (s.handles h).creator = .idle := by
  apply (sound.handles h).not_creating valid
  intro j hands
  have same := (sound.handles h).owns_one ((sound.handles h).owns_of_hands hands) owns
  obtain ⟨w, here, -⟩ := (held.hands h).mp (same ▸ hands)
  exact past w here

theorem owns_no_other (owns : (s.handles h).Owns i) (j : Fin n) (other : j ≠ i) :
    ¬ (s.handles h).Owns j :=
  fun too => other ((sound.handles h).owns_one too owns)

theorem work {p : Phase η E C} (fits : Fits t p) (held : Held s.handles i p) :
    (s.setSlot i t).Sound := by
  refine ⟨sound.handles, fun j => ?_⟩
  rcases eq_or_ne j i with rfl | other
  · refine ⟨p, ?_, held⟩
    simpa [setSlot] using fits
  · obtain ⟨p, fits, held⟩ := sound.slots j
    refine ⟨p, ?_, held⟩
    simpa only [setSlot, update_of_ne other] using fits

theorem worker (ran : s.worker i = .ok s') : s'.Sound := by
  obtain ⟨p, fits, held⟩ := sound.slots i
  have phase := fits.worker.phase
  simp only [Workers.worker] at ran
  split at ran
  case h_1 =>
    split at ran <;> cases ran
    have waiting := fits.start.symm.trans ‹_›
    cases p with
    | waiting w =>
      exact sound.work (p := .loading w)
        ⟨fits.life.take, fits.busy, rfl, fits.join, fits.work, .inl rfl⟩
        (held.turn rfl (by simp) (by simp))
    | _ => cases waiting
  case h_2 place =>
    cases ran
    rw [place] at phase
    obtain ⟨w, rfl⟩ := phase
    refine sound.work { fits with worker := .inr (.inl ?_) } held
    rw [(fits.work w rfl).1]
  case h_3 place =>
    cases ran
    rw [place] at phase
    obtain ⟨w, rfl, rfl⟩ := phase
    refine sound.work { fits with worker := .inr (.inr ?_) } held
    rw [(fits.work w rfl).2]
  case h_4 place =>
    rw [place] at phase
    obtain ⟨w, -, never, -⟩ := phase
    cases never
  case h_5 place =>
    cases ran
    rw [place] at phase
    obtain ⟨w, rfl, same, rfl⟩ := phase
    cases same
    exact sound.work (p := .running w) { fits with life := fits.life.start, worker := rfl }
      (held.turn rfl (by simp) (by simp))
  case h_6 place =>
    cases ran
    rw [place] at phase
    obtain ⟨w, rfl⟩ := phase
    exact sound.work (p := .finishing w) { fits with life := fits.life.finish, worker := rfl }
      (held.turn rfl (by simp) (by simp))
  case h_7 place =>
    cases ran
    rw [place] at phase
    obtain ⟨w, rfl⟩ := phase
    exact sound.work (p := .finished w)
      { fits with life := fits.life.signal, join := rfl, worker := rfl }
      (held.turn rfl (by simp) (by simp))

end

variable [DecidableEq η]

/-- A call on a handle uses one slot, which is the only one the handle owns. -/
theorem update (sound : s.Sound) (good : k.Sound) (before : ∀ j, j ≠ i → ¬ (s.handles h).Owns j)
    (after : ∀ j, j ≠ i → ¬ k.Owns j) (here : ∃ p, Fits t p ∧ Held (update s.handles h k) i p) :
    ((s.setHandle h k).setSlot i t).Sound := by
  constructor
  · intro g
    rcases eq_or_ne g h with rfl | other
    · simpa [setHandle, setSlot] using good
    · simpa only [setHandle, setSlot, update_of_ne other] using sound.handles g
  · intro j
    rcases eq_or_ne j i with rfl | other
    · simpa [setHandle, setSlot] using here
    · obtain ⟨p, fits, held⟩ := sound.slots j
      refine ⟨p, ?_, held.frame (sound.handles h) good (before j other) (after j other)⟩
      simpa only [setHandle, setSlot, update_of_ne other] using fits

theorem update_handle (sound : s.Sound) (good : k.Sound)
    (before : ∀ j, j ≠ i → ¬ (s.handles h).Owns j) (after : ∀ j, j ≠ i → ¬ k.Owns j)
    (here : ∃ p, Fits (s.slots i) p ∧ Held (Function.update s.handles h k) i p) :
    (s.setHandle h k).Sound := by
  have same : (s.setHandle h k).setSlot i (s.slots i) = s.setHandle h k := by
    simp [setSlot, setHandle]
  exact same ▸ sound.update good before after here

theorem aside (sound : s.Sound) (good : k.Sound) (before : ∀ j, ¬ (s.handles h).Owns j)
    (after : ∀ j, ¬ k.Owns j) : (s.setHandle h k).Sound := by
  constructor
  · intro g
    rcases eq_or_ne g h with rfl | other
    · simpa [setHandle] using good
    · simpa only [setHandle, update_of_ne other] using sound.handles g
  · intro j
    obtain ⟨p, fits, held⟩ := sound.slots j
    exact ⟨p, fits, held.frame (sound.handles h) good (before j) (after j)⟩

variable {context : Option C}

section
variable (sound : s.Sound)
include sound

theorem call {entry : E} (ready : (s.handles h).creator = .idle)
    (invalid : (s.handles h).valid = false) :
    (s.setHandle h { s.handles h with creator := .claim entry context }).Sound := by
  obtain ⟨valid, -, joiner⟩ := sound.handles h
  apply sound.aside
  · exact ⟨valid, invalid, joiner⟩
  · intro j owns
    simp [Owns, ready, invalid] at owns
  · intro j owns
    simp [Owns, invalid] at owns

theorem full {entry : E} (place : (s.handles h).creator = .claim entry context) :
    (s.setHandle h { s.handles h with creator := .idle }).Sound := by
  obtain ⟨valid, creator, joiner⟩ := sound.handles h
  simp only [CreatorFits, place] at creator
  apply sound.aside
  · exact ⟨valid, trivial, joiner⟩
  · intro j owns
    simp [Owns, place, creator] at owns
  · intro j owns
    simp [Owns, creator] at owns

theorem claim {entry : E} (place : (s.handles h).creator = .claim entry context)
    (free : (s.slots i).busy = false) :
    ((s.setHandle h { s.handles h with creator := .record i }).setSlot i
      { s.slots i with
        entry := some entry
        context := context
        busy := true
        events := (s.slots i).events ++ [SlotEvent.created ⟨h, entry, context⟩] }).Sound := by
  have idle := (sound.handles h).not_joining
  obtain ⟨valid, creator, joiner⟩ := sound.handles h
  simp only [CreatorFits, place] at creator
  obtain ⟨p, fits, held⟩ := sound.slots i
  have none : p.work = none := by simpa [fits.busy] using free
  cases p with
  | free =>
    apply sound.update
    · exact ⟨valid, creator, joiner⟩
    · intro j _ owns
      simp [Owns, place, creator] at owns
    · intro j other owns
      simp [Owns, creator, other.symm] at owns
    · refine ⟨.handing ⟨h, entry, context⟩, ⟨fits.life.create _, rfl, fits.start, fits.join, ?_,
        fits.worker⟩, ?_⟩
      · rintro w ⟨rfl⟩
        exact ⟨rfl, rfl⟩
      · apply held.update
        · intro w here
          cases here
        · rintro w ⟨rfl⟩
          rfl
        · simp [Owns, Phase.work]
        · simp [Hands]
        · simp [Joins, idle creator]
  | _ =>
    cases none

theorem record (place : (s.handles h).creator = .record i) :
    (s.setHandle h
      { s.handles h with pal := true, slotIdx := i, creator := .publish i }).Sound := by
  have owns : (s.handles h).Owns i := .inl place
  have invalid := (sound.handles h).recording place
  have idle := (sound.handles h).not_joining invalid
  obtain ⟨w, fits, held, rfl⟩ := sound.handing (.inl place)
  refine sound.update_handle (i := i) ?_ (sound.owns_no_other owns) ?_ ⟨_, fits, ?_⟩
  · refine ⟨?_, ⟨invalid, rfl, rfl⟩, ?_⟩
    · intro valid
      cases invalid.symm.trans valid
    · simp only [JoinerFits, idle]
  · intro j other owns
    simp [Owns, invalid, other.symm] at owns
  · apply held.hand_on rfl rfl
    · exact .inr (.inl rfl)
    · simp [Hands]
    · simp [Joins, idle]

theorem publish (place : (s.handles h).creator = .publish i) :
    (s.setHandle h { s.handles h with valid := true, creator := .give i }).Sound := by
  have owns : (s.handles h).Owns i := .inr (.inl place)
  obtain ⟨invalid, pal, slot⟩ := (sound.handles h).publishing place
  have idle := (sound.handles h).not_joining invalid
  obtain ⟨w, fits, held, rfl⟩ := sound.handing (.inr (.inl place))
  refine sound.update_handle (i := i) ?_ (sound.owns_no_other owns) ?_ ⟨_, fits, ?_⟩
  · refine ⟨fun _ => ⟨pal, slot ▸ i.isLt⟩, ⟨rfl, slot, ?_⟩, ?_⟩
    · simp [idle]
    · simp only [JoinerFits, idle]
  · intro j other owns
    simp [Owns, slot, Fin.val_inj, other.symm] at owns
  · apply held.hand_on rfl rfl
    · exact .inr (.inr ⟨rfl, slot, by simp [idle]⟩)
    · simp [Hands]
    · simp [Joins, idle]

theorem give (place : (s.handles h).creator = .give i) :
    ((s.setHandle h { s.handles h with creator := .idle }).setSlot i
      { s.slots i with start := true }).Sound := by
  have hands : (s.handles h).Hands i := .inr (.inr place)
  have owns := (sound.handles h).owns_of_hands hands
  obtain ⟨valid, slot, going⟩ := (sound.handles h).giving place
  obtain ⟨w, fits, held, rfl⟩ := sound.handing hands
  refine sound.update (i := i) ?_ (sound.owns_no_other owns) ?_ ⟨.waiting w, ?_, ?_⟩
  · exact ⟨(sound.handles _).valid, trivial, (sound.handles _).joiner⟩
  · intro j other owns
    simp [Owns, slot, Fin.val_inj, other.symm] at owns
  · exact ⟨fits.life.give, fits.busy, rfl, fits.join, fits.work, fits.worker⟩
  · have joins := held.joins w.handle
    apply held.hand_on rfl rfl
    · exact .inr (.inr ⟨valid, slot, going⟩)
    · simp [Hands]
    · simpa [Joins] using joins

theorem join (ready : (s.handles h).joiner = .idle)
    (valid : (s.handles h).valid = true) (slot : (s.handles h).slotIdx = i) :
    (s.setHandle h { s.handles h with joiner := .take i }).Sound := by
  have owns : (s.handles h).Owns i := .inr (.inr ⟨valid, slot, by simp [ready]⟩)
  obtain ⟨p, w, fits, held, work, rfl⟩ := sound.owned owns
  have own : ∀ w', p.work = some w' → w'.handle = w.handle := by
    intro w' here
    cases here.symm.trans work
    rfl
  refine sound.update_handle (i := i) ?_ (sound.owns_no_other owns) ?_ ⟨p, fits, ?_⟩
  · refine ⟨(sound.handles _).valid, ?_, valid, slot⟩
    have fits := (sound.handles w.handle).creator
    unfold CreatorFits at fits ⊢
    cases place : (s.handles w.handle).creator with
    | give =>
      simp only [place] at fits ⊢
      exact ⟨fits.1, fits.2.1, by simp⟩
    | idle => trivial
    | claim | record | publish => simpa only [place] using fits
  · intro j other too
    apply sound.owns_no_other owns j other
    rcases too with here | here | ⟨-, there, -⟩
    · exact .inl here
    · exact .inr (.inl here)
    · exact .inr (.inr ⟨valid, there, by simp [ready]⟩)
  · have hands := held.hands w.handle
    have joins := held.joins w.handle
    apply held.hand_on work work
    · exact .inr (.inr ⟨valid, slot, by simp⟩)
    · refine Iff.trans hands ?_
      exact exists_congr fun w' => ⟨And.left, fun here => ⟨here, own w' (here ▸ rfl)⟩⟩
    · refine iff_of_false (by simp [Joins]) ?_
      rintro ⟨w', here⟩
      have joining := joins.mpr ⟨w', here, own w' (here ▸ rfl)⟩
      simp [Joins, ready] at joining

theorem take (place : (s.handles h).joiner = .take i) (set : (s.slots i).join = true) :
    ((s.setHandle h { s.handles h with joiner := .clear i }).setSlot i
      { s.slots i with join := false }).Sound := by
  obtain ⟨valid, slot⟩ := (sound.handles h).joining (.inl place)
  have owns : (s.handles h).Owns i := .inr (.inr ⟨valid, slot, by simp [place]⟩)
  obtain ⟨p, w, fits, held, work, rfl⟩ := sound.owned owns
  have signalled := fits.join.symm.trans set
  cases p with
  | finished =>
    cases work
    have idle := sound.handed held valid owns (by simp)
    refine sound.update (i := i) ?_ (sound.owns_no_other owns) ?_ ⟨.joining w, ?_, ?_⟩
    · refine ⟨(sound.handles _).valid, ?_, valid, slot⟩
      simp only [CreatorFits, idle]
    · intro j other owns
      simp [Owns, idle, slot, Fin.val_inj, other.symm] at owns
    · exact ⟨fits.life.collect, fits.busy, fits.start, rfl, fits.work, fits.worker⟩
    · apply held.hand_on rfl rfl
      · exact .inr (.inr ⟨valid, slot, by simp⟩)
      · simp [Hands, idle]
      · simp [Joins]
  | _ => cases signalled

theorem clear (place : (s.handles h).joiner = .clear i) :
    ((s.setHandle h { s.handles h with joiner := .invalidate i }).setSlot i
      { s.slots i with
        entry := none
        context := none
        busy := false
        events := (s.slots i).events ++ [SlotEvent.freed h] }).Sound := by
  obtain ⟨valid, slot⟩ := (sound.handles h).joining (.inr (.inl place))
  have owns := (sound.handles h).owns_of_joins place
  obtain ⟨w, fits, held, rfl⟩ := sound.collecting place
  have idle := sound.handed held valid owns (by simp)
  refine sound.update (i := i) ?_ (sound.owns_no_other owns) ?_ ⟨.free, ?_, ?_⟩
  · refine ⟨(sound.handles _).valid, ?_, valid, slot⟩
    simp only [CreatorFits, idle]
  · intro j other owns
    simp [Owns, idle] at owns
  · refine ⟨fits.life.free, rfl, fits.start, fits.join, ?_, fits.worker⟩
    intro w none
    cases none
  · apply held.update
    · rintro w ⟨rfl⟩
      rfl
    · intro w none
      cases none
    · simp [Owns, Phase.work, idle]
    · simp [Hands, idle]
    · simp [Joins]

theorem invalidate (place : (s.handles h).joiner = .invalidate i) :
    (s.setHandle h { s.handles h with valid := false, joiner := .idle }).Sound := by
  obtain ⟨valid, -⟩ := (sound.handles h).joining (.inr (.inr place))
  have none : ∀ j, ¬ (s.handles h).Owns j := by
    rintro j (here | here | ⟨-, -, going⟩)
    · cases ((sound.handles h).recording here).symm.trans valid
    · cases ((sound.handles h).publishing here).1.symm.trans valid
    · exact going i place
  have idle : (s.handles h).creator = .idle :=
    (sound.handles h).not_creating valid fun j hands =>
      none j ((sound.handles h).owns_of_hands hands)
  apply sound.aside
  · refine ⟨?_, ?_, trivial⟩
    · intro valid
      cases valid
    · simp only [CreatorFits, idle]
  · exact none
  · intro j owns
    simp [Owns, idle] at owns

theorem create {entry : Option E} (ran : s.create h entry context = .ok s') : s'.Sound := by
  unfold Workers.create at ran
  split at ran
  · split at ran <;> cases ran
    · exact sound
    · exact sound.call ‹_› (Bool.not_eq_true _ ▸ ‹_›)
  · cases ran
    exact sound
  · cases ran

theorem creator {made : Fin n → Bool} (ran : s.creator made h = .ok s') : s'.Sound := by
  unfold Workers.creator at ran
  split at ran
  case h_1 => cases ran
  case h_2 =>
    split at ran <;> cases ran
    · exact sound.full ‹_›
    · rename_i found
      have free := List.find?_some found
      rw [Bool.and_eq_true, Bool.not_eq_true'] at free
      exact sound.claim ‹_› free.1
  case h_3 =>
    cases ran
    exact sound.record ‹_›
  case h_4 =>
    cases ran
    exact sound.publish ‹_›
  case h_5 =>
    cases ran
    exact sound.give ‹_›

theorem joined (ran : s.join h = .ok s') : s'.Sound := by
  unfold Workers.join at ran
  split at ran
  · split at ran
    · rename_i ready accepted
      rw [Bool.and_eq_true] at accepted
      split at ran <;> cases ran
      · exact sound.join ready accepted.1 rfl
      · exact sound
    · cases ran
      exact sound
  · cases ran

theorem joiner (ran : s.joiner h = .ok s') : s'.Sound := by
  unfold Workers.joiner at ran
  split at ran
  case h_1 => cases ran
  case h_2 =>
    split at ran <;> cases ran
    exact sound.take ‹_› ‹_›
  case h_3 =>
    cases ran
    exact sound.clear ‹_›
  case h_4 =>
    cases ran
    exact sound.invalidate ‹_›

end

end Workers.Sound

theorem Workers.sound_reached [DecidableEq η] {made : Fin n → Bool} {s : Workers n η E C}
    (run : Reaches (step made) Always init s) : s.Sound := by
  apply run.invariant (P := Sound) .init
  intro label s s' sound _ ran
  cases label with
  | create => exact sound.create ran
  | creator => exact sound.creator ran
  | join => exact sound.joined ran
  | joiner => exact sound.joiner ran
  | worker => exact sound.worker ran

/-- What a slot goes through for one piece of work. -/
def Work.cycle (w : Work η E C) : List (SlotEvent η E C) :=
  [.created w, .started w.entry w.context, .finished, .freed w.handle]

/-- What the slot has gone through for the work it now has. -/
def Phase.begun : Phase η E C → List (SlotEvent η E C)
  | .free => []
  | .handing w | .waiting w | .loading w => [.created w]
  | .running w => [.created w, .started w.entry w.context]
  | .finishing w | .finished w | .joining w =>
    [.created w, .started w.entry w.context, .finished]

/-- A life is one whole cycle after another, and the beginning of one more. -/
theorem Life.cycles {events : List (SlotEvent η E C)} (life : Life events p) :
    ∃ collected : List (Work η E C), events = collected.flatMap Work.cycle ++ p.begun := by
  induction life with
  | init => exact ⟨[], rfl⟩
  | create _ _ ih | start _ ih | finish _ ih =>
    obtain ⟨collected, rfl⟩ := ih
    exact ⟨collected, by simp [Phase.begun]⟩
  | give _ ih | take _ ih | signal _ ih | collect _ ih => exact ih
  | @free _ work _ ih =>
    obtain ⟨collected, rfl⟩ := ih
    exact ⟨collected ++ [work], by simp [Phase.begun, Work.cycle]⟩

/-- Work that has not been started is on its way: its create has the give ahead, or its worker
can go on. -/
theorem Fits.on_the_way [DecidableEq η] {s : Workers n η E C}
    (fits : Fits (s.slots i) p) (held : Held s.handles i p) (begun : p.begun = [.created w]) :
    (s.handles w.handle).Hands i ∨ ∃ s', s.worker i = .ok s' := by
  have places := fits.worker
  cases p with
  | handing w' =>
    obtain rfl : w' = w := by simpa [Phase.begun] using begun
    exact .inl ((held.hands _).mpr ⟨w', rfl, rfl⟩)
  | waiting =>
    right
    have here : (s.slots i).worker = .wait := places
    have set : (s.slots i).start = true := fits.start
    simp only [Workers.worker, here, set, if_true]
    exact ⟨_, rfl⟩
  | loading =>
    right
    rcases places with here | here | here
    all_goals
      simp only [Workers.worker, here]
      exact ⟨_, rfl⟩
  | _ => simp [Phase.begun] at begun

section
variable [DecidableEq η] {s : Workers n η E C}

/-- The hand-over, in every state of every run. A handle owns its slot from the create's
critical section to that of the join, and no slot has two owners. What a slot has gone through
is whole cycles, each with one run of the work its create handed over, and the beginning of
one more, which is its owner's. No token is given while it is set, work that was handed over
comes to run, and the join of a valid handle waits for its slot's token. -/
theorem handover_keeps_slots (made : Fin n → Bool)
    (run : Reaches (Workers.step made) Always Workers.init s) :
    (∀ i g h, (s.handles g).Owns i → (s.handles h).Owns i → g = h) ∧
    (∀ i, ∃ (collected : List (Work η E C)) (p : Phase η E C),
      (s.slots i).events = collected.flatMap Work.cycle ++ p.begun ∧
      (∀ h, (s.handles h).Owns i ↔ ∃ w, p.work = some w ∧ w.handle = h) ∧
      (∀ h, (s.handles h).joiner = .clear i → ∃ w, p = .joining w ∧ w.handle = h) ∧
      ∀ w, p.begun = [.created w] →
        (s.handles w.handle).Hands i ∨ ∃ s', s.worker i = .ok s') ∧
    (∀ h i, (s.handles h).creator = .give i → (s.slots i).start = false) ∧
    (∀ i, (s.slots i).worker = .give → (s.slots i).join = false) ∧
    ∀ h, (s.handles h).valid = true → (s.handles h).joiner = .idle →
      ∃ i : Fin n, (s.handles h).slotIdx = i ∧
        s.join h = .ok (s.setHandle h { s.handles h with joiner := .take i }) := by
  have sound := Workers.sound_reached run
  refine ⟨?_, ?_, ?_, ?_, ?_⟩
  · intro i g h one other
    obtain ⟨p, w, -, held, work, rfl⟩ := sound.owned one
    obtain ⟨w', work', rfl⟩ := (held.owns h).mp other
    cases work.symm.trans work'
    rfl
  · intro i
    obtain ⟨p, fits, held⟩ := sound.slots i
    obtain ⟨collected, events⟩ := fits.life.cycles
    refine ⟨collected, p, events, held.owns, fun h place => (held.joins h).mp place, ?_⟩
    intro w begun
    exact fits.on_the_way held begun
  · intro h i place
    obtain ⟨w, fits, -, -⟩ := sound.handing (.inr (.inr place))
    exact fits.start
  · intro i place
    obtain ⟨p, fits, -⟩ := sound.slots i
    have phase := fits.worker.phase
    rw [place] at phase
    obtain ⟨w, rfl⟩ := phase
    exact fits.join
  · intro h valid ready
    obtain ⟨pal, inside⟩ := (sound.handles h).valid valid
    refine ⟨⟨_, inside⟩, rfl, ?_⟩
    simp [Workers.join, ready, valid, pal, inside]

end

/-- One worker runs the work of one handle and then of another, which is given the slot before
the first handle's join has returned. -/
def reusedSlot : Workers 1 Bool Nat Nat :=
  outcome (Workers.step fun _ => true)
    ([.create false (some 4) none] ++ List.replicate 4 (.creator false) ++
      List.replicate 6 (.worker (Fin.last 0)) ++
      [.join false, .joiner false, .joiner false, .create true (some 5) (some 9)] ++
      List.replicate 4 (.creator true)) Workers.init

theorem handover_keeps_slots_reused :
    (reusedSlot.slots (Fin.last 0)).events =
      [.created ⟨false, 4, none⟩, .started 4 none, .finished, .freed false,
        .created ⟨true, 5, some 9⟩] ∧
    ∃ (collected : List (Work Bool Nat Nat)) (p : Phase Bool Nat Nat),
      (reusedSlot.slots (Fin.last 0)).events = collected.flatMap Work.cycle ++ p.begun := by
  have kept := handover_keeps_slots (s := reusedSlot) (fun _ => true) (reaches_outcome (by decide))
  obtain ⟨collected, p, events, -⟩ := kept.2.1 (Fin.last 0)
  exact ⟨by decide, collected, p, events⟩

/-- Between the critical section of its join and the store of `valid`, a handle is valid and no
longer owns its slot: two valid handles name one slot. -/
theorem slot_of_two_valid_handles :
    ∃ s : Workers 1 Bool Nat Nat,
      Reaches (Workers.step fun _ => true) Always Workers.init s ∧
      (s.handles false).valid = true ∧ (s.handles true).valid = true ∧
      (s.handles false).slotIdx = (s.handles true).slotIdx ∧
      (s.handles false).joiner ≠ .idle := by
  refine ⟨reusedSlot, reaches_outcome (by decide), ?_, ?_, ?_, ?_⟩ <;> decide

end Coact.FreeRtos
