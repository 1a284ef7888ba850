import Coact.Coro.Orderly
import Coact.Coro.Stage
import Coact.Pool.Lent

/-! At most one completion. The registry operations are atomic under the mutex; a
completion event takes a block of the event pool, is handed to the coordinator, which
gives the reference back unless it queues the event, and other clients use the pools
meanwhile. -/
namespace Coact.Coro
open Foundation

variable {T : Type} {capacity : Nat}

/-- An operation that waits for its submission, under the mutex. -/
structure Flight (T : Type) where
  op : Op T
  event : Nat

structure World (T : Type) (capacity : Nat) where
  ledger : Ledger T capacity
  pool : Pool.State
  flight : Option (Flight T)

inductive Label (T : Type) where
  | invoke (op : Op T)
  | submitted (disposition : SubmitDisposition)
  | pool (l : Pool.Label)

inductive Fault where
  | locked
  | unposted
  | pool (fault : Pool.Fault)

namespace World

def initial (T : Type) {capacity : Nat} (positive : 0 < capacity) (fits : capacity ≤ 256)
    (m : Mem) : World T capacity := ⟨.initial T positive fits, .initial m, none⟩

/-- The coordinator consumes the reference of an event that it does not queue. -/
def consume (maxPending : Nat → Nat) (event : Nat) (pool : Pool.State) :
    SubmitDisposition → Except Pool.Fault Pool.State
  | .Queued => .ok pool
  | _ => Pool.State.step maxPending (.gc event) pool

/-- The completion events come from the pool with id `k + 1`. -/
def step (k : Nat) (maxPending : Nat → Nat) :
    Label T → World T capacity → Except Fault (World T capacity)
  | .invoke op, s =>
    match s.flight with
    | some _ => .error .locked
    | none =>
      match (s.ledger.registry.execute op).2 with
      | .done _ => .ok { s with ledger := s.ledger.after op .poolExhausted }
      | .post _ posting =>
        match s.pool.alloc k posting.signal.toNat with
        | (pool, none) => .ok { s with ledger := s.ledger.after op .poolExhausted, pool := pool }
        | (pool, some event) => .ok { s with pool := pool, flight := some ⟨op, event⟩ }
  | .submitted disposition, s =>
    match s.flight with
    | none => .error .unposted
    | some f =>
      match consume maxPending f.event s.pool disposition with
      | .ok pool => .ok ⟨s.ledger.after f.op (.submitted disposition), pool, none⟩
      | .error fault => .error (.pool fault)
  | .pool l, s =>
    match Pool.State.step maxPending l s.pool with
    | .ok pool => .ok { s with pool := pool }
    | .error fault => .error (.pool fault)

/-- Other clients use their own references only. -/
def Permitted : Label T → World T capacity → Prop
  | .pool l, s => Pool.State.Permitted l s.pool ∧ ∀ f ∈ s.flight, ¬ l.Uses f.event
  | _, _ => True

instance : ∀ (label : Label T) (s : World T capacity), Decidable (Permitted label s)
  | .pool l, s => inferInstanceAs (Decidable (Pool.State.Permitted l s.pool ∧ _))
  | .invoke _, _ | .submitted _, _ => instDecidableTrue

def Reached (k : Nat) (maxPending : Nat → Nat) (s : World T capacity) : Prop :=
  ∃ m, Reaches (step k maxPending) Permitted
    (.initial T s.ledger.registry.positive s.ledger.registry.fits m) s

end World

/-- No handle sees anything twice. -/
structure Ledger.AtMostOnce (s : Ledger T capacity) : Prop where
  concluded : ∀ id, s.history.countP (Entry.concludes id) ≤ 1
  posted : ∀ id, s.history.countP (Entry.posts id) ≤ 1
  registered : ∀ id, s.history.countP (Entry.registers id) ≤ 1
  taken : ∀ id, s.history.countP (Entry.takes id) ≤ 1

/-- What the next operation does, in view of the history. -/
structure Ledger.Accounts (s : Ledger T capacity) (op : Op T) (delivery : Delivery) : Prop where
  orderly : Orderly s.registry (s.after op delivery).registry delivery op
    (s.entry op delivery).kind (s.entry op delivery).answer.posted
  origin : ∀ id value, (s.entry op delivery).kind = .taken id value →
    ∃ e ∈ s.history, e.op = .complete id value ∧ e.kind = .concluded id
  stale : ∀ id, s.Retired id → op.handle = some id →
    (s.after op delivery).registry.slots = s.registry.slots

/-- A failed delivery frees the slot and leaves no block behind. -/
def World.Settles (k : Nat) (s t : World T capacity) (op : Op T) (delivery : Delivery) : Prop :=
  t.ledger = s.ledger.after op delivery ∧
    ∀ id, (s.ledger.entry op delivery).kind = .died id →
      (∃ i, s.ledger.registry.findLocked id = some i ∧
        (t.ledger.registry.slots i).state = .kFree) ∧
      (delivery = .poolExhausted ∧ t.pool.held = s.pool.held ∨
        ∃ f, s.flight = some f ∧ t.pool.Home k f.event)

section
variable {s : Ledger T capacity}

theorem Ledger.Reached.atMostOnce (reached : s.Reached) : s.AtMostOnce where
  concluded id := (reached.staged.concluded id).once
  posted id := (reached.staged.posted id).once
  registered id := (reached.staged.registered id).once
  taken id := (reached.staged.taken id).once

theorem Ledger.Reached.accounts (reached : s.Reached) (op : Op T) (delivery : Delivery) :
    s.Accounts op delivery where
  orderly := (s.effect op delivery).orderly
  origin id value kind := by
    obtain ⟨i, found, completed, unfailed, result⟩ :=
      (s.effect op delivery).orderly.taken id value kind
    exact reached.explained.complete found completed unfailed result
  stale id gone handle := (s.effect op delivery).stale handle (reached.sound.unresolved gone)

theorem Ledger.Reached.after (reached : s.Reached) (op : Op T) (delivery : Delivery) :
    (s.after op delivery).Reached := Relation.ReflTransGen.tail reached ⟨(op, delivery), trivial, rfl⟩

end

/-- The event in flight has one reference, which nobody else uses. -/
structure World.Sound (k : Nat) (maxPending : Nat → Nat) (s : World T capacity) : Prop where
  ledger : s.ledger.Reached
  pool : Pool.Reached maxPending s.pool
  flight : ∀ f ∈ s.flight, s.pool.held f.event = 1 ∧ s.pool.Block k f.event

section
variable {k : Nat} {maxPending : Nat → Nat} {s t : World T capacity}

theorem World.Sound.landed {ledger : Ledger T capacity} {pool : Pool.State}
    (reached : ledger.Reached) (sound : Pool.Reached maxPending pool) :
    World.Sound k maxPending ⟨ledger, pool, none⟩ where
  ledger := reached
  pool := sound
  flight f flies := by cases flies

theorem World.Sound.consumed (inv : s.Sound k maxPending) (flies : s.flight = some f)
    (disposition : SubmitDisposition) :
    ∃ pool, World.consume maxPending f.event s.pool disposition = .ok pool ∧
      Pool.Reached maxPending pool ∧ (disposition ≠ .Queued → pool.Home k f.event) := by
  obtain ⟨lent, block⟩ := inv.flight f flies
  by_cases queued : disposition = .Queued
  · rw [queued]
    exact ⟨s.pool, rfl, inv.pool, fun never => (never rfl).elim⟩
  · obtain ⟨pool, ran, home⟩ := inv.pool.gc_home lent block
    refine ⟨pool, ?_, inv.pool.step (l := .gc f.event) (.inl (lent ▸ Nat.one_pos)) ran,
      fun _ => home⟩
    cases disposition with
    | Queued => exact (queued rfl).elim
    | _ => exact ran

theorem World.Sound.step (inv : s.Sound k maxPending)
    (permitted : World.Permitted label s) (ran : World.step k maxPending label s = .ok t) :
    t.Sound k maxPending ∧
      (t.ledger = s.ledger ∨ ∃ op delivery, World.Settles k s t op delivery) := by
  cases label with
  | invoke op =>
    simp only [World.step] at ran
    cases flies : s.flight with
    | some =>
      rw [flies] at ran
      cases ran
    | none =>
      rw [flies] at ran
      dsimp only at ran
      split at ran
      · cases ran
        refine ⟨.landed (inv.ledger.after op _) inv.pool,
          .inr ⟨op, .poolExhausted, rfl, fun id died => ?_⟩⟩
        exact ⟨((inv.ledger.accounts op .poolExhausted).orderly.died id died).1, .inl ⟨rfl, rfl⟩⟩
      · rename_i i posting turn
        have reached := inv.pool.alloc k posting.signal.toNat
        split at ran
        · rename_i pool refused
          cases ran
          have same : pool = (s.pool.alloc k posting.signal.toNat).1 := by rw [refused]
          have held : pool.held = s.pool.held := by
            rw [Pool.State.alloc] at refused
            split at refused <;> cases refused
            rfl
          refine ⟨.landed (inv.ledger.after op _) (same ▸ reached),
            .inr ⟨op, .poolExhausted, rfl, fun id died => ?_⟩⟩
          exact ⟨((inv.ledger.accounts op .poolExhausted).orderly.died id died).1, .inl ⟨rfl, held⟩⟩
        · rename_i pool event taken
          cases ran
          have same : pool = (s.pool.alloc k posting.signal.toNat).1 := by rw [taken]
          obtain ⟨lent, block, -⟩ :=
            inv.pool.alloc_lent (k := k) (congrArg Prod.snd taken : _ = some event)
          rw [taken] at lent block
          refine ⟨⟨inv.ledger, same ▸ reached, fun f mem => ?_⟩, .inl rfl⟩
          cases mem
          exact ⟨lent, block⟩
  | submitted disposition =>
    simp only [World.step] at ran
    cases flies : s.flight with
    | none =>
      rw [flies] at ran
      cases ran
    | some f =>
      obtain ⟨pool, consumed, reached, home⟩ := inv.consumed flies disposition
      rw [flies] at ran
      dsimp only at ran
      rw [consumed] at ran
      cases ran
      refine ⟨.landed (inv.ledger.after f.op _) reached,
        .inr ⟨f.op, .submitted disposition, rfl, fun id died => ?_⟩⟩
      obtain ⟨freed, -, undelivered⟩ :=
        (inv.ledger.accounts f.op (.submitted disposition)).orderly.died id died
      refine ⟨freed, .inr ⟨f, flies, home fun queued => ?_⟩⟩
      have failed := undelivered disposition rfl
      rw [queued] at failed
      cases failed
  | pool l =>
    obtain ⟨allowed, unused⟩ := permitted
    simp only [World.step] at ran
    split at ran <;> cases ran
    rename_i pool moved
    refine ⟨⟨inv.ledger, inv.pool.step allowed moved, fun f mem => ?_⟩, .inl rfl⟩
    obtain ⟨lent, block⟩ := inv.flight f mem
    exact ⟨(inv.pool.lent_step allowed moved (lent ▸ Nat.one_pos) (unused f mem)).trans lent,
      inv.pool.block_step allowed moved block⟩

theorem World.Reached.sound (reached : s.Reached k maxPending) : s.Sound k maxPending := by
  obtain ⟨m, run⟩ := reached
  refine run.invariant (.landed .refl ⟨m, .refl⟩) fun label s t inv permitted ran => ?_
  exact (inv.step permitted ran).1

/-- Completion is at most once, for every history of operations, deliveries and other
pool clients. -/
theorem completion_at_most_once (reached : s.Reached k maxPending) :
    s.ledger.AtMostOnce ∧ (∀ op delivery, s.ledger.Accounts op delivery) ∧
    (∀ label t, World.Permitted label s → World.step k maxPending label s = .ok t →
      t.ledger = s.ledger ∨ ∃ op delivery, World.Settles k s t op delivery) ∧
    (s.flight = none → ∀ op, ∃ t, World.step k maxPending (.invoke op) s = .ok t) ∧
    (∀ f, s.flight = some f → ∀ disposition, ∃ t,
      World.step k maxPending (.submitted disposition) s = .ok t) := by
  have inv := reached.sound
  refine ⟨inv.ledger.atMostOnce, inv.ledger.accounts,
    fun label t permitted ran => (inv.step permitted ran).2, fun free op => ?_,
    fun f flies disposition => ?_⟩
  · rw [World.step, free]
    dsimp only
    split
    · exact ⟨_, rfl⟩
    · split <;> exact ⟨_, rfl⟩
  · obtain ⟨pool, consumed, -⟩ := inv.consumed flies disposition
    exact ⟨⟨s.ledger.after f.op (.submitted disposition), pool, none⟩, by
      simp only [World.step, flies, consumed]⟩

/-- A task with a waiter is completed; its event is in flight. -/
def inFlight : List (Label Nat) :=
  [.pool (.init Pool.smallPool), .invoke (.create ⟨1⟩ 7 ⟨false, false⟩),
    .invoke (.complete (TaskId.make ⟨0⟩ 1) 5)]

def inFlightStart : World Nat 1 := ⟨⟨.single Nat 1, []⟩, .initial fun _ => 0, none⟩

def inFlightState : World Nat 1 := outcome (World.step 0 fun _ => 4) inFlight inFlightStart

theorem completion_at_most_once_posted :
    (inFlightState.flight.map Flight.event) = some 20 ∧ inFlightState.ledger.AtMostOnce ∧
      ∃ t, World.step 0 (fun _ => 4) (.submitted .RejectedFull) inFlightState = .ok t := by
  have flies : inFlightState.flight = some ⟨.complete (TaskId.make ⟨0⟩ 1) 5, 20⟩ := by
    rfl
  have reached : inFlightState.Reached 0 fun _ => 4 :=
    ⟨fun _ => 0, reaches_decided (by decide +kernel)⟩
  obtain ⟨once, -, -, -, returns⟩ := completion_at_most_once reached
  exact ⟨by rw [flies]; rfl, once, returns _ flies .RejectedFull⟩

end

end Coact.Coro
