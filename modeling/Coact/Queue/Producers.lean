import Coact.Foundation.Transition
import Coact.Queue.MpscLaws

/-! `BoundedMpscQueue` under any number of concurrent pushes and one consumer, one
atomic access at a time. A payload carries, as a ghost, the number of the push that
wrote it, and `delivered` lists what the pops have returned. -/
namespace Coact.Mpsc
open Foundation

structure Payload (α : Type) where
  id : Nat
  value : α

/-- A call of `try_push`. -/
inductive Call (α : Type) where
  | running (v : α) (p : Push)
  | returned (v : α) (accepted : Bool)

structure World (α : Type) where
  queue : Mpsc (Payload α)
  pushes : List (Call α)
  pop : Option (Pop (Payload α))
  delivered : List (Payload α)

inductive Label (α : Type) where
  | push (v : α)
  | producer (i : Nat)
  | tryPop
  | consumer

variable {α : Type}

/-- A push after an access. -/
def Call.next (v : α) : Push ⊕ Bool → Call α
  | .inl p => .running v p
  | .inr accepted => .returned v accepted

/-- What a pop returns with an access, if anything. -/
def popped : Pop (Payload α) ⊕ Option (Payload α) → List (Payload α)
  | .inl _ => []
  | .inr out => out.toList

namespace World

def initial (α : Type) (capacity : Nat) (pos : 0 < capacity) : World α where
  queue := empty capacity pos
  pushes := []
  pop := none
  delivered := []

def produced (w : World α) (i : Nat) (v : α) (out : Mpsc (Payload α) × (Push ⊕ Bool)) : World α :=
  { w with queue := out.1, pushes := w.pushes.set i (.next v out.2) }

def consumed (w : World α)
    (out : Mpsc (Payload α) × (Pop (Payload α) ⊕ Option (Payload α))) : World α :=
  { w with queue := out.1, pop := out.2.getLeft?, delivered := w.delivered ++ popped out.2 }

def step : Label α → World α → Except Unit (World α)
  | .push v, w => .ok { w with pushes := w.pushes ++ [.running v .probe] }
  | .producer i, w =>
    match w.pushes[i]? with
    | some (.running v p) => .ok (w.produced i v (pushStep ⟨i, v⟩ w.queue p))
    | _ => .error ()
  | .tryPop, w =>
    match w.pop with
    | none => .ok { w with pop := some (.scan .start) }
    | some _ => .error ()
  | .consumer, w =>
    match w.pop with
    | some c => .ok (w.consumed (popStep w.queue c))
    | none => .error ()

def Reachable (capacity : Nat) (w : World α) : Prop :=
  ∃ pos, Reaches step Always (initial α capacity pos) w

/-- What a step can do. -/
inductive Moves : World α → World α → Prop where
  | push (w : World α) (v : α) : Moves w { w with pushes := w.pushes ++ [.running v .probe] }
  | producer (w : World α) (i : Nat) (v : α) (p : Push) : w.pushes[i]? = some (.running v p) →
      Moves w (w.produced i v (pushStep ⟨i, v⟩ w.queue p))
  | tryPop (w : World α) : w.pop = none → Moves w { w with pop := some (.scan .start) }
  | consumer (w : World α) (c : Pop (Payload α)) : w.pop = some c →
      Moves w (w.consumed (popStep w.queue c))

variable {w : World α}

theorem step_moves (ran : step l w = .ok w') : Moves w w' := by
  cases l with
  | push v => cases ran; exact .push w v
  | producer i =>
    simp only [step] at ran
    split at ran <;> cases ran
    rename_i v p found
    exact .producer w i v p found
  | tryPop =>
    simp only [step] at ran
    split at ran <;> cases ran
    rename_i idle
    exact .tryPop w idle
  | consumer =>
    simp only [step] at ran
    split at ran <;> cases ran
    rename_i c busy
    exact .consumer w c busy

theorem Reachable.invariant {capacity : Nat} {P : World α → Prop} (reached : Reachable capacity w)
    (start : ∀ pos, P (initial α capacity pos)) (next : ∀ {w w'}, P w → Moves w w' → P w') :
    P w := by
  obtain ⟨pos, run⟩ := reached
  exact Reaches.invariant (P := P) run (start pos)
    fun _ _ _ holds _ ran => next holds (step_moves ran)

/-- The pushes under way, as the queue invariant sees them. -/
def under (pushes : List (Call α)) : Nat → Option (Payload α × Push) := fun i =>
  match pushes[i]? with
  | some (.running v p) => some (⟨i, v⟩, p)
  | _ => none

variable {pushes : List (Call α)}

theorem under_running (found : pushes[i]? = some (.running v p)) :
    under pushes i = some (⟨i, v⟩, p) := by
  simp only [under, found]

/-- The push that call `i` has under way. -/
def Call.push (i : Nat) : Call α → Option (Payload α × Push)
  | .running v p => some (⟨i, v⟩, p)
  | _ => none

theorem under_reads (pushes : List (Call α)) (i : Nat) :
    under pushes i = pushes[i]?.bind (Call.push i) := by
  unfold under
  split
  · rename_i found
    rw [found]
    rfl
  · rename_i other
    cases found : pushes[i]? with
    | none => rfl
    | some call =>
      cases call with
      | running v p => exact (other v p found).elim
      | _ => rfl

theorem under_append (v : α) : under (pushes ++ [.running v .probe]) =
      Function.update (under pushes) pushes.length (some (⟨pushes.length, v⟩, .probe)) :=
  read_append under_reads ..

theorem under_set (out : Push ⊕ Bool) (found : pushes[i]? = some (.running v p)) :
    under (pushes.set i (.next v out)) = Function.update (under pushes) i (pushNext ⟨i, v⟩ out) := by
  rw [read_set under_reads found]
  cases out <;> rfl

/-- The queue invariant for the pushes and the pop that are under way. -/
def QueueOk (w : World α) : Prop := Inv w.queue (under w.pushes) w.pop

theorem QueueOk.step (ok : w.QueueOk) (move : Moves w w') : w'.QueueOk := by
  cases move with
  | push =>
    have idle : under w.pushes w.pushes.length = none := by
      simp only [under, List.getElem?_eq_none (le_refl w.pushes.length)]
    rw [QueueOk, under_append]
    exact (mpscLawful _).push_start ok idle
  | producer _ _ _ found =>
    rw [QueueOk, produced, under_set _ found]
    exact (Inv.pushStep ok (under_running found) rfl).1
  | tryPop idle =>
    rw [QueueOk, idle] at ok
    exact (mpscLawful _).pop_start ok
  | consumer _ busy =>
    rw [QueueOk, busy] at ok
    exact (Inv.popStep ok rfl).1

theorem Reachable.queueOk {capacity : Nat} (reached : Reachable capacity w) : w.QueueOk := by
  refine reached.invariant (fun pos => ?_) QueueOk.step
  exact (mpscLawful (Payload α)).inv_empty capacity pos

end World

end Coact.Mpsc
