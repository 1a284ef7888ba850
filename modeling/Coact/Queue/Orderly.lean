import Coact.Queue.Capacity
import Coact.Queue.Kinds

/-! What the operations of either backend agree on when they run one at a time: the
readiness test, `front` and `try_pop` see the same payload, and a queue only holds
what was pushed into it. -/
namespace Coact

structure Backend.Orderly {α : Type} {B : Backend α} (A : B.Alone) where
  Ok : B.Q → Prop
  Holds : B.Q → α → Prop
  empty : ∀ n pos, Ok (B.empty n pos)
  push : ∀ {q} v, Ok q → Ok (A.tryPush q v).1
  pop : ∀ {q}, Ok q → Ok (A.tryPop q).1
  holds_empty : ∀ {n pos v}, ¬ Holds (B.empty n pos) v
  holds_push : ∀ {q v u}, Holds (A.tryPush q v).1 u → Holds q u ∨ u = v
  holds_pop : ∀ {q u}, Holds (A.tryPop q).1 u → Holds q u
  front_holds : ∀ {q v}, A.front q = some v → Holds q v
  ready_front : ∀ {q}, Ok q → A.hasReady q = (A.front q).isSome
  pop_front : ∀ q, (A.tryPop q).2 = A.front q

def ringOrderly (α : Type) : Backend.Orderly (ringAlone α) where
  Ok _ := True
  Holds q v := v ∈ Ring.toList q
  empty _ _ := trivial
  push _ _ := trivial
  pop _ := trivial
  holds_empty := List.not_mem_nil
  holds_push := by
    intro q v u mem
    change u ∈ (Ring.pushObserved q v).1.toList at mem
    rcases Ring.pushObserved_cases q v with ⟨q', pushed, appended⟩ | ⟨_, refused⟩
    · rw [pushed, appended, List.mem_append, List.mem_singleton] at mem
      exact mem
    · rw [refused] at mem
      exact .inl mem
  holds_pop := by
    intro q u mem
    change u ∈ (Ring.tryPop q).1.toList at mem
    rcases Ring.tryPop_cases q with ⟨q', v, popped, split⟩ | ⟨_, none⟩
    · rw [popped] at mem
      rw [split]
      exact List.mem_cons_of_mem v mem
    · rw [none] at mem
      exact mem
  front_holds := by
    intro q v first
    have head : (Ring.toList q).head? = some v := (Ring.front_eq_head q).symm.trans first
    exact List.mem_of_mem_head? head
  ready_front _ := Ring.hasReady_front _
  pop_front q := Ring.tryPop_front q

namespace Mpsc
variable {α : Type} {q : Mpsc α} {v : α}

/-- A payload stands in some cell. -/
def Stores (q : Mpsc α) (v : α) : Prop := ∃ cell ∈ q.cells, cell.payload = some v

theorem Stores.of_modifyCell (stored : (q.modifyCell k change).Stores u) :
    q.Stores u ∨ ∃ cell ∈ q.cells, (change cell).payload = some u := by
  obtain ⟨cell, mem, payload⟩ := stored
  rcases mem_modifyCell mem with old | ⟨before, there, rfl⟩
  · exact .inl ⟨cell, old, payload⟩
  · exact .inr ⟨before, there, payload⟩

theorem Stores.of_tryPush (stored : (q.tryPush v).1.Stores u) : q.Stores u ∨ u = v := by
  rw [tryPush] at stored
  split at stored
  · exact .inl stored
  · rename_i k _
    have changed := stored
    rcases changed.of_modifyCell with old | ⟨_, _, same⟩
    · exact .inl old
    · exact .inr (Option.some.inj same).symm

theorem Stores.of_tryPop (stored : q.tryPop.1.Stores u) : q.Stores u := by
  rw [tryPop] at stored
  split at stored
  · exact stored
  · rcases Stores.of_modifyCell stored with old | ⟨_, _, none⟩
    · exact old
    · cases none

theorem stores_front (first : q.front = some v) : q.Stores v := by
  rw [front] at first
  split at first
  · cases first
  · obtain ⟨cell, there, payload⟩ := Option.bind_eq_some_iff.mp first
    exact ⟨cell, List.mem_of_getElem? there, payload⟩

theorem tryPop_front (q : Mpsc α) : q.tryPop.2 = q.front := by
  rw [tryPop, front]
  split <;> rfl

theorem Quiet.ready_front {capacity : Nat} (quiet : Quiet capacity q) :
    q.oldestReadyIndex.isSome = q.front.isSome := by
  rw [front]
  cases found : q.oldestReadyIndex with
  | none => rfl
  | some =>
    obtain ⟨cell, there, ready⟩ := oldestReadyIndex_ready found
    rcases quiet.cells cell (List.mem_of_getElem? there) with free | ⟨_, v, payload⟩
    · rw [ready] at free
      cases free
    · simp [there, payload]

theorem quiet_empty (capacity : Nat) (pos : 0 < capacity) :
    Quiet capacity (empty capacity pos : Mpsc α) := SeqReached.quiet ⟨pos, .refl⟩

end Mpsc

def mpscOrderly (α : Type) : Backend.Orderly (mpscAlone α) where
  Ok q := ∃ capacity, Mpsc.Quiet capacity q
  Holds q v := Mpsc.Stores q v
  empty n pos := ⟨n, Mpsc.quiet_empty n pos⟩
  push v := fun ⟨n, quiet⟩ => ⟨n, quiet.tryPush v⟩
  pop := fun ⟨n, quiet⟩ => ⟨n, quiet.tryPop⟩
  holds_empty := by
    rintro n pos v ⟨cell, mem, payload⟩
    rw [List.eq_of_mem_replicate mem] at payload
    cases payload
  holds_push := Mpsc.Stores.of_tryPush
  holds_pop := Mpsc.Stores.of_tryPop
  front_holds := Mpsc.stores_front
  ready_front := fun ⟨_, quiet⟩ => quiet.ready_front
  pop_front := Mpsc.tryPop_front

def QueueBackend.alone (k : QueueBackend) (α : Type) : (k.impl α).Alone :=
  match k with
  | .SingleCoreCriticalRing => ringAlone α
  | .BoundedMpscQueue => mpscAlone α

def QueueBackend.orderly (k : QueueBackend) (α : Type) : Backend.Orderly (k.alone α) :=
  match k with
  | .SingleCoreCriticalRing => ringOrderly α
  | .BoundedMpscQueue => mpscOrderly α

end Coact
