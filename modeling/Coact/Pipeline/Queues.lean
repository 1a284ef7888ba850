import Coact.Foundation.Tally
import Coact.Pipeline.Protocol

/-! The three staging queues inside the protocol: their backend invariants hold
for the pushes and the pop that are under way, and `staged`, the published slots
of all partitions, grows by a publication and shrinks by a dequeue only. -/
namespace Coact
open Dispatch Foundation Custody Function

variable {d : Deployment} {B : Backend StagingSlot} {H : Type}

/-- The push a submission has under way in partition `p`. -/
def Phase.push (p : Partition) : Phase d B → Option (StagingSlot × B.Push)
  | .pushing b r => if d.partition b.ao = p then some (b.slot, r) else none
  | _ => none

def Custody.pop (p : Partition) : Custody d B → Option B.Pop
  | .popping p' r => if p' = p then some r else none
  | _ => none

def pushes (phases : List (Phase d B)) (p : Partition) : B.Pushes :=
  fun i => phases[i]?.bind (Phase.push p)

def Pipe.QueuesOk (L : B.Lawful) (s : Pipe d B H) : Prop :=
  ∀ p, L.Inv (s.shared.queue p) (pushes s.phases p) (s.custody.pop p)

/-- The place of a partition in the order of the scans. -/
def rank : Partition → Nat
  | .High => 0
  | .Normal => 1
  | .Low => 2

theorem rank_next (follows : next p = some p') : rank p' = rank p + 1 := by
  cases p <;> cases follows <;> rfl

theorem rank_last (last : next p = none) : rank p' ≤ rank p := by
  cases p <;> cases last
  cases p' <;> decide

def Shared.staged (L : B.Lawful) (sh : Shared B H) : Multiset StagingSlot :=
  L.resident (sh.queue .High) + L.resident (sh.queue .Normal) + L.resident (sh.queue .Low)

section
variable {L : B.Lawful} {sh : Shared B H} {p : Partition} {q : B.Q}

theorem staged_same (same : L.resident q = L.resident (sh.queue p)) :
    (sh.setQueue p q).staged L = sh.staged L := Staging.staged_update_same same

variable {v : StagingSlot}

theorem staged_cons (added : L.resident q = v ::ₘ L.resident (sh.queue p)) :
    (sh.setQueue p q).staged L = v ::ₘ sh.staged L := Staging.staged_update_cons added

theorem staged_uncons (taken : L.resident (sh.queue p) = v ::ₘ L.resident q) :
    sh.staged L = v ::ₘ (sh.setQueue p q).staged L := Staging.staged_update_uncons taken

theorem mem_staged : v ∈ sh.staged L ↔ ∃ p, v ∈ L.resident (sh.queue p) := Staging.mem_staged

end

section
variable {phases : List (Phase d B)}

theorem pushes_reads (p : Partition) (phases : List (Phase d B)) (i : Nat) :
    pushes phases p i = phases[i]?.bind (Phase.push p) := rfl

theorem pushes_at (found : phases[i]? = some ph) : pushes phases p i = ph.push p := by
  simp [pushes, found]

theorem pushes_set (found : phases[i]? = some ph) :
    pushes (phases.set i ph') p = update (pushes phases p) i (ph'.push p) :=
  read_set (pushes_reads p) found

theorem pushes_kept (found : phases[i]? = some ph) (same : ph'.push p = ph.push p) :
    pushes (phases.set i ph') p = pushes phases p :=
  read_kept (pushes_reads p) found same

theorem pushes_enter : pushes (phases ++ [.entering]) p = pushes phases p := by
  have idle : pushes phases p phases.length = none := read_beyond (pushes_reads p) le_rfl
  have grown : pushes (phases ++ [.entering]) p = update (pushes phases p) phases.length none :=
    read_append (pushes_reads p) phases .entering
  rw [grown, ← idle, update_eq_self]

end

section
variable {L : B.Lawful} {s : Pipe d B H} {i : Nat} {ph ph' : Phase d B} {sh' : Shared B H}

theorem Pipe.QueuesOk.at_partition (inv : s.QueuesOk L) (found : s.phases[i]? = some ph)
    (p : Partition) (q : B.Q) (away : ∀ p', p' ≠ p → ph'.push p' = ph.push p')
    (here : L.Inv q (update (pushes s.phases p) i (ph'.push p)) (s.custody.pop p)) :
    ∀ p', L.Inv ((s.shared.setQueue p q).queue p') (pushes (s.phases.set i ph') p')
      (s.custody.pop p') := by
  intro p'
  by_cases same : p' = p
  · subst same
    rw [Shared.setQueue_queue, update_self, pushes_set found]
    exact here
  · rw [Shared.setQueue_queue, update_of_ne same, pushes_kept found (away p' same)]
    exact inv p'

theorem Pipe.QueuesOk.quiet (inv : s.QueuesOk L) (found : s.phases[i]? = some ph)
    (unpushed : ∀ p, ph'.push p = ph.push p) (same : sh'.queue = s.shared.queue) :
    Pipe.QueuesOk L { s with shared := sh', phases := s.phases.set i ph' } := by
  intro p
  rw [same, pushes_kept found (unpushed p)]
  exact inv p

variable {b : BoundSlot d}

theorem Pipe.QueuesOk.pushing (inv : s.QueuesOk L) (found : s.phases[i]? = some (.pushing b r)) :
    L.Inv (s.shared.queue (d.partition b.ao)) (pushes s.phases (d.partition b.ao))
        (s.custody.pop (d.partition b.ao)) ∧
      pushes s.phases (d.partition b.ao) i = some (b.slot, r) :=
  ⟨inv _, by rw [pushes_at found, Phase.push, if_pos rfl]⟩

variable {p : Partition}

theorem Phase.push_away (other : p ≠ d.partition b.ao) :
    Phase.push p (.pushing b r : Phase d B) = none := by
  rw [Phase.push, if_neg (Ne.symm other)]

theorem Phase.push_here :
    Phase.push (d.partition b.ao) (.pushing b r : Phase d B) = some (b.slot, r) := by
  rw [Phase.push, if_pos rfl]

theorem Moves.queuesOk (inv : s.QueuesOk L) (found : s.phases[i]? = some ph)
    (move : Moves d i s.shared ph sh' ph') :
    Pipe.QueuesOk L { s with shared := sh', phases := s.phases.set i ph' } := by
  cases move with
  | pushStart b =>
    have idle : pushes s.phases (d.partition b.ao) i = none := pushes_at found
    have started := L.push_start (v := b.slot) (inv (d.partition b.ao)) idle
    intro p
    by_cases same : p = d.partition b.ao
    · subst same
      rw [pushes_set found, Phase.push_here]
      exact started
    · rw [pushes_kept found (Phase.push_away same)]
      exact inv p
  | pushNext _ _ q _ ran =>
    obtain ⟨ok, under⟩ := inv.pushing found
    refine inv.at_partition found _ q (fun p' other => ?_) ?_
    · rw [Phase.push_away other, Phase.push_away other]
    · rw [Phase.push_here]
      exact (L.push_next ok under ran).1
  | pushFail _ _ q ran =>
    obtain ⟨ok, under⟩ := inv.pushing found
    refine inv.at_partition found _ q (fun p' other => (Phase.push_away other).symm) ?_
    exact (L.push_fail ok under ran).1
  | publish _ _ q _ ran =>
    obtain ⟨ok, under⟩ := inv.pushing found
    refine inv.at_partition found _ q (fun p' other => (Phase.push_away other).symm) ?_
    exact (L.push_done ok under ran).1
  | depart queued =>
    refine inv.quiet found (fun p => ?_) rfl
    cases queued <;> rfl
  | _ => exact inv.quiet found (fun _ => rfl) rfl

theorem Custody.pop_away (other : p' ≠ p) : pop p' (.popping p r : Custody d B) = none := by
  rw [pop, if_neg (Ne.symm other)]

theorem Custody.pop_here : pop p (.popping p r : Custody d B) = some r := by
  rw [pop, if_pos rfl]

theorem Pipe.QueuesOk.popping (inv : s.QueuesOk L) (queue : sh'.queue = update s.shared.queue p q)
    (before : ∀ p', p' ≠ p → s.custody.pop p' = none) (after : ∀ p', p' ≠ p → cu'.pop p' = none)
    (here : L.Inv q (pushes s.phases p) (cu'.pop p)) :
    Pipe.QueuesOk L { s with shared := sh', custody := cu', mode := m' } := by
  intro p'
  have ok := inv p'
  rw [queue]
  by_cases same : p' = p
  · subst same
    rw [update_self]
    exact here
  · rw [update_of_ne same, after p' same]
    rw [before p' same] at ok
    exact ok

theorem Serves.queuesOk (inv : s.QueuesOk L)
    (move : Serves d s.shared s.custody s.mode sh' cu' m') :
    Pipe.QueuesOk L { s with shared := sh', custody := cu', mode := m' } := by
  obtain ⟨sh, phases, cu, m, stoppers⟩ := s
  cases move with
  | popStart _ p =>
    refine inv.popping (update_eq_self p sh.queue).symm (fun _ _ => rfl)
      (fun _ other => pop_away other) ?_
    rw [pop_here]
    exact L.pop_start (inv p)
  | popNext _ p _ q _ ran =>
    have ok := inv p
    rw [pop_here] at ok
    refine inv.popping (q := q) rfl (fun _ other => pop_away other)
      (fun _ other => pop_away other) ?_
    rw [pop_here]
    exact (L.pop_next ok ran).1
  | popNone _ p _ q ran =>
    have ok := inv p
    rw [pop_here] at ok
    exact inv.popping (q := q) rfl (fun _ other => pop_away other)
      (fun _ _ => rfl) (L.pop_none ok ran).1
  | popSome _ p _ q _ ran =>
    have ok := inv p
    rw [pop_here] at ok
    exact inv.popping (q := q) rfl (fun _ other => pop_away other)
      (fun _ _ => rfl) (L.pop_some ok ran).1
  | _ => exact inv

theorem Pipe.QueuesOk.step (inv : s.QueuesOk L) (ran : Pipe.Step s t) : t.QueuesOk L := by
  cases ran with
  | enter =>
    intro p
    rw [pushes_enter]
    exact inv p
  | submission _ _ _ _ found move => exact move.queuesOk inv found
  | service _ _ _ move => exact move.queuesOk inv
  | _ => exact inv

end

/-- Slots are popped and held only in the parts of the loop that dequeue. -/
def Pipe.Unburdened (s : Pipe d B H) : Prop := s.mode.dequeues ∨ s.custody = .free

theorem Serves.unburdened {sh sh' : Shared B H} {cu cu' : Custody d B} {m m' : Mode B}
    (move : Serves d sh cu m sh' cu' m') (inv : m.dequeues ∨ cu = .free) :
    m'.dequeues ∨ cu' = .free := by
  have popping : ∀ {p : Partition} {r : B.Pop},
      (m.dequeues ∨ (.popping p r : Custody d B) = .free) → m.dequeues := by
    rintro p r (dequeues | free)
    · exact dequeues
    · cases free
  cases move with
  | quiet => exact inv
  | popStart _ _ dequeues => exact .inl dequeues
  | popNext | popNone | popSome => exact .inl (popping inv)
  | stopping => exact .inl (.inr rfl)
  | release | releaseUnbound => exact .inr rfl
  | wait _ _ dequeues => exact .inl dequeues
  | arm | take | work | drop | pay => exact .inl (.inl rfl)
  | discard => exact .inl (.inr rfl)
  | _ => exact .inr rfl

theorem Pipe.queuesOk_initial (L : B.Lawful) (hsm : AoId → H) :
    (Pipe.initial d B hsm).QueuesOk L := fun p => L.inv_empty _ (d.cfg.capacity_pos p)

end Coact
