import Coact.Pool.Accounting

/-! A second `event_gc` on an event whose block is back on the free list. The link
of a free block is an index below 2^16, so on a little-endian target the byte that
was the pool id reads zero, and `event_gc` takes the event for a static one. -/
namespace Coact.Pool
open Foundation

/-- The block of event `e` is on the free list of its pool. -/
def State.Freed (s : State) (e : Nat) : Prop :=
  ∃ view k r i, HeapOk s.heap s.tables s.held view ∧ s.heap.records[k]? = some r ∧
    e = r.blockBase i ∧ i ∈ (view k).chain .free

/-- Permitted steps of a run in which event `e` is not allocated. -/
def State.Unallocated (e : Nat) (l : Label) (s : State) : Prop :=
  State.Permitted l s ∧ ∀ k signal margin, l = .alloc k signal margin →
    (s.heap.allocWithMargin k signal margin).2 ≠ some e

section
variable {maxPending : Nat → Nat} {s t : State} {e : Nat}

theorem State.Freed.unheld (freed : s.Freed e) : s.held e = 0 := by
  obtain ⟨view, k, r, i, ok, found, rfl, member⟩ := freed
  exact (((ok.pool found).shelf_iff i).mp ⟨.free, member⟩).2

theorem recount_unheld {e' n : Nat} (unheld : s.held e = 0) (allowed : 0 < s.held e' ∨ s.Static e') :
    s.recount e' n e = 0 := by
  rw [State.recount]
  split
  · exact unheld
  · rename_i pooled
    by_cases same : e = e'
    · subst same
      rcases allowed with lent | static
      · omega
      · exact (pooled static.1).elim
    · rw [Function.update_of_ne same, unheld]

theorem step_unheld (unheld : s.held e = 0) (allowed : State.Unallocated e l s)
    (ran : State.step maxPending l s = .ok t) : t.held e = 0 := by
  obtain ⟨permitted, elsewhere⟩ := allowed
  cases l with
  | init | flush =>
    cases ran
    exact unheld
  | alloc k signal margin =>
    have other := elsewhere k signal margin rfl
    rw [State.step] at ran
    split at ran
    · cases ran
      exact unheld
    · rename_i h e' taken
      cases ran
      rw [taken] at other
      exact (Function.update_of_ne (fun same => other (congrArg some same.symm)) ..).trans unheld
  | refInc | gc | release =>
    obtain ⟨_, -, rfl⟩ := map_ok ran
    exact recount_unheld unheld permitted

theorem State.Freed.step (freed : s.Freed e) (allowed : State.Unallocated e l s)
    (ran : State.step maxPending l s = .ok t) : t.Freed e := by
  have unheld := step_unheld freed.unheld allowed ran
  obtain ⟨view, k, r, i, ok, found, rfl, member⟩ := freed
  obtain ⟨view', ok', advance⟩ := ok.step allowed.1 ran
  obtain ⟨r', found', like, -⟩ := advance.pools found
  refine ⟨view', k, r', i, ok', found', (like.blockBase i).symm, ?_⟩
  rcases advance.free found i member with stays | lent
  · exact stays
  · omega

theorem freed_gc (ok : HeapOk s.heap s.tables s.held view)
    (last : s.held e = 1) (released : State.step maxPending (.gc e) s = .ok t) : t.Freed e := by
  have lent : 0 < s.held e := last ▸ Nat.one_pos
  obtain ⟨h', moved, rfl⟩ := map_ok released
  obtain ⟨h₁, view', moved', whole, -, home⟩ := ok.gc lent
  obtain rfl := Except.ok.inj (moved.symm.trans moved')
  obtain ⟨k, r, i, found, rfl, member⟩ := home last
  obtain ⟨r', found', like, -⟩ := lasting_found (lasting_eventGc moved) found
  refine ⟨view', k, r', i, ?_, found', (like.blockBase i).symm, member⟩
  rw [recount_held ok lent]
  exact whole

theorem State.Freed.poolId (freed : s.Freed e) : eventPoolId s.heap.mem e = 0 := by
  obtain ⟨view, k, r, i, ok, found, rfl, member⟩ := freed
  exact eventPoolId_of_load32 (((ok.pool found).next_le member).trans_lt (by decide))

/-- Whatever happened before and whatever happens between the two calls, as long
as the block is not allocated again: a second `event_gc` returns without an
assertion and without any effect. -/
theorem double_release_silent {u : State} (run : Reached maxPending s) (last : s.held e = 1)
    (released : State.step maxPending (.gc e) s = .ok t)
    (later : Reaches (State.step maxPending) (State.Unallocated e) t u) :
    u.heap.eventGc e = .ok u.heap := by
  obtain ⟨⟨view, ok⟩, -⟩ := reached_ok run
  have freed : u.Freed e :=
    later.invariant (P := fun u => u.Freed e) (freed_gc ok last released)
      fun _ _ _ freed allowed ran => freed.step allowed ran
  rw [Heap.eventGc, if_pos freed.poolId]

end

/-- Two events are outstanding, the one at 20 with one reference. -/
def twoOut : List Label := [.init smallPool, .alloc 0 7 0, .alloc 0 8 0]

theorem double_release_silent_flushed :
    Reached (fun _ => 4) (runOf (fun _ => 4) twoOut) ∧
    (runOf (fun _ => 4) twoOut).held 20 = 1 ∧
    ∃ t u, State.step (fun _ => 4) (.gc 20) (runOf (fun _ => 4) twoOut) = .ok t ∧
      State.step (fun _ => 4) (.flush 0) t = .ok u ∧ u.heap.eventGc 20 = .ok u.heap := by
  have run : Reached (fun _ => 4) (runOf (fun _ => 4) twoOut) :=
    reached_runOf (by decide +kernel)
  have last : (runOf (fun _ => 4) twoOut).held 20 = 1 := by decide +kernel
  have permitted : State.Permitted (.gc 20) (runOf (fun _ => 4) twoOut) :=
    .inl (last ▸ Nat.one_pos)
  obtain ⟨⟨view, ok⟩, -⟩ := reached_ok run
  cases released : State.step (fun _ => 4) (.gc 20) (runOf (fun _ => 4) twoOut) with
  | error =>
    obtain ⟨-, e, never, -⟩ := ok.step_fails permitted released
    cases never
  | ok t =>
    have between : Reaches (State.step fun _ => 4) (State.Unallocated 20) t _ :=
      .single ⟨.flush 0, ⟨trivial, fun _ _ _ never => by cases never⟩, rfl⟩
    exact ⟨run, last, t, _, rfl, rfl, double_release_silent run last released between⟩

/-- The only event has been released for good. -/
def releasedOnce : State := runOf (fun _ => 4) [.init smallPool, .alloc 0 7 0, .gc 20]

/-- The second `event_gc` on the event at 20 goes unnoticed. -/
theorem double_release_unnoticed :
    (runOf (fun _ => 4) [.init smallPool, .alloc 0 7 0]).held 20 = 1 ∧
    Reached (fun _ => 4) releasedOnce ∧ releasedOnce.heap.records.length = 1 ∧
    releasedOnce.held 20 = 0 ∧ releasedOnce.heap.used 0 = 0 ∧
    releasedOnce.heap.eventGc 20 = .ok releasedOnce.heap := by
  have silent : eventPoolId releasedOnce.heap.mem 20 = 0 := by decide +kernel
  exact ⟨by decide +kernel, reached_runOf (by decide +kernel), by decide +kernel,
    by decide +kernel, by decide +kernel, if_pos silent⟩

end Coact.Pool
