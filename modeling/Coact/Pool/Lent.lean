import Coact.Pool.Routing

/-! A block in the hands of one holder: it leaves the free list with its allocation,
no other client takes it away, and the release of its one reference brings it back. -/
namespace Coact.Pool
open Foundation Function

/-- `alloc` of the pool with id `k + 1`. -/
def State.alloc (s : State) (k signal : Nat) : State × Option Nat :=
  match s.heap.alloc k signal with
  | (h, none) => (s.settle h s.tables s.held, none)
  | (h, some e) => (s.settle h s.tables (update s.held e 1), some e)

/-- The event is a block of pool `k`. -/
def State.Block (s : State) (k e : Nat) : Prop :=
  ∃ r i, s.heap.records[k]? = some r ∧ i < r.capacity ∧ e = r.blockBase i

/-- The block of the event is on the free list of pool `k`. -/
def State.Home (s : State) (k e : Nat) : Prop :=
  ∃ r i free, s.heap.records[k]? = some r ∧ e = r.blockBase i ∧
    freeBlocks s.heap.mem r = some free ∧ i ∈ free

/-- The operation uses a reference to `e`. -/
def Label.Uses (e : Nat) : Label → Prop
  | .refInc e' | .gc e' | .release _ e' => e' = e
  | .init _ | .alloc _ _ _ | .flush _ => False

instance (e : Nat) : ∀ l : Label, Decidable (l.Uses e)
  | .refInc _ | .gc _ | .release _ _ => inferInstanceAs (Decidable (_ = _))
  | .init _ | .alloc _ _ _ | .flush _ => instDecidableFalse

section
variable {signal : Nat}

theorem step_alloc (s : State) (k signal : Nat) :
    State.step maxPending (.alloc k signal 0) s = .ok (s.alloc k signal).1 := by
  rw [State.step, State.alloc, Heap.alloc]
  cases s.heap.allocWithMargin k signal 0 with
  | mk _ taken => cases taken <;> rfl

theorem Reached.step (reached : Reached maxPending s) (permitted : State.Permitted l s)
    (ran : State.step maxPending l s = .ok t) : Reached maxPending t := by
  obtain ⟨m, run⟩ := reached
  exact ⟨m, run.tail ⟨l, permitted, ran⟩⟩

theorem Reached.alloc (reached : Reached maxPending s) (k signal : Nat) :
    Reached maxPending (s.alloc k signal).1 :=
  reached.step (l := .alloc k signal 0) trivial (step_alloc s k signal)

theorem Counted.alloc : Counted (.alloc k signal margin) s where
  counting := trivial
  permitted := trivial
  below e never := by cases never

theorem Counted.gc (permitted : State.Permitted (.gc e) s) : Counted (.gc e) s where
  counting := trivial
  permitted := permitted
  below e never := by cases never

theorem Reached.alloc_lent (reached : Reached maxPending s)
    (taken : (s.alloc k signal).2 = some e) :
    (s.alloc k signal).1.held e = 1 ∧ (s.alloc k signal).1.Block k e ∧ s.held e = 0 := by
  obtain ⟨⟨view, ok⟩, -⟩ := reached_ok reached
  have got : (s.heap.allocWithMargin k signal 0).2 = some e := by
    rw [State.alloc, Heap.alloc] at taken
    split at taken
    · cases taken
    · rename_i same
      rw [same]
      exact taken
  have ran : State.step maxPending (.alloc k signal 0) s = .ok _ := step_alloc s k signal
  have permitted : State.Permitted (.alloc k signal 0) s := trivial
  have counted : Counted (.alloc k signal 0) s := .alloc
  have routed := ok.routed counted ran
  obtain ⟨-, r, i, found, below, rfl, unheld⟩ := routed.taken rfl got
  obtain ⟨_, -, advance⟩ := ok.step permitted ran
  obtain ⟨r', found', like, -⟩ := advance.pools found
  refine ⟨?_, ⟨r', i, found', like.capacity ▸ below, (like.blockBase i).symm⟩, unheld⟩
  rw [State.alloc, Heap.alloc]
  split
  · rename_i same
    rw [same] at got
    cases got
  · rename_i h e' same
    rw [same] at got
    cases got
    exact update_self ..

theorem Reached.lent_step (reached : Reached maxPending s) (permitted : State.Permitted l s)
    (ran : State.step maxPending l s = .ok t) (lent : 0 < s.held e) (unused : ¬ l.Uses e) :
    t.held e = s.held e := by
  obtain ⟨⟨view, ok⟩, -⟩ := reached_ok reached
  have recounted {e' n : Nat} (apart : e' ≠ e) : s.recount e' n e = s.held e := by
    rw [State.recount]
    split
    · rfl
    · exact update_of_ne (Ne.symm apart) ..
  cases l with
  | init =>
    cases ran
    rfl
  | alloc k signal margin =>
    have counted : Counted (.alloc k signal margin) s := .alloc
    have routed := ok.routed counted ran
    rw [State.step] at ran
    split at ran
    · cases ran
      rfl
    · rename_i h e' same
      cases ran
      have unheld : s.held e' = 0 := by
        obtain ⟨-, r, i, -, -, -, unheld⟩ := routed.taken rfl (congrArg Prod.snd same)
        exact unheld
      have apart : e ≠ e' := by
        rintro rfl
        omega
      exact update_of_ne apart ..
  | refInc | gc =>
    obtain ⟨h, -, rfl⟩ := map_ok ran
    exact recounted unused
  | release =>
    obtain ⟨⟨table, h⟩, -, rfl⟩ := map_ok ran
    exact recounted unused
  | flush =>
    cases ran
    rfl

theorem Reached.block_step (reached : Reached maxPending s) (permitted : State.Permitted l s)
    (ran : State.step maxPending l s = .ok t) (block : s.Block k e) : t.Block k e := by
  obtain ⟨⟨view, ok⟩, -⟩ := reached_ok reached
  obtain ⟨r, i, found, below, rfl⟩ := block
  obtain ⟨_, -, advance⟩ := ok.step permitted ran
  obtain ⟨r', found', like, -⟩ := advance.pools found
  exact ⟨r', i, found', like.capacity ▸ below, (like.blockBase i).symm⟩

/-- The release of the only reference succeeds and returns the block to its pool. -/
theorem Reached.gc_home (reached : Reached maxPending s) (lent : s.held e = 1)
    (block : s.Block k e) : ∃ t, State.step maxPending (.gc e) s = .ok t ∧ t.Home k e := by
  obtain ⟨⟨view, ok⟩, -⟩ := reached_ok reached
  have permitted : State.Permitted (.gc e) s := .inl (lent ▸ Nat.one_pos)
  have counted : Counted (.gc e) s := .gc permitted
  obtain ⟨t, ran⟩ := counted.steps ok
  obtain ⟨r, i, found, below, rfl⟩ := block
  obtain ⟨_, -, advance⟩ := ok.step permitted ran
  obtain ⟨r₁, found₁, like, -⟩ := advance.pools found
  obtain ⟨r', free, free', found', -, listed, back⟩ := (ok.routed counted ran).returned found
  cases found₁.symm.trans found'
  exact ⟨t, ran, r₁, i, free', found₁, (like.blockBase i).symm, listed,
    ((back i below).mpr ⟨rfl, lent⟩).1⟩

end

end Coact.Pool
