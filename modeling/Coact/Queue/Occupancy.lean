import Coact.Queue.Capacity
import Coact.Queue.MpscLaws

/-! Occupied cells of `BoundedMpscQueue`. An occupied cell holds a published
payload or belongs to a push that is writing it, and a cell that a push has found
occupied stays so until the consumer frees it. -/
namespace Coact.Mpsc
open Foundation
variable {α : Type} {q q' : Mpsc α}

/-- One if the push has claimed a cell and not yet published it. -/
def Push.writing : Push → Nat
  | .probe | .cas _ _ => 0
  | .construct _ | .fetchTicket _ | .storeTicket _ _ | .publish _ => 1

def writingNext : Push ⊕ Bool → Nat
  | .inl p => p.writing
  | .inr _ => 0

theorem occupied_kept
    (same : ∀ cell, q.cells[k]? = some cell → occupied (change cell) = occupied cell) :
    tally occupied (q.modifyCell k change).cells = tally occupied q.cells := by
  cases found : q.cells[k]? with
  | none =>
    have outside : q.cells.modify k change = q.cells := by
      apply List.ext_getElem?
      intro j
      rw [List.getElem?_modify]
      split
      · rename_i here
        rw [← here, found]
        rfl
      · simp
    change tally occupied (q.cells.modify k change) = _
    rw [outside]
  | some cell =>
    have exchanged := tally_modify (w := occupied) change found
    rw [same cell found] at exchanged
    exact Nat.add_right_cancel exchanged

/-- Claiming a cell occupies it, and publishing it hands it over to the payload. -/
theorem pushStep_occupied (inv : Inv q ps c) (owner : ps i = some (v, p)) {out : Push ⊕ Bool}
    (moved : pushStep v q p = (q', out)) :
    tally occupied q'.cells + p.writing =
      tally occupied q.cells + Multiset.card (pushAdds v out) + writingNext out := by
  cases p with
  | probe =>
    cases moved
    rfl
  | cas start offset =>
    simp only [pushStep] at moved
    split at moved
    · split at moved
      · rename_i free
        cases moved
        obtain ⟨cell, found, state⟩ := Option.map_eq_some_iff.mp free
        have exchanged := tally_modify (w := occupied)
          (fun cell => { cell with state := CellState.Writing }) found
        have before : occupied cell = 0 := if_neg (not_not_intro state)
        have after : occupied { cell with state := CellState.Writing } = 1 := if_pos (by simp)
        rw [before, after] at exchanged
        exact exchanged
      · cases moved
        rfl
    · cases moved
      rfl
  | construct | storeTicket =>
    cases moved
    exact congrArg (· + 1) (occupied_kept fun _ _ => rfl)
  | fetchTicket =>
    cases moved
    rfl
  | publish =>
    cases moved
    obtain ⟨cell, found, writing, -⟩ := inv.claimed owner rfl
    refine congrArg (· + 1) (occupied_kept fun cell' there => ?_)
    cases found.symm.trans there
    simp [occupied, writing]

theorem popStep_occupied (inv : Inv q ps (some x)) {out : Pop α ⊕ Option α}
    (moved : popStep q x = (q', out)) :
    tally occupied q.cells = tally occupied q'.cells + Multiset.card (popTakes out) := by
  have holds := inv.popping x rfl
  cases x with
  | scan =>
    simp only [popStep] at moved
    split at moved <;> cases moved <;> rfl
  | moveOut =>
    cases moved
    rfl
  | consume =>
    cases moved
    obtain ⟨cell, found, ready⟩ := holds
    refine (occupied_kept fun cell' there => ?_).symm
    cases found.symm.trans there
    simp [occupied, ready]
  | free =>
    cases moved
    obtain ⟨cell, found, consuming, rfl⟩ := holds
    obtain ⟨x, payload⟩ := inv.live found (.inr consuming)
    have exchanged := tally_modify (w := occupied)
      (fun cell => { cell with state := CellState.Free, payload := none }) found
    have before : occupied cell = 1 := if_pos (by simp [consuming])
    have after : occupied { cell with state := CellState.Free, payload := (none : Option α) } = 0 :=
      if_neg (by simp)
    rw [before, after, Nat.add_zero] at exchanged
    rw [payload]
    exact exchanged.symm

/-- No cell the push has tried is Free. -/
def Passed (q : Mpsc α) : Push → Prop
  | .cas start offset => ∀ o < offset, ¬ q.InState (q.probed start o) .Free
  | _ => True

theorem probed_congr (length : q'.cells.length = q.cells.length) (start offset : Nat) :
    q'.probed start offset = q.probed start offset := by
  rw [probed, probed, length]

theorem pushStep_free (free : (pushStep v q p).1.InState k .Free) : q.InState k .Free := by
  have modified {index : Nat} {change : MpscCell α → MpscCell α}
      (free : (q.modifyCell index change).InState k .Free)
      (back : ∀ cell, (change cell).state = .Free → cell.state = .Free) : q.InState k .Free := by
    obtain ⟨cell, there, free⟩ := free
    rcases modifyCell_origin there with ⟨-, before, found, rfl⟩ | ⟨-, there⟩
    · exact ⟨before, found, back before free⟩
    · exact ⟨cell, there, free⟩
  cases p with
  | probe | fetchTicket => exact free
  | cas =>
    simp only [pushStep] at free
    split at free
    · split at free
      · exact modified free fun _ never => by cases never
      · exact free
    · exact free
  | construct | storeTicket => exact modified free fun _ same => same
  | publish => exact modified free fun _ never => by cases never

theorem popStep_free (free : (popStep q x).1.InState k .Free) :
    q.InState k .Free ∨ ∃ out, x = .free k out := by
  cases x with
  | scan =>
    simp only [popStep] at free
    split at free <;> exact .inl free
  | moveOut => exact .inl free
  | consume =>
    obtain ⟨cell, there, free⟩ := free
    rcases modifyCell_origin there with ⟨-, before, -, rfl⟩ | ⟨-, there⟩
    · cases free
    · exact .inl ⟨cell, there, free⟩
  | free index out =>
    by_cases here : index = k
    · exact .inr ⟨out, by rw [here]⟩
    · obtain ⟨cell, there, free⟩ := free
      simp only [popStep, modifyCell_get, if_neg here] at there
      exact .inl ⟨cell, there, free⟩

theorem Passed.other (passed : Passed q p) : Passed (pushStep v q r).1 p := by
  cases p with
  | cas =>
    intro o tried free
    rw [probed_congr (length_pushStep v q r)] at free
    exact passed o tried (pushStep_free free)
  | _ => trivial

theorem Passed.next (passed : Passed q p)
    (moved : pushStep v q p = (q', .inl p')) : Passed q' p' := by
  cases p with
  | probe =>
    cases moved
    intro o none
    omega
  | cas start offset =>
    simp only [pushStep] at moved
    split at moved
    · split at moved
      · cases moved
        trivial
      · rename_i taken
        cases moved
        intro o tried free
        by_cases last : o = offset
        · subst last
          obtain ⟨cell, there, free⟩ := free
          rw [probed] at there
          exact taken (by rw [there]; exact congrArg some free)
        · exact passed o (by omega) free
    · cases moved
  | construct _ | fetchTicket _ | storeTicket _ _ =>
    cases moved
    trivial
  | publish => cases moved

/-- A pop keeps what the push knows unless it frees a cell the push has passed. -/
theorem Passed.pop (passed : Passed q p)
    (clear : ∀ start offset k out, p = .cas start offset → x = .free k out →
      ∀ o < offset, q.probed start o ≠ k) :
    Passed (popStep q x).1 p := by
  cases p with
  | cas start offset =>
    intro o tried free
    rw [probed_congr (length_popStep q x)] at free
    rcases popStep_free free with before | ⟨out, freeing⟩
    · exact passed o tried before
    · exact clear start offset _ out rfl freeing o tried rfl
  | _ => trivial

theorem Passed.full (passed : Passed q p) (failed : pushStep v q p = (q', .inr false))
    (divides : q.cells.length ∣ 2 ^ 32) : tally occupied q.cells = q.cells.length := by
  cases p with
  | cas start offset =>
    simp only [pushStep] at failed
    split at failed
    · split at failed <;> cases failed
    · have all (k : Nat) (inside : k < q.cells.length) : ¬ q.InState k .Free := by
        obtain ⟨o, tried, here⟩ := probed_covers divides start inside
        rw [← here]
        exact passed o (by omega)
      have one (cell : MpscCell α) (mem : cell ∈ q.cells) : occupied cell = 1 := by
        obtain ⟨k, there⟩ := List.getElem?_of_mem mem
        exact if_pos fun free => all k (List.getElem?_eq_some_iff.mp there).1 ⟨cell, there, free⟩
      exact tally_ones one
  | _ => cases failed

end Coact.Mpsc
