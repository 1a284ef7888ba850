import Coact.Queue.Mpsc

/-! The accesses of `BoundedMpscQueue` keep its invariant and the backend laws
hold. A payload is resident from the Ready store of its producer to the Free
store of the consumer, so a cell that is still Writing is counted by `size` but
is not yet resident. -/
namespace Coact
open Foundation Mpsc.Inv

namespace Mpsc
variable {α : Type} {q : Mpsc α}

theorem Inv.of_cells (same : q'.cells = q.cells) (inv : Inv q ps c) : Inv q' ps c := by
  have state : ∀ {k state}, q'.InState k state ↔ q.InState k state := by
    intro k state
    rw [InState, InState, same]
  constructor
  case claimed => rw [same]; exact inv.claimed
  case apart => exact inv.apart
  case popping =>
    intro pop at_c
    have holds := inv.popping pop at_c
    cases pop with
    | scan => exact fun k oldest => state.mpr (holds k oldest)
    | consume => exact state.mpr holds
    | moveOut => exact state.mpr holds
    | free => simpa only [Pop.Holds, same] using holds
  case live => rw [same]; exact inv.live
  case consuming => exact fun at_k => inv.consuming (state.mp at_k)

theorem InState.of_map {state : CellState}
    (at_k : q.cells[k]?.map MpscCell.state = some state) : q.InState k state := by
  obtain ⟨cell, found, same⟩ := Option.map_eq_some_iff.mp at_k
  exact ⟨cell, found, same⟩

/-- What remains of a push after an access: its continuation, or nothing. -/
def pushNext (v : α) : Push ⊕ Bool → Option (α × Push)
  | .inl p => some (v, p)
  | .inr _ => none

def pushAdds (v : α) : Push ⊕ Bool → Multiset α
  | .inr true => {v}
  | _ => 0

theorem Inv.pushStep {out : Push ⊕ Bool} (inv : Inv q ps c)
    (owner : ps i = some (v, p)) (ran : Mpsc.pushStep v q p = (q', out)) :
    Inv q' (Function.update ps i (pushNext v out)) c ∧
      q'.resident = pushAdds v out + q.resident := by
  cases p with
  | probe =>
    cases ran
    refine ⟨Inv.of_cells (q := q) rfl (inv.push_quiet _ ?_), (zero_add _).symm⟩
    intro w r k next cell
    cases next
    cases cell
  | cas start offset =>
    simp only [Mpsc.pushStep] at ran
    split at ran
    · split at ran
      · rename_i free
        cases ran
        obtain ⟨cell, found, free⟩ := InState.of_map free
        refine ⟨inv.push_cell found (.inl free) _ _ ?_ (.inl rfl), ?_⟩
        · intro w r next
          cases next
          exact ⟨rfl, rfl, False.elim⟩
        · rw [resident_kept found (by simp [residentOf, free])]
          exact (zero_add _).symm
      · cases ran
        refine ⟨inv.push_quiet _ ?_, (zero_add _).symm⟩
        intro w r k next cell
        cases next
        cases cell
    · cases ran
      refine ⟨inv.push_quiet _ ?_, (zero_add _).symm⟩
      intro w r k next
      cases next
  | construct k =>
    cases ran
    obtain ⟨cell, found, writing, _⟩ := inv.claimed owner rfl
    refine ⟨inv.push_cell found (.inr ⟨v, _, owner, rfl⟩) _ _ ?_ (.inl writing), ?_⟩
    · intro w r next
      cases next
      exact ⟨rfl, writing, fun _ => rfl⟩
    · rw [resident_kept found (by simp [residentOf, writing])]
      exact (zero_add _).symm
  | fetchTicket k =>
    cases ran
    refine ⟨Inv.of_cells (q := q) rfl (inv.push_quiet _ ?_), (zero_add _).symm⟩
    intro w r l next cell
    cases next
    exact ⟨_, owner, cell, fun _ => trivial⟩
  | storeTicket k ticket =>
    cases ran
    obtain ⟨cell, found, writing, payload⟩ := inv.claimed owner rfl
    refine ⟨inv.push_cell found (.inr ⟨v, _, owner, rfl⟩) _ _ ?_ (.inl writing), ?_⟩
    · intro w r next
      cases next
      exact ⟨rfl, writing, fun _ => payload trivial⟩
    · rw [resident_kept found (by simp [residentOf, writing])]
      exact (zero_add _).symm
  | publish k =>
    cases ran
    obtain ⟨cell, found, writing, payload⟩ := inv.claimed owner rfl
    have built : cell.payload = some v := payload trivial
    refine ⟨inv.push_cell found (.inr ⟨v, _, owner, rfl⟩) _ _ ?_ (.inr ⟨rfl, v, built⟩), ?_⟩
    · intro w r next
      cases next
    · have exchanged := resident_modifyCell
        (fun cell => { cell with state := CellState.Ready }) found
      simp only [residentOf, writing, built, add_zero] at exchanged
      rw [exchanged, add_comm]
      rfl

theorem Inv.pop_cell {pop : Pop α} (inv : Inv q ps (some pop)) {cell : MpscCell α}
    (found : q.cells[k]? = some cell) (read : cell.state ≠ .Writing)
    (taken : ∀ j, pop.cell = some j → j = k)
    (change : MpscCell α → MpscCell α) (next : Option (Pop α))
    (holds : ∀ p, next = some p → p.Holds (q.modifyCell k change))
    (after : (change cell).state = .Free ∨ (change cell).state = .Consuming ∧
      (change cell).payload = cell.payload ∧ next.bind Pop.cell = some k ∧ cell.state = .Ready) :
    Inv (q.modifyCell k change) ps next := by
  constructor
  case claimed =>
    intro i v p l at_i owned
    obtain ⟨cell', found', writing, payload⟩ := inv.claimed at_i owned
    have distinct : k ≠ l := by
      rintro rfl
      cases found.symm.trans found'
      exact read writing
    exact ⟨cell', by rw [modifyCell_get, if_neg distinct]; exact found', writing, payload⟩
  case apart => exact inv.apart
  case popping => exact holds
  case live =>
    intro l cell' found' published
    rcases modifyCell_origin found' with ⟨rfl, before, there, rfl⟩ | ⟨-, found'⟩
    · cases Option.some.inj (found.symm.trans there)
      rcases after with free | ⟨_, payload, _, ready⟩
      · simp [free] at published
      · rw [payload]
        exact inv.live found (.inl ready)
    · exact inv.live found' published
  case consuming =>
    rintro l ⟨cell', found', consuming⟩
    rcases modifyCell_origin found' with ⟨rfl, before, there, rfl⟩ | ⟨distinct, found'⟩
    · cases Option.some.inj (found.symm.trans there)
      rcases after with free | ⟨_, _, claim, _⟩
      · rw [free] at consuming; cases consuming
      · exact claim
    · have claim : pop.cell = some l := inv.consuming ⟨cell', found', consuming⟩
      exact absurd (taken l claim).symm distinct

theorem scanStep_oldest {out : Scan ⊕ Option Nat}
    (sound : ∀ k, s.oldest = some k → q.InState k .Ready) (ran : q.scanStep s = out) :
    ∀ k, (out.elim Scan.oldest id) = some k → q.InState k .Ready := by
  subst ran
  intro k oldest
  simp only [scanStep] at oldest
  split at oldest
  · exact sound k oldest
  · rename_i cell found
    split at oldest
    · rename_i ready
      obtain rfl : s.index = k := by simpa using oldest
      exact ⟨cell, found, ready.1⟩
    · exact sound k oldest

def popTakes : Pop α ⊕ Option α → Multiset α
  | .inr (some v) => {v}
  | _ => 0

theorem Inv.popStep {pop : Pop α} {out : Pop α ⊕ Option α} (inv : Inv q ps (some pop))
    (ran : q.popStep pop = (q', out)) :
    Inv q' ps out.getLeft? ∧ q.resident = popTakes out + q'.resident := by
  have holds := inv.popping pop rfl
  have unmoved : ∀ {next : Option (Pop α)}, pop.cell = none →
      (∀ p, next = some p → p.Holds q) → Inv q ps next := by
    intro next free holds
    refine ⟨inv.claimed, inv.apart, holds, inv.live, fun at_k => ?_⟩
    have claim : pop.cell = some _ := inv.consuming at_k
    rw [free] at claim
    cases claim
  cases pop with
  | scan s =>
    simp only [Mpsc.popStep] at ran
    have oldest := scanStep_oldest holds (rfl : q.scanStep s = _)
    split at ran
    · rename_i s' scanned
      cases ran
      rw [scanned] at oldest
      exact ⟨unmoved rfl (by rintro p ⟨⟩; exact oldest), (zero_add _).symm⟩
    · cases ran
      exact ⟨unmoved rfl (by rintro p ⟨⟩), (zero_add _).symm⟩
    · rename_i k scanned
      cases ran
      rw [scanned] at oldest
      exact ⟨unmoved rfl (by rintro p ⟨⟩; exact oldest k rfl), (zero_add _).symm⟩
  | consume =>
    cases ran
    obtain ⟨cell, found, ready⟩ := holds
    obtain ⟨v, payload⟩ := inv.live found (.inl ready)
    refine ⟨inv.pop_cell found (by simp [ready]) (fun j claim => by cases claim) _ _ ?_
      (.inr ⟨rfl, rfl, rfl, ready⟩), ?_⟩
    · rintro p ⟨⟩
      exact ⟨_, by rw [modifyCell_get, if_pos rfl, found]; rfl, rfl⟩
    · rw [resident_kept found (by simp [residentOf, ready, payload])]
      exact (zero_add _).symm
  | moveOut =>
    cases ran
    obtain ⟨cell, found, consuming⟩ := holds
    refine ⟨⟨inv.claimed, inv.apart, ?_, inv.live, inv.consuming⟩, (zero_add _).symm⟩
    rintro p ⟨⟩
    exact ⟨cell, found, consuming, by rw [found]; rfl⟩
  | free =>
    cases ran
    obtain ⟨cell, found, consuming, rfl⟩ := holds
    obtain ⟨w, payload⟩ := inv.live found (.inr consuming)
    refine ⟨inv.pop_cell found (by simp [consuming]) (fun j claim => by cases claim; rfl) _ _
      (by rintro p ⟨⟩) (.inl rfl), ?_⟩
    have exchanged := resident_modifyCell
      (fun cell => { cell with state := CellState.Free, payload := none }) found
    simp only [residentOf, consuming, payload, add_zero] at exchanged
    rw [← exchanged, add_comm, payload]
    rfl

/-- A scan that has a Ready cell behind it, or still has one ahead. -/
def Sees (q : Mpsc α) (s : Scan) : Prop :=
  s.oldest ≠ none ∨ ∃ k, s.index ≤ k ∧ q.InState k .Ready

theorem Sees.step (seen : q.Sees s) : match q.scanStep s with
    | .inl s' => q.Sees s'
    | .inr found => found ≠ none := by
  simp only [scanStep]
  split
  · rename_i outside ran
    split at ran
    · cases ran
    · split at ran <;> cases ran
      · exact .inl (by simp)
      · rename_i cell at_index skipped
        rcases seen with seen | ⟨k, ahead, cell', at_k, ready⟩
        · exact .inl seen
        · by_cases here : s.index = k
          · subst here
            cases at_index.symm.trans at_k
            exact .inl fun empty => skipped ⟨ready, .inl empty⟩
          · exact .inr ⟨k, by change s.index + 1 ≤ k; omega, cell', at_k, ready⟩
  · rename_i found ran
    split at ran
    · cases ran
      rename_i outside
      rcases seen with seen | ⟨k, ahead, cell', at_k, _⟩
      · exact seen
      · have short := List.getElem?_eq_none_iff.mp outside
        have long := (List.getElem?_eq_some_iff.mp at_k).1
        omega
    · split at ran <;> cases ran

theorem Sees.push (inv : Inv q ps c)
    (owner : ps i = some (v, p)) (seen : q.Sees s) : (Mpsc.pushStep v q p).1.Sees s := by
  have kept : ∀ {k cell change}, q.cells[k]? = some cell → cell.state ≠ .Ready →
      (q.modifyCell k change).Sees s := by
    intro k cell change found unread
    rcases seen with seen | ⟨j, ahead, cell', at_j, ready⟩
    · exact .inl seen
    · refine .inr ⟨j, ahead, inState_modifyCell ⟨cell', at_j, ready⟩ ?_⟩
      rintro rfl
      cases found.symm.trans at_j
      exact unread ready
  cases p with
  | probe => exact seen
  | cas start offset =>
    simp only [Mpsc.pushStep]
    split
    · split
      · rename_i free
        obtain ⟨cell, found, free⟩ := InState.of_map free
        exact kept found (by simp [free])
      · exact seen
    · exact seen
  | fetchTicket => exact seen
  | construct | storeTicket | publish =>
    obtain ⟨cell, found, writing, _⟩ := inv.claimed owner rfl
    exact kept found (by simp [writing])

def occupied (cell : MpscCell α) : Nat := if cell.state ≠ .Free then 1 else 0

/-- What `size` will return if nothing interferes. -/
def counted (q : Mpsc α) (s : Tallying) : Nat := s.count + tally occupied (q.cells.drop s.index)

theorem counted_step (s : Tallying) : match q.sizeStep s with
    | .inl s' => q.counted s' = q.counted s
    | .inr n => n = q.counted s := by
  simp only [sizeStep]
  split
  · rename_i ran
    split at ran <;> cases ran
    rename_i cell at_index
    obtain ⟨bound, rfl⟩ := List.getElem?_eq_some_iff.mp at_index
    rw [counted, counted, List.drop_eq_getElem_cons bound, tally_cons, occupied]
    dsimp only
    split <;> omega
  · rename_i ran
    split at ran <;> cases ran
    rename_i outside
    rw [counted, List.drop_eq_nil_of_le (List.getElem?_eq_none_iff.mp outside)]
    rfl

/-- With no pop under way every resident payload sits in a Ready cell. -/
theorem Inv.ready_of_resident (inv : Inv q ps none) (filled : q.resident ≠ 0) :
    ∃ k, q.InState k .Ready := by
  by_contra unready
  refine filled (tally_zero fun cell mem => ?_)
  obtain ⟨k, found⟩ := List.getElem?_of_mem mem
  unfold residentOf
  split
  · rename_i ready _
    exact absurd ⟨k, cell, found, ready⟩ unready
  · rename_i consuming _
    have claim := inv.consuming ⟨cell, found, consuming⟩
    cases claim
  · rfl

end Mpsc

def mpscLawful (α : Type) : (mpscBackend α).Lawful where
  Inv := Mpsc.Inv
  resident := Mpsc.resident
  sees := Mpsc.Sees
  counts := Mpsc.counted
  inv_empty n pos := by
    have free : ∀ {k : Nat} {cell : MpscCell α},
        (Mpsc.empty n pos).cells[k]? = some cell → cell.state = .Free := by
      intro k cell found
      rw [List.eq_of_mem_replicate (List.mem_of_getElem? found)]
    constructor
    case claimed => intro i v p k pushing; cases pushing
    case apart => intro i j v w p r k pushing; cases pushing
    case popping => intro p popping; cases popping
    case live => intro k cell found read; simp [free found] at read
    case consuming => rintro k ⟨cell, found, consuming⟩; simp [free found] at consuming
  resident_empty n pos := by
    refine tally_zero fun cell mem => ?_
    rw [List.eq_of_mem_replicate mem]
    rfl
  push_start inv idle := inv.push_quiet _ fun w r k next cell => by cases next; cases cell
  push_next inv owner ran :=
    ⟨(pushStep inv owner ran).1,
      (pushStep inv owner ran).2.trans (zero_add _)⟩
  push_fail inv owner ran :=
    ⟨(pushStep inv owner ran).1,
      (pushStep inv owner ran).2.trans (zero_add _)⟩
  push_done inv owner ran := pushStep inv owner ran
  pop_start inv :=
    ⟨inv.claimed, inv.apart, by rintro p ⟨⟩ k ⟨⟩, inv.live, fun at_k => nomatch inv.consuming at_k⟩
  pop_next inv ran :=
    ⟨(popStep inv ran).1, ((popStep inv ran).2.trans (zero_add _)).symm⟩
  pop_none inv ran :=
    ⟨(popStep inv ran).1, ((popStep inv ran).2.trans (zero_add _)).symm⟩
  pop_some inv ran := popStep inv ran
  sees_start inv filled := by
    obtain ⟨k, ready⟩ := ready_of_resident inv filled
    exact .inr ⟨k, Nat.zero_le k, ready⟩
  sees_next := by
    intro q r r' seen ran
    have next := Mpsc.Sees.step seen
    simp only [mpscBackend, Mpsc.readyStep] at ran
    split at ran <;> cases ran
    rename_i scanned
    rwa [scanned] at next
  sees_done := by
    intro q r b seen ran
    have next := Mpsc.Sees.step seen
    simp only [mpscBackend, Mpsc.readyStep] at ran
    split at ran <;> cases ran
    rename_i scanned
    rw [scanned] at next
    exact Option.isSome_iff_ne_none.mpr next
  sees_push inv owner seen := Mpsc.Sees.push inv owner seen
  counts_start := by
    intro q ps inv zero
    by_contra filled
    obtain ⟨k, cell, found, ready⟩ := ready_of_resident inv filled
    have free := List.sum_eq_zero_iff.mp ((Nat.zero_add _).symm.trans zero) _
      (List.mem_map_of_mem (List.mem_of_getElem? found))
    simp [Mpsc.occupied, ready] at free
  counts_next := by
    intro q c c' ran
    have next := Mpsc.counted_step (q := q) c
    simp only [mpscBackend] at ran
    rwa [ran] at next
  counts_done := by
    intro q c n ran
    have next := Mpsc.counted_step (q := q) c
    simp only [mpscBackend] at ran
    rwa [ran] at next

namespace Mpsc
variable {α : Type}

theorem length_pushStep (v : α) (q : Mpsc α) (p : Push) :
    (pushStep v q p).1.cells.length = q.cells.length := by
  cases p with
  | probe | fetchTicket => rfl
  | cas =>
    simp only [pushStep]
    split
    · split
      · exact List.length_modify ..
      · rfl
    · rfl
  | construct | storeTicket | publish => exact List.length_modify ..

theorem length_popStep (q : Mpsc α) (c : Pop α) :
    (popStep q c).1.cells.length = q.cells.length := by
  cases c with
  | scan =>
    simp only [popStep]
    split <;> rfl
  | moveOut => rfl
  | consume | free => exact List.length_modify ..

theorem card_resident_le (q : Mpsc α) : Multiset.card q.resident ≤ q.cells.length := by
  rw [resident]
  induction q.cells with
  | nil => exact le_rfl
  | cons cell rest ih =>
    have one : Multiset.card (residentOf cell) ≤ 1 := by
      unfold residentOf
      split <;> simp
    rw [tally_cons, Multiset.card_add, List.length_cons]
    omega

end Mpsc

/-- The producer probe is a hint; a producer that has claimed a cell publishes it. -/
def mpscStore (α : Type) : (mpscBackend α).Store where
  Cells := List (MpscCell α) × Nat
  cells q := (Mpsc.cells q, Mpsc.publicationTicket q)
  unclaimed
    | .probe | .cas _ _ => true
    | _ => false
  start := rfl
  push_next := by
    intro v q p q' p' ran claimless
    cases p with
    | probe => cases ran; exact ⟨rfl, rfl⟩
    | cas start offset =>
      simp only [mpscBackend, Mpsc.pushStep] at ran
      split at ran
      · split at ran <;> cases ran
        · cases claimless
        · exact ⟨rfl, rfl⟩
      · cases ran
    | publish index => cases ran
    | _ => cases ran; cases claimless
  push_fail := by
    intro v q p q' ran
    cases p with
    | cas start offset =>
      simp only [mpscBackend, Mpsc.pushStep] at ran
      split at ran
      · split at ran <;> cases ran
      · cases ran; exact ⟨rfl, rfl⟩
    | _ => cases ran

def mpscBounded (α : Type) : Backend.Bounded (mpscLawful α) where
  capacity q := (Mpsc.cells q).length
  empty _ _ := List.length_replicate ..
  push := Mpsc.length_pushStep
  pop := Mpsc.length_popStep
  card_le := Mpsc.card_resident_le

end Coact
