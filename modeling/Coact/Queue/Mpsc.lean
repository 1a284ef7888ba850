import Mathlib.Algebra.Order.Group.Multiset
import Coact.Foundation.Tally
import Coact.Queue.Backend

/-! `BoundedMpscQueue`: producers claim a Free cell, construct the payload and
publish it as Ready; the single consumer scans the cells for the smallest
publication ticket. Every atomic access is a step of its own, except that the
scan reads a Ready cell's ticket together with its state: no other party moves
a cell out of Ready. -/
namespace Coact
open Foundation Function

inductive CellState where
  | Free | Writing | Ready | Consuming
  deriving DecidableEq, Repr

structure MpscCell (α : Type) where
  state : CellState
  payload : Option α
  ticket : Nat

structure Mpsc (α : Type) where
  producerProbe : Nat
  publicationTicket : Nat
  cells : List (MpscCell α)
  capacity_pos : 0 < cells.length

namespace Mpsc
variable {α : Type}

def empty (capacity : Nat) (pos : 0 < capacity) : Mpsc α where
  producerProbe := 0
  publicationTicket := 0
  cells := List.replicate capacity ⟨.Free, none, 0⟩
  capacity_pos := by rwa [List.length_replicate]

def modifyCell (q : Mpsc α) (k : Nat) (change : MpscCell α → MpscCell α) : Mpsc α :=
  { q with cells := q.cells.modify k change
           capacity_pos := by rw [List.length_modify]; exact q.capacity_pos }

inductive Push where
  | probe
  | cas (start offset : Nat)
  | construct (index : Nat)
  | fetchTicket (index : Nat)
  | storeTicket (index ticket : Nat)
  | publish (index : Nat)

/-- `push_impl`. -/
def pushStep (v : α) (q : Mpsc α) : Push → Mpsc α × (Push ⊕ Bool)
  | .probe =>
    ({ q with producerProbe := (q.producerProbe + 1) % 2 ^ 32 }, .inl (.cas q.producerProbe 0))
  | .cas start offset =>
    if offset < q.cells.length then
      let index := (start + offset) % 2 ^ 32 % q.cells.length
      if (q.cells[index]?.map MpscCell.state) = some .Free then
        (q.modifyCell index fun cell => { cell with state := .Writing }, .inl (.construct index))
      else (q, .inl (.cas start (offset + 1)))
    else (q, .inr false)
  | .construct index =>
    (q.modifyCell index fun cell => { cell with payload := some v }, .inl (.fetchTicket index))
  | .fetchTicket index =>
    ({ q with publicationTicket := (q.publicationTicket + 1) % 2 ^ 64 },
      .inl (.storeTicket index q.publicationTicket))
  | .storeTicket index ticket =>
    (q.modifyCell index fun cell => { cell with ticket := ticket }, .inl (.publish index))
  | .publish index =>
    (q.modifyCell index fun cell => { cell with state := .Ready }, .inr true)

structure Scan where
  index : Nat
  oldest : Option Nat
  oldestTicket : Nat

def Scan.start : Scan := ⟨0, none, 0⟩

/-- One cell of `oldest_ready_index`. -/
def scanStep (q : Mpsc α) (s : Scan) : Scan ⊕ Option Nat :=
  match q.cells[s.index]? with
  | none => .inr s.oldest
  | some cell =>
    if cell.state = .Ready ∧ (s.oldest = none ∨ cell.ticket < s.oldestTicket) then
      .inl ⟨s.index + 1, some s.index, cell.ticket⟩
    else .inl { s with index := s.index + 1 }

def readyStep (q : Mpsc α) (s : Scan) : Scan ⊕ Bool :=
  match q.scanStep s with
  | .inl s' => .inl s'
  | .inr found => .inr found.isSome

structure Tallying where
  index : Nat
  count : Nat

/-- One cell of `size`. -/
def sizeStep (q : Mpsc α) (s : Tallying) : Tallying ⊕ Nat :=
  match q.cells[s.index]? with
  | none => .inr s.count
  | some cell => .inl ⟨s.index + 1, if cell.state ≠ .Free then s.count + 1 else s.count⟩

inductive Front where
  | scan (s : Scan)
  | copy (index : Nat)

def frontStep (q : Mpsc α) : Front → Front ⊕ Option α
  | .scan s =>
    match q.scanStep s with
    | .inl s' => .inl (.scan s')
    | .inr none => .inr none
    | .inr (some index) => .inl (.copy index)
  | .copy index => .inr (q.cells[index]?.bind MpscCell.payload)

inductive Pop (α : Type) where
  | scan (s : Scan)
  | consume (index : Nat)
  | moveOut (index : Nat)
  | free (index : Nat) (v : Option α)

/-- `pop_ready`. -/
def popStep (q : Mpsc α) : Pop α → Mpsc α × (Pop α ⊕ Option α)
  | .scan s =>
    match q.scanStep s with
    | .inl s' => (q, .inl (.scan s'))
    | .inr none => (q, .inr none)
    | .inr (some index) => (q, .inl (.consume index))
  | .consume index =>
    (q.modifyCell index fun cell => { cell with state := .Consuming }, .inl (.moveOut index))
  | .moveOut index => (q, .inl (.free index (q.cells[index]?.bind MpscCell.payload)))
  | .free index v =>
    (q.modifyCell index fun cell => { cell with state := .Free, payload := none }, .inr v)

theorem modifyCell_get (q : Mpsc α) (k j : Nat) (change : MpscCell α → MpscCell α) :
    (q.modifyCell k change).cells[j]? =
      if k = j then q.cells[j]?.map change else q.cells[j]? := by
  simp only [modifyCell, List.getElem?_modify]
  split <;> simp

theorem modifyCell_origin {q : Mpsc α}
    {cell : MpscCell α} (there : (q.modifyCell k change).cells[j]? = some cell) :
    (k = j ∧ ∃ before, q.cells[j]? = some before ∧ change before = cell) ∨
      (k ≠ j ∧ q.cells[j]? = some cell) := by
  rw [modifyCell_get] at there
  split at there
  · rename_i here
    exact .inl ⟨here, Option.map_eq_some_iff.mp there⟩
  · rename_i other
    exact .inr ⟨other, there⟩

def residentOf (cell : MpscCell α) : Multiset α :=
  match cell.state, cell.payload with
  | .Ready, some v => {v}
  | .Consuming, some v => {v}
  | _, _ => 0

def resident (q : Mpsc α) : Multiset α := tally residentOf q.cells

theorem resident_modifyCell {q : Mpsc α} {cell : MpscCell α}
    (change : MpscCell α → MpscCell α) (found : q.cells[k]? = some cell) :
    (q.modifyCell k change).resident + residentOf cell = q.resident + residentOf (change cell) :=
  tally_modify change found

theorem resident_kept {q : Mpsc α} {cell : MpscCell α} (found : q.cells[k]? = some cell)
    (same : residentOf (change cell) = residentOf cell) :
    (q.modifyCell k change).resident = q.resident := by
  have exchanged := resident_modifyCell change found
  rw [same] at exchanged
  exact add_right_cancel exchanged

/-- The cell a push has claimed. -/
def Push.cell : Push → Option Nat
  | .probe | .cas _ _ => none
  | .construct k | .fetchTicket k | .storeTicket k _ | .publish k => some k

def Push.constructed : Push → Prop
  | .probe | .cas _ _ | .construct _ => False
  | .fetchTicket _ | .storeTicket _ _ | .publish _ => True

/-- The cell a pop has taken out of Ready. -/
def Pop.cell : Pop α → Option Nat
  | .scan _ | .consume _ => none
  | .moveOut k | .free k _ => some k

def InState (q : Mpsc α) (k : Nat) (state : CellState) : Prop :=
  ∃ cell, q.cells[k]? = some cell ∧ cell.state = state

def Pop.Holds (q : Mpsc α) : Pop α → Prop
  | .scan s => ∀ k, s.oldest = some k → q.InState k .Ready
  | .consume k => q.InState k .Ready
  | .moveOut k => q.InState k .Consuming
  | .free k v => ∃ cell, q.cells[k]? = some cell ∧ cell.state = .Consuming ∧ cell.payload = v

structure Inv (q : Mpsc α) (ps : Nat → Option (α × Push)) (c : Option (Pop α)) : Prop where
  claimed : ∀ {i v p k}, ps i = some (v, p) → p.cell = some k →
    ∃ cell, q.cells[k]? = some cell ∧ cell.state = .Writing ∧
      (p.constructed → cell.payload = some v)
  apart : ∀ {i j v w p r k}, ps i = some (v, p) → ps j = some (w, r) →
    p.cell = some k → r.cell = some k → i = j
  popping : ∀ p, c = some p → p.Holds q
  live : ∀ {k : Nat} {cell : MpscCell α}, q.cells[k]? = some cell → cell.state = .Ready ∨ cell.state = .Consuming →
    ∃ v, cell.payload = some v
  consuming : ∀ {k : Nat}, q.InState k .Consuming → c.bind Pop.cell = some k

section
variable {q : Mpsc α}

/-- A producer may move on without touching a cell as long as it claims no new one. -/
theorem Inv.push_quiet (inv : Inv q ps c) (next : Option (α × Push))
    (smaller : ∀ w r k, next = some (w, r) → r.cell = some k →
      ∃ p, ps i = some (w, p) ∧ p.cell = some k ∧ (r.constructed → p.constructed)) :
    Inv q (update ps i next) c where
  claimed := by
    intro j w r k at_j cell
    by_cases same : j = i
    · subst same
      rw [update_self] at at_j
      obtain ⟨p, owner, owned, constructed⟩ := smaller w r k at_j cell
      obtain ⟨found, at_k, writing, payload⟩ := inv.claimed owner owned
      exact ⟨found, at_k, writing, fun done => payload (constructed done)⟩
    · rw [update_of_ne same] at at_j
      exact inv.claimed at_j cell
  apart := by
    have origin : ∀ {j w r k}, update ps i next j = some (w, r) → r.cell = some k →
        ∃ p, ps j = some (w, p) ∧ p.cell = some k := by
      intro j w r k at_j cell
      by_cases same : j = i
      · subst same
        rw [update_self] at at_j
        obtain ⟨p, owner, owned, _⟩ := smaller w r k at_j cell
        exact ⟨p, owner, owned⟩
      · rw [update_of_ne same] at at_j
        exact ⟨r, at_j, cell⟩
    intro a b w u r t k at_a at_b left right
    obtain ⟨_, at_a, left⟩ := origin at_a left
    obtain ⟨_, at_b, right⟩ := origin at_b right
    exact inv.apart at_a at_b left right
  popping := inv.popping
  live := inv.live
  consuming := inv.consuming

theorem inState_modifyCell {state : CellState}
    (at_j : q.InState j state) (other : k ≠ j) : (q.modifyCell k change).InState j state := by
  obtain ⟨cell, found, same⟩ := at_j
  exact ⟨cell, by rw [modifyCell_get, if_neg other]; exact found, same⟩

theorem Pop.holds_modifyCell {pop : Pop α} {cell : MpscCell α} (found : q.cells[k]? = some cell)
    (unread : cell.state ≠ .Ready ∧ cell.state ≠ .Consuming) (holds : pop.Holds q) :
    pop.Holds (q.modifyCell k change) := by
  have other : ∀ {j state}, q.InState j state → state = .Ready ∨ state = .Consuming → k ≠ j := by
    rintro j state ⟨cell', found', rfl⟩ read rfl
    cases found.symm.trans found'
    rcases read with read | read
    · exact unread.1 read
    · exact unread.2 read
  cases pop with
  | scan =>
    intro j oldest
    exact inState_modifyCell (holds j oldest) (other (holds j oldest) (.inl rfl))
  | consume => exact inState_modifyCell holds (other holds (.inl rfl))
  | moveOut => exact inState_modifyCell holds (other holds (.inr rfl))
  | free j =>
    obtain ⟨cell', found', read, payload⟩ := holds
    have distinct : k ≠ j := other ⟨cell', found', read⟩ (.inr rfl)
    exact ⟨cell', by rw [modifyCell_get, if_neg distinct]; exact found', read, payload⟩

/-- A producer changes a Free cell, which it thereby claims, or the cell it has
claimed; publishing ends the claim. -/
theorem Inv.push_cell (inv : Inv q ps c) {cell : MpscCell α} (found : q.cells[k]? = some cell)
    (mine : cell.state = .Free ∨ ∃ v p, ps i = some (v, p) ∧ p.cell = some k)
    (change : MpscCell α → MpscCell α) (next : Option (α × Push))
    (kept : ∀ w r, next = some (w, r) → r.cell = some k ∧ (change cell).state = .Writing ∧
      (r.constructed → (change cell).payload = some w))
    (published : (change cell).state = .Writing ∨
      (change cell).state = .Ready ∧ ∃ w, (change cell).payload = some w) :
    Inv (q.modifyCell k change) (update ps i next) c := by
  have unread : cell.state ≠ .Ready ∧ cell.state ≠ .Consuming := by
    rcases mine with free | ⟨v, p, owner, owned⟩
    · simp [free]
    · obtain ⟨cell', found', writing, _⟩ := inv.claimed owner owned
      cases found.symm.trans found'
      simp [writing]
  have alone : ∀ {j w r}, j ≠ i → ps j = some (w, r) → r.cell ≠ some k := by
    intro j w r distinct at_j same
    rcases mine with free | ⟨v, p, owner, owned⟩
    · obtain ⟨cell', found', writing, _⟩ := inv.claimed at_j same
      cases found.symm.trans found'
      rw [free] at writing
      cases writing
    · exact distinct (inv.apart at_j owner same owned)
  have at_k : (q.modifyCell k change).cells[k]? = some (change cell) := by
    rw [modifyCell_get, if_pos rfl, found]
    rfl
  constructor
  case claimed =>
    intro j w r l at_j owned
    by_cases same : j = i
    · subst same
      rw [update_self] at at_j
      obtain ⟨claim, writing, payload⟩ := kept w r at_j
      cases claim.symm.trans owned
      exact ⟨change cell, at_k, writing, payload⟩
    · rw [update_of_ne same] at at_j
      have distinct : k ≠ l := fun eq => alone same at_j (eq ▸ owned)
      obtain ⟨cell', found', rest⟩ := inv.claimed at_j owned
      exact ⟨cell', by rw [modifyCell_get, if_neg distinct]; exact found', rest⟩
  case apart =>
    intro a b w u r t l at_a at_b left right
    by_cases sameA : a = i <;> by_cases sameB : b = i
    · rw [sameA, sameB]
    · subst sameA
      rw [update_self] at at_a
      rw [update_of_ne sameB] at at_b
      exact absurd (right.trans (left.symm.trans (kept w r at_a).1)) (alone sameB at_b)
    · subst sameB
      rw [update_self] at at_b
      rw [update_of_ne sameA] at at_a
      exact absurd (left.trans (right.symm.trans (kept u t at_b).1)) (alone sameA at_a)
    · rw [update_of_ne sameA] at at_a
      rw [update_of_ne sameB] at at_b
      exact inv.apart at_a at_b left right
  case popping =>
    intro pop at_c
    exact Pop.holds_modifyCell found unread (inv.popping pop at_c)
  case live =>
    intro l cell' found' read
    rcases modifyCell_origin found' with ⟨rfl, before, there, rfl⟩ | ⟨-, found'⟩
    · cases Option.some.inj (found.symm.trans there)
      rcases published with writing | ⟨_, payload⟩
      · simp [writing] at read
      · exact payload
    · exact inv.live found' read
  case consuming =>
    rintro l ⟨cell', found', consuming⟩
    rcases modifyCell_origin found' with ⟨rfl, before, there, rfl⟩ | ⟨-, found'⟩
    · cases Option.some.inj (found.symm.trans there)
      rcases published with writing | ⟨ready, _⟩
      · rw [writing] at consuming; cases consuming
      · rw [ready] at consuming; cases consuming
    · exact inv.consuming ⟨cell', found', consuming⟩

end

end Mpsc

def mpscBackend (α : Type) : Backend α where
  Q := Mpsc α
  Push := Mpsc.Push
  Ready := Mpsc.Scan
  Size := Mpsc.Tallying
  Front := Mpsc.Front
  Pop := Mpsc.Pop α
  empty := Mpsc.empty
  tryPush := .probe
  pushStep := Mpsc.pushStep
  hasReady := .start
  readyStep := Mpsc.readyStep
  size := ⟨0, 0⟩
  sizeStep := Mpsc.sizeStep
  front := .scan .start
  frontStep := Mpsc.frontStep
  tryPop := .scan .start
  popStep := Mpsc.popStep

end Coact
