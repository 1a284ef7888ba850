import Coact.Foundation.Program
import Coact.Queue.Mpsc
import Coact.Queue.Ring

/-! The queue operations as functions: what each of them does when nothing
interferes. For `BoundedMpscQueue` these are the loops of `push_impl` and
`oldest_ready_index`; the accesses of the concurrent model, run alone, compute
exactly these functions. -/
namespace Coact
open Foundation

structure Backend.Alone {α : Type} (B : Backend α) where
  tryPush : B.Q → α → B.Q × Bool
  tryPop : B.Q → B.Q × Option α
  front : B.Q → Option α
  hasReady : B.Q → Bool
  push_alone : ∀ q v, Finishes (B.pushStep v) q B.tryPush (tryPush q v)
  pop_alone : ∀ q, Finishes B.popStep q B.tryPop (tryPop q)
  front_alone : ∀ q, Finishes (fun q p => (q, B.frontStep q p)) q B.front (q, front q)
  ready_alone : ∀ q, Finishes (fun q p => (q, B.readyStep q p)) q B.hasReady (q, hasReady q)

def ringAlone (α : Type) : (ringBackend α).Alone where
  tryPush q v := Ring.pushObserved q v
  tryPop q := Ring.tryPop q
  front q := Ring.front q
  hasReady q := Ring.hasReady q
  push_alone _ _ := .last rfl
  pop_alone _ := .last rfl
  front_alone _ := .last rfl
  ready_alone _ := .last rfl

namespace Mpsc
variable {α : Type}

/-- The cell tried at an offset of the probe sequence; the sum is a `uint32_t`. -/
def probed (q : Mpsc α) (start offset : Nat) : Nat := (start + offset) % 2 ^ 32 % q.cells.length

def isFree (q : Mpsc α) (k : Nat) : Bool := q.cells[k]?.map MpscCell.state = some .Free

/-- The loop of `push_impl` over the last `todo` offsets: the first Free cell. -/
def firstFree (q : Mpsc α) (start : Nat) : (todo offset : Nat) → Option Nat
  | 0, _ => none
  | todo + 1, offset =>
    if q.isFree (q.probed start offset) then some (q.probed start offset)
    else q.firstFree start todo (offset + 1)

def probedOnce (q : Mpsc α) : Mpsc α := { q with producerProbe := (q.producerProbe + 1) % 2 ^ 32 }

/-- A payload constructed in cell `k` and published under the next ticket. -/
def published (q : Mpsc α) (k : Nat) (v : α) : Mpsc α :=
  { q.modifyCell k fun _ => ⟨.Ready, some v, q.publicationTicket⟩ with
    publicationTicket := (q.publicationTicket + 1) % 2 ^ 64 }

def tryPush (q : Mpsc α) (v : α) : Mpsc α × Bool :=
  match q.firstFree q.producerProbe q.cells.length 0 with
  | none => (q.probedOnce, false)
  | some k => (q.probedOnce.published k v, true)

/-- The loop of `oldest_ready_index` over the last `todo` cells. -/
def scanFrom (q : Mpsc α) : (todo : Nat) → Scan → Option Nat
  | 0, s => s.oldest
  | todo + 1, s =>
    match q.scanStep s with
    | .inl s' => q.scanFrom todo s'
    | .inr found => found

def oldestReadyIndex (q : Mpsc α) : Option Nat := q.scanFrom q.cells.length .start

def freed (q : Mpsc α) (k : Nat) : Mpsc α :=
  q.modifyCell k fun cell => { cell with state := .Free, payload := none }

def tryPop (q : Mpsc α) : Mpsc α × Option α :=
  match q.oldestReadyIndex with
  | none => (q, none)
  | some k => (q.freed k, q.cells[k]?.bind MpscCell.payload)

def front (q : Mpsc α) : Option α :=
  match q.oldestReadyIndex with
  | none => none
  | some k => q.cells[k]?.bind MpscCell.payload

theorem modifyCell_modifyCell (q : Mpsc α) (k : Nat) (f g : MpscCell α → MpscCell α) :
    (q.modifyCell k f).modifyCell k g = q.modifyCell k (g ∘ f) := by
  simp only [modifyCell, List.modify_modify_eq]

theorem construct_alone (q : Mpsc α) (v : α) (k : Nat) :
    Finishes (pushStep v) (q.modifyCell k fun cell => { cell with state := .Writing })
      (.construct k) (q.published k v, true) := by
  refine .next rfl (.next rfl (.next rfl (.last ?_)))
  simp only [pushStep, published, modifyCell, List.modify_modify_eq]
  rfl

theorem firstFree_alone (q : Mpsc α) (v : α) (start : Nat) {todo offset : Nat}
    (rest : offset + todo = q.cells.length) :
    Finishes (pushStep v) q (.cas start offset) (match q.firstFree start todo offset with
      | none => (q, false)
      | some k => (q.published k v, true)) := by
  induction todo generalizing offset with
  | zero =>
    refine .last ?_
    simp only [pushStep, firstFree, if_neg (show ¬ offset < q.cells.length by omega)]
  | succ todo ih =>
    rw [firstFree]
    by_cases free : q.isFree (q.probed start offset) = true
    · rw [if_pos free]
      refine .next ?_ (construct_alone q v _)
      have there : q.cells[(start + offset) % 2 ^ 32 % q.cells.length]?.map MpscCell.state =
          some .Free := of_decide_eq_true free
      simp only [pushStep, if_pos (show offset < q.cells.length by omega), there, if_true]
      rfl
    · rw [if_neg free]
      refine .next ?_ (ih (by omega))
      have there : ¬ q.cells[(start + offset) % 2 ^ 32 % q.cells.length]?.map MpscCell.state =
          some .Free := fun eq => free (decide_eq_true eq)
      simp only [pushStep, if_pos (show offset < q.cells.length by omega), if_neg there]

theorem firstFree_probedOnce (q : Mpsc α) (start todo offset : Nat) :
    q.probedOnce.firstFree start todo offset = q.firstFree start todo offset := by
  induction todo generalizing offset with
  | zero => rfl
  | succ _ ih =>
    rw [firstFree, firstFree, ih]
    rfl

theorem tryPush_alone (q : Mpsc α) (v : α) : Finishes (pushStep v) q .probe (q.tryPush v) := by
  have rest := firstFree_alone q.probedOnce v q.producerProbe (Nat.zero_add q.cells.length)
  rw [firstFree_probedOnce] at rest
  exact .next rfl rest

theorem scanStep_inside {q : Mpsc α} (inside : s.index < q.cells.length) :
    ∃ s', q.scanStep s = .inl s' ∧ s'.index = s.index + 1 := by
  simp only [scanStep, List.getElem?_eq_getElem inside]
  split
  · exact ⟨_, rfl, rfl⟩
  · exact ⟨_, rfl, rfl⟩

theorem scanStep_end {q : Mpsc α} (past : q.cells.length ≤ s.index) :
    q.scanStep s = .inr s.oldest := by
  simp only [scanStep, List.getElem?_eq_none past]

/-- A program that starts with a scan goes on, when run alone, with the result of
the whole loop. -/
theorem scan_alone {P R : Type} {step : Mpsc α → P → Mpsc α × (P ⊕ R)} (point : Scan → P)
    {found : Option Nat} {out : Mpsc α × R}
    (next : ∀ s s', q.scanStep s = .inl s' → step q (point s) = (q, .inl (point s')))
    (done : ∀ s, q.scanStep s = .inr found → Finishes step q (point s) out)
    (todo : Nat) (rest : s.index + todo = q.cells.length)
    (ended : q.scanFrom todo s = found) : Finishes step q (point s) out := by
  induction todo generalizing s with
  | zero =>
    refine done s ?_
    rw [scanStep_end (by omega), ← ended]
    rfl
  | succ todo ih =>
    obtain ⟨s', scanned, index⟩ := scanStep_inside (show s.index < q.cells.length by omega)
    refine .next (next s s' scanned) (ih (by omega) ?_)
    rw [← ended, scanFrom, scanned]

theorem tryPop_alone (q : Mpsc α) : Finishes popStep q (.scan .start) q.tryPop := by
  refine scan_alone Pop.scan ?_ ?_ q.cells.length (Nat.zero_add _) rfl
  · intro s s' scanned
    simp only [popStep, scanned]
  · intro s scanned
    rw [tryPop]
    cases found : q.oldestReadyIndex with
    | none =>
      rw [show q.scanFrom q.cells.length .start = none from found] at scanned
      exact .last (by simp only [popStep, scanned])
    | some k =>
      rw [show q.scanFrom q.cells.length .start = some k from found] at scanned
      have taken : popStep q (.scan s) = (q, .inl (.consume k)) := by
        simp only [popStep, scanned]
      refine .next taken (.next rfl (.next rfl (.last ?_)))
      simp only [popStep, modifyCell_modifyCell, freed, Prod.mk.injEq, Sum.inr.injEq]
      refine ⟨rfl, ?_⟩
      rw [modifyCell_get, if_pos rfl]
      cases q.cells[k]? <;> rfl

theorem front_alone (q : Mpsc α) :
    Finishes (fun q p => (q, frontStep q p)) q (.scan .start) (q, q.front) := by
  refine scan_alone Front.scan ?_ ?_ q.cells.length (Nat.zero_add _) rfl
  · intro s s' scanned
    simp only [frontStep, scanned]
  · intro s scanned
    rw [front]
    cases found : q.oldestReadyIndex with
    | none =>
      rw [show q.scanFrom q.cells.length .start = none from found] at scanned
      exact .last (by simp only [frontStep, scanned])
    | some k =>
      rw [show q.scanFrom q.cells.length .start = some k from found] at scanned
      have taken : frontStep q (.scan s) = .inl (.copy k) := by
        simp only [frontStep, scanned]
      exact .next (congrArg (Prod.mk q) taken) (.last rfl)

theorem hasReady_alone (q : Mpsc α) :
    Finishes (fun q p => (q, readyStep q p)) q Scan.start (q, q.oldestReadyIndex.isSome) := by
  refine scan_alone id ?_ ?_ q.cells.length (Nat.zero_add _) rfl
  · intro s s' scanned
    simp only [readyStep, id, scanned]
  · intro s scanned
    exact .last (by simp only [readyStep, id, scanned]; rfl)

section
variable {q : Mpsc α}

/-- What a scan of an undisturbed queue knows about the cells before its index. -/
structure Scanned (q : Mpsc α) (s : Scan) : Prop where
  none : s.oldest = none → ∀ j < s.index, ¬ q.InState j .Ready
  found : ∀ k, s.oldest = some k →
    ∃ cell, q.cells[k]? = some cell ∧ cell.state = .Ready ∧ cell.ticket = s.oldestTicket
  least : s.oldest ≠ Option.none → ∀ (j : Nat) cell, j < s.index → q.cells[j]? = some cell →
    cell.state = .Ready → s.oldestTicket ≤ cell.ticket

theorem Scanned.step (scanned : Scanned q s) (ran : q.scanStep s = .inl s') : Scanned q s' := by
  simp only [scanStep] at ran
  split at ran
  · cases ran
  · rename_i cell here
    have split {j : Nat} (below : j < s.index + 1) : j < s.index ∨ j = s.index := by omega
    split at ran
    · rename_i better
      cases ran
      constructor
      case none => intro never; cases never
      case found =>
        intro k same
        cases same
        exact ⟨cell, here, better.1, rfl⟩
      case least =>
        intro _ j cell' below there ready
        rcases split below with before | rfl
        · rcases better.2 with empty | smaller
          · exact (scanned.none empty j before ⟨cell', there, ready⟩).elim
          · by_cases empty : s.oldest = Option.none
            · exact (scanned.none empty j before ⟨cell', there, ready⟩).elim
            · exact Nat.le_of_lt (Nat.lt_of_lt_of_le smaller
                (scanned.least empty j cell' before there ready))
        · cases here.symm.trans there
          exact le_rfl
    · rename_i worse
      cases ran
      constructor
      case none =>
        rintro empty j below ⟨cell', there, ready⟩
        rcases split below with before | rfl
        · exact scanned.none empty j before ⟨cell', there, ready⟩
        · cases here.symm.trans there
          exact worse ⟨ready, .inl empty⟩
      case found => exact scanned.found
      case least =>
        intro some j cell' below there ready
        rcases split below with before | rfl
        · exact scanned.least some j cell' before there ready
        · cases here.symm.trans there
          exact not_lt.mp fun smaller => worse ⟨ready, .inr smaller⟩

theorem scanned_scanFrom (scanned : Scanned q s) (rest : s.index + todo = q.cells.length) :
    ∃ s', Scanned q s' ∧ s'.index = q.cells.length ∧ q.scanFrom todo s = s'.oldest := by
  induction todo generalizing s with
  | zero => exact ⟨s, scanned, rest, rfl⟩
  | succ todo ih =>
    obtain ⟨s', ran, index⟩ := scanStep_inside (show s.index < q.cells.length by omega)
    rw [scanFrom, ran]
    exact ih (scanned.step ran) (by omega)

theorem scanned_oldestReadyIndex (q : Mpsc α) :
    ∃ s, Scanned q s ∧ s.index = q.cells.length ∧ q.oldestReadyIndex = s.oldest := by
  have start : Scanned q .start :=
    ⟨fun _ j below => (Nat.not_lt_zero j below).elim, fun k never => (by cases never),
      fun never => (never rfl).elim⟩
  exact scanned_scanFrom start (Nat.zero_add q.cells.length)

theorem oldestReadyIndex_ready (found : q.oldestReadyIndex = some k) : q.InState k .Ready := by
  obtain ⟨s, scanned, -, oldest⟩ := scanned_oldestReadyIndex q
  obtain ⟨cell, there, ready, -⟩ := scanned.found k (oldest.symm.trans found)
  exact ⟨cell, there, ready⟩

theorem oldestReadyIndex_exists (ready : q.InState k .Ready) :
    ∃ j, q.oldestReadyIndex = some j := by
  obtain ⟨s, scanned, index, oldest⟩ := scanned_oldestReadyIndex q
  have ⟨cell, there, _⟩ := ready
  have inside : k < s.index := index ▸ (List.getElem?_eq_some_iff.mp there).1
  cases found : s.oldest with
  | none => exact (scanned.none found k inside ready).elim
  | some j => exact ⟨j, oldest.trans found⟩

theorem oldestReadyIndex_least {cell : MpscCell α} (here : q.cells[k]? = some cell)
    (ready : cell.state = .Ready)
    (least : ∀ (j : Nat) cell', j ≠ k → q.cells[j]? = some cell' → cell'.state = .Ready →
      cell.ticket < cell'.ticket) : q.oldestReadyIndex = some k := by
  obtain ⟨s, scanned, index, found⟩ := scanned_oldestReadyIndex q
  have inside : k < s.index := index ▸ (List.getElem?_eq_some_iff.mp here).1
  rw [found]
  cases oldest : s.oldest with
  | none => exact (scanned.none oldest k inside ⟨cell, here, ready⟩).elim
  | some j =>
    obtain ⟨cell', there, ready', ticket⟩ := scanned.found j oldest
    by_contra other
    have apart : j ≠ k := fun same => other (congrArg some same)
    have smaller := least j cell' apart there ready'
    have bound := scanned.least (by rw [oldest]; simp) k cell inside here ready
    omega

end

end Mpsc

def mpscAlone (α : Type) : (mpscBackend α).Alone where
  tryPush q v := Mpsc.tryPush q v
  tryPop q := Mpsc.tryPop q
  front q := Mpsc.front q
  hasReady q := (Mpsc.oldestReadyIndex q).isSome
  push_alone := Mpsc.tryPush_alone
  pop_alone := Mpsc.tryPop_alone
  front_alone := Mpsc.front_alone
  ready_alone := Mpsc.hasReady_alone

end Coact
