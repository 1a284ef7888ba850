import Coact.Queue.Producers
import Coact.Queue.Sequential

/-! Conservation of payloads in `BoundedMpscQueue`: a payload whose push returned
true is delivered once or resident once, cells that are being written belong to one
push each, and the consumer gets at every Ready payload whatever the producers do. -/
namespace Coact.Mpsc
open Foundation
variable {α : Type}

/-- One if the push has returned true. -/
def Call.accepted : Call α → Nat
  | .returned _ true => 1
  | _ => 0

/-- The copies of payload `i` in a Ready cell, and in a cell a pop has taken. -/
def readyOf (i : Nat) (cell : MpscCell (Payload α)) : Nat :=
  if cell.state = .Ready ∧ cell.payload.map Payload.id = some i then 1 else 0

def takenOf (i : Nat) (cell : MpscCell (Payload α)) : Nat :=
  if cell.state = .Consuming ∧ cell.payload.map Payload.id = some i then 1 else 0

theorem countP_residentOf (i : Nat) (cell : MpscCell (Payload α)) :
    (residentOf cell).countP (fun x => x.id = i) = readyOf i cell + takenOf i cell := by
  obtain ⟨state, payload, ticket⟩ := cell
  cases payload with
  | none => cases state <;> rfl
  | some x =>
    have one : Multiset.countP (fun y : Payload α => y.id = i) {x} = if x.id = i then 1 else 0 := by
      rw [← Multiset.cons_zero, Multiset.countP_cons, Multiset.countP_zero, Nat.zero_add]
    cases state <;> simp [residentOf, readyOf, takenOf, one]

theorem countP_resident (i : Nat) (q : Mpsc (Payload α)) :
    q.resident.countP (fun x => x.id = i) =
      tally (readyOf i) q.cells + tally (takenOf i) q.cells := by
  rw [resident]
  induction q.cells with
  | nil => rfl
  | cons cell rest ih =>
    rw [tally_cons, tally_cons, tally_cons, Multiset.countP_add, ih, countP_residentOf]
    omega

theorem mem_resident {q : Mpsc α} : x ∈ q.resident ↔
    ∃ cell ∈ q.cells, (cell.state = .Ready ∨ cell.state = .Consuming) ∧ cell.payload = some x := by
  have one (cell : MpscCell α) : x ∈ residentOf cell ↔
      (cell.state = .Ready ∨ cell.state = .Consuming) ∧ cell.payload = some x := by
    obtain ⟨state, payload, ticket⟩ := cell
    cases payload with
    | none => cases state <;> simp [residentOf]
    | some => cases state <;> simp [residentOf, eq_comm]
  rw [resident]
  induction q.cells with
  | nil => simp
  | cons _ _ ih => simp [tally_cons, one, ih]

namespace World
variable {w : World α}

/-- The books of the queue: every accepted payload is there once, and nothing else is. -/
structure Ledger (w : World α) : Prop where
  balance : ∀ i, w.delivered.countP (fun x => x.id = i) +
    w.queue.resident.countP (fun x => x.id = i) = weightAt Call.accepted w.pushes i
  genuine : ∀ x, x ∈ w.delivered ∨ x ∈ w.queue.resident →
    w.pushes[x.id]? = some (.returned x.value true)

theorem coe_popped (out : Pop (Payload α) ⊕ Option (Payload α)) :
    (popped out : Multiset (Payload α)) = popTakes out := by
  rcases out with _ | _ | x <;> rfl

variable {p : Push}

theorem countP_pushAdds (i j : Nat) (v : α) (out : Push ⊕ Bool) :
    (pushAdds (⟨i, v⟩ : Payload α) out).countP (fun x => x.id = j) =
      if j = i then (Call.next v out).accepted else 0 := by
  rcases out with p' | accepted
  · exact (ite_self 0).symm
  · cases accepted with
    | false => exact (ite_self 0).symm
    | true =>
      rw [pushAdds, ← Multiset.cons_zero, Multiset.countP_cons, Multiset.countP_zero, Nat.zero_add]
      exact if_congr eq_comm rfl rfl

theorem mem_pushAdds {x y : Payload α} {out : Push ⊕ Bool} (added : y ∈ pushAdds x out) :
    y = x ∧ out = .inr true := by
  rcases out with p' | accepted
  · exact (Multiset.notMem_zero y added).elim
  · cases accepted with
    | false => exact (Multiset.notMem_zero y added).elim
    | true => exact ⟨Multiset.mem_singleton.mp added, rfl⟩

theorem Ledger.producer (ledger : Ledger w) (ok : w.QueueOk)
    (found : w.pushes[i]? = some (.running v p)) :
    Ledger (w.produced i v (pushStep ⟨i, v⟩ w.queue p)) := by
  obtain ⟨⟨q', out⟩, moved⟩ : ∃ next, pushStep ⟨i, v⟩ w.queue p = next := ⟨_, rfl⟩
  have grown := (Inv.pushStep ok (under_running found) moved).2
  rw [moved]
  have kept {x : Payload α} (there : x ∈ w.delivered ∨ x ∈ w.queue.resident) :
      (w.pushes.set i (.next v out))[x.id]? = some (.returned x.value true) :=
    getElem?_set_other found (ledger.genuine x there) (by simp)
  constructor
  case balance =>
    intro j
    change w.delivered.countP _ + q'.resident.countP _ =
      weightAt Call.accepted (w.pushes.set i (.next v out)) j
    have balance := ledger.balance j
    rw [grown, Multiset.countP_add, weightAt_set found, countP_pushAdds]
    split
    · rename_i here
      have before : weightAt Call.accepted w.pushes i = 0 := weightAt_found found
      rw [here] at balance ⊢
      omega
    · rwa [Nat.zero_add]
  case genuine =>
    rintro x (delivered | resident)
    · exact kept (.inl delivered)
    · change x ∈ q'.resident at resident
      rw [grown, Multiset.mem_add] at resident
      rcases resident with added | old
      · obtain ⟨rfl, rfl⟩ := mem_pushAdds added
        exact getElem?_set_found found _
      · exact kept (.inr old)

theorem Ledger.consumer (ledger : Ledger w) (ok : w.QueueOk)
    (busy : w.pop = some c) : Ledger (w.consumed (popStep w.queue c)) := by
  rw [QueueOk, busy] at ok
  obtain ⟨⟨q', out⟩, moved⟩ : ∃ next, popStep w.queue c = next := ⟨_, rfl⟩
  have taken := (Inv.popStep ok moved).2
  rw [← coe_popped] at taken
  rw [moved]
  constructor
  case balance =>
    intro j
    have balance := ledger.balance j
    rw [taken, Multiset.countP_add, Multiset.coe_countP] at balance
    simp only [consumed, List.countP_append]
    omega
  case genuine =>
    rintro x (delivered | resident)
    · rcases List.mem_append.mp delivered with old | new
      · exact ledger.genuine x (.inl old)
      · refine ledger.genuine x (.inr ?_)
        rw [taken]
        exact Multiset.mem_add.mpr (.inl (Multiset.mem_coe.mpr new))
    · refine ledger.genuine x (.inr ?_)
      rw [taken]
      exact Multiset.mem_add.mpr (.inr resident)

theorem Ledger.step (ledger : Ledger w) (ok : w.QueueOk) (move : Moves w w') : Ledger w' := by
  cases move with
  | push v =>
    refine ⟨fun i => ?_, fun x there => getElem?_append_found _ (ledger.genuine x there)⟩
    have light : Call.accepted (Call.running v .probe) = 0 := rfl
    exact (ledger.balance i).trans (weightAt_append light).symm
  | producer _ _ _ found => exact ledger.producer ok found
  | tryPop => exact ⟨ledger.balance, ledger.genuine⟩
  | consumer _ busy => exact ledger.consumer ok busy

theorem Reachable.ledger {capacity : Nat} (reached : Reachable capacity w) : Ledger w := by
  have both := reached.invariant (P := fun w => w.QueueOk ∧ Ledger w)
    (fun pos => ⟨Reachable.queueOk ⟨pos, .refl⟩, ?_⟩)
    fun holds move => ⟨holds.1.step move, holds.2.step holds.1 move⟩
  · exact both.2
  · have nothing : (empty capacity pos : Mpsc (Payload α)).resident = 0 :=
      (mpscLawful (Payload α)).resident_empty capacity pos
    refine ⟨fun i => ?_, ?_⟩
    · simp only [initial, nothing]
      rfl
    · rintro x (delivered | resident)
      · cases delivered
      · simp only [initial, nothing] at resident
        exact (Multiset.notMem_zero x resident).elim

/-- Push `i` has claimed cell `k` and not yet published. -/
def Owns (w : World α) (i k : Nat) : Prop :=
  ∃ v p, w.pushes[i]? = some (.running v p) ∧ p.cell = some k

variable {k : Nat}

theorem QueueOk.owner_unique (ok : w.QueueOk) (one : w.Owns i k) (two : w.Owns j k) : j = i := by
  obtain ⟨v, p, found, owned⟩ := one
  obtain ⟨v', p', found', owned'⟩ := two
  exact ok.apart (under_running found') (under_running found) owned' owned

theorem QueueOk.owned_writing (ok : w.QueueOk) (owner : w.Owns i k) :
    w.queue.InState k .Writing := by
  obtain ⟨v, p, found, owned⟩ := owner
  obtain ⟨cell, there, writing, -⟩ := ok.claimed (under_running found) owned
  exact ⟨cell, there, writing⟩

variable {q : Mpsc α}

/-- An access of a push changes the cell it has claimed, or a Free cell that it claims thereby. -/
theorem pushStep_writes {out : Push ⊕ Bool} (moved : pushStep v q p = (q', out))
    (changed : q'.cells[k]? ≠ q.cells[k]?) :
    p.cell = some k ∨ q.InState k .Free ∧ ∃ p', out = .inl p' ∧ p'.cell = some k := by
  have at_index {index : Nat} {change : MpscCell α → MpscCell α}
      (changed : (q.modifyCell index change).cells[k]? ≠ q.cells[k]?) : index = k := by
    by_contra other
    exact changed (by rw [modifyCell_get, if_neg other])
  cases p with
  | probe | fetchTicket =>
    cases moved
    exact (changed rfl).elim
  | cas =>
    simp only [pushStep] at moved
    split at moved
    · split at moved
      · rename_i free
        cases moved
        obtain rfl := at_index changed
        exact .inr ⟨InState.of_map free, _, rfl, rfl⟩
      · cases moved
        exact (changed rfl).elim
    · cases moved
      exact (changed rfl).elim
  | construct | storeTicket | publish =>
    cases moved
    exact .inl (congrArg some (at_index changed))

/-- Every cell that is being written belongs to a push. -/
def Owned (w : World α) : Prop := ∀ k, w.queue.InState k .Writing → ∃ i, w.Owns i k

theorem pushStep_owned {out : Push ⊕ Bool}
    (moved : pushStep v q p = (q', out)) (owned : p.cell = some k) (writing : q'.InState k .Writing) :
    ∃ p', out = .inl p' ∧ p'.cell = some k := by
  cases p with
  | probe | cas => cases owned
  | construct | fetchTicket | storeTicket =>
    cases moved
    exact ⟨_, rfl, owned⟩
  | publish =>
    cases moved
    cases owned
    obtain ⟨cell, there, writing⟩ := writing
    rw [modifyCell_get, if_pos rfl, Option.map_eq_some_iff] at there
    obtain ⟨before, -, rfl⟩ := there
    cases writing

/-- A cell that is being written after an access was so before, on behalf of
another push, or belongs to the push that moved. -/
theorem pushStep_writing {out : Push ⊕ Bool}
    (moved : pushStep v q p = (q', out)) (writing : q'.InState k .Writing) :
    (q.InState k .Writing ∧ p.cell ≠ some k) ∨ ∃ p', out = .inl p' ∧ p'.cell = some k := by
  by_cases owned : p.cell = some k
  · exact .inr (pushStep_owned moved owned writing)
  · by_cases same : q'.cells[k]? = q.cells[k]?
    · rw [InState, same] at writing
      exact .inl ⟨writing, owned⟩
    · exact .inr ((pushStep_writes moved same).resolve_left owned).2

theorem popStep_writing (writing : (popStep q c).1.InState k .Writing) : q.InState k .Writing := by
  have unchanged {index : Nat} {change : MpscCell α → MpscCell α}
      (never : ∀ cell, (change cell).state ≠ .Writing)
      (writing : (q.modifyCell index change).InState k .Writing) : q.InState k .Writing := by
    obtain ⟨cell, there, writing⟩ := writing
    rcases modifyCell_origin there with ⟨-, before, -, rfl⟩ | ⟨-, there⟩
    · exact (never before writing).elim
    · exact ⟨cell, there, writing⟩
  cases c with
  | scan =>
    simp only [popStep] at writing
    split at writing <;> exact writing
  | consume | free => exact unchanged (fun _ => by simp) writing
  | moveOut => exact writing

theorem Owned.step (owned : w.Owned) (move : Moves w w') : w'.Owned := by
  intro k writing
  cases move with
  | push =>
    obtain ⟨i, v', p, found, cell⟩ := owned k writing
    exact ⟨i, v', p, getElem?_append_found _ found, cell⟩
  | tryPop => exact owned k writing
  | consumer => exact owned k (popStep_writing writing)
  | producer i v p found =>
    obtain ⟨⟨q', out⟩, moved⟩ : ∃ next, pushStep ⟨i, v⟩ w.queue p = next := ⟨_, rfl⟩
    rw [moved] at writing ⊢
    rcases pushStep_writing moved writing with ⟨before, unclaimed⟩ | ⟨p', rfl, cell⟩
    · obtain ⟨j, v', p', found', cell⟩ := owned k before
      have other : i ≠ j := by
        rintro rfl
        cases found.symm.trans found'
        exact unclaimed cell
      exact ⟨j, v', p', (List.getElem?_set_ne other).trans found', cell⟩
    · exact ⟨i, v, p', getElem?_set_found found _, cell⟩

theorem Reachable.owned {capacity : Nat} (reached : Reachable capacity w) : w.Owned := by
  refine reached.invariant (fun pos k writing => ?_) Owned.step
  obtain ⟨cell, there, writing⟩ := writing
  rw [List.eq_of_mem_replicate (List.mem_of_getElem? there)] at writing
  cases writing

/-- Steps of the consumer, while every producer stands still. -/
def ConsumerOnly (l : Label α) (_ : World α) : Prop := l = .tryPop ∨ l = .consumer

theorem consumer_alone {q : Mpsc (Payload α)}
    {out : Mpsc (Payload α) × Option (Payload α)} (ends : Finishes popStep q c out) (w : World α)
    (queue : w.queue = q) (busy : w.pop = some c) :
    Reaches step ConsumerOnly w
      { w with queue := out.1, pop := none, delivered := w.delivered ++ out.2.toList } := by
  induction ends generalizing w with
  | last ended =>
    subst queue
    refine .single ⟨.consumer, .inr rfl, ?_⟩
    simp only [step, busy, ended]
    rfl
  | @next _ _ q₁ c₁ _ moved _ ih =>
    subst queue
    have ran : step .consumer w = .ok { w with queue := q₁, pop := some c₁ } := by
      simp [step, busy, moved, consumed, popped]
    exact .head ⟨.consumer, .inr rfl, ran⟩ (ih _ rfl rfl)

theorem tryPop_alone (w : World α) (idle : w.pop = none) :
    Reaches step ConsumerOnly w { w with
      queue := w.queue.tryPop.1, delivered := w.delivered ++ w.queue.tryPop.2.toList } := by
  have started : step .tryPop w = .ok { w with pop := some (.scan .start) } := by
    simp only [step, idle]
  have run := consumer_alone w.queue.tryPop_alone { w with pop := some (.scan .start) } rfl rfl
  rw [← idle] at run
  exact .head ⟨.tryPop, .inl rfl, started⟩ run

def isReady (cell : MpscCell (Payload α)) : Nat := if cell.state = .Ready then 1 else 0

/-- Every Ready payload can be popped while all producers stand still. -/
theorem ready_delivered (ok : w.QueueOk) (idle : w.pop = none) {cell : MpscCell (Payload α)}
    (here : w.queue.cells[k]? = some cell) (ready : cell.state = .Ready)
    (payload : cell.payload = some x) :
    ∃ w', Reaches step ConsumerOnly w w' ∧ x ∈ w'.delivered ∧ w'.pushes = w.pushes := by
  -- Every pop takes a Ready cell, so the induction is on how many there are.
  induction count : tally isReady w.queue.cells generalizing w with
  | zero =>
    have none := List.sum_eq_zero_iff.mp count _
      (List.mem_map_of_mem (List.mem_of_getElem? here))
    rw [isReady, if_pos ready] at none
    cases none
  | succ n ih =>
    obtain ⟨j, oldest⟩ := oldestReadyIndex_exists ⟨cell, here, ready⟩
    obtain ⟨cell', there, ready'⟩ := oldestReadyIndex_ready oldest
    have run := tryPop_alone w idle
    have freed : w.queue.tryPop = (w.queue.freed j, cell'.payload) := by
      rw [tryPop, oldest]
      simp [there]
    rw [freed] at run
    by_cases same : j = k
    · subst same
      cases here.symm.trans there
      refine ⟨_, run, ?_, rfl⟩
      simp [payload]
    · have fewer : tally isReady (w.queue.freed j).cells = n := by
        have exchanged := tally_modify (w := isReady)
          (fun cell => { cell with state := CellState.Free, payload := none }) there
        simp only [isReady, ready', if_true, reduceCtorEq, if_false] at exchanged
        rw [count] at exchanged
        exact Nat.succ.inj exchanged
      have ok' := run.invariant (P := QueueOk) ok fun _ _ _ ok _ ran => ok.step (step_moves ran)
      obtain ⟨w', rest, delivered, pushes⟩ := ih ok' idle
        ((modifyCell_get ..).trans (by rw [if_neg same]; exact here)) fewer
      exact ⟨w', run.trans rest, delivered, pushes⟩

theorem scan_finishes {q : Mpsc α} (s : Scan) : ∃ out, Finishes popStep q (.scan s) out := by
  -- One cell less is left at every access.
  induction left : q.cells.length - s.index generalizing s with
  | zero =>
    have ended := scanStep_end (q := q) (s := s) (by omega)
    cases oldest : s.oldest with
    | none => exact ⟨(q, none), .last (by simp only [popStep, ended, oldest])⟩
    | some k =>
      have chosen : popStep q (.scan s) = (q, .inl (.consume k)) := by
        simp only [popStep, ended, oldest]
      exact ⟨(_, _), .next chosen (.next rfl (.next rfl (.last rfl)))⟩
  | succ n ih =>
    obtain ⟨s', scanned, next⟩ := scanStep_inside (show s.index < q.cells.length by omega)
    obtain ⟨out, ends⟩ := ih s' (by omega)
    exact ⟨out, .next (by simp only [popStep, scanned]) ends⟩

theorem pop_finishes (q : Mpsc α) (c : Pop α) : ∃ out, Finishes popStep q c out := by
  cases c with
  | scan s => exact scan_finishes s
  | consume k => exact ⟨(_, _), .next rfl (.next rfl (.last rfl))⟩
  | moveOut k => exact ⟨(_, _), .next rfl (.last rfl)⟩
  | free => exact ⟨(_, _), .last rfl⟩

theorem Ledger.settled (ledger : Ledger w) (ok : w.QueueOk) (idle : w.pop = none)
    (accepted : w.pushes[x.id]? = some (.returned x.value true)) :
    x ∈ w.delivered ∨ ∃ (k : Nat) (cell : MpscCell (Payload α)),
      w.queue.cells[k]? = some cell ∧ cell.state = .Ready ∧ cell.payload = some x := by
  have genuine {y : Payload α} (same : y.id = x.id)
      (there : y ∈ w.delivered ∨ y ∈ w.queue.resident) : y = x := by
    obtain ⟨id, value⟩ := x
    obtain ⟨id', value'⟩ := y
    obtain rfl : id' = id := same
    have returned := ledger.genuine ⟨id', value'⟩ there
    cases accepted.symm.trans returned
    rfl
  have balance := ledger.balance x.id
  rw [weightAt_found accepted, Call.accepted] at balance
  rcases Nat.eq_zero_or_pos (w.delivered.countP fun y => y.id = x.id) with absent | some
  · obtain ⟨y, resident, same⟩ := Multiset.countP_pos.mp (by omega :
      0 < w.queue.resident.countP fun y => y.id = x.id)
    obtain rfl := genuine same (.inr resident)
    obtain ⟨cell, mem, read, payload⟩ := mem_resident.mp resident
    obtain ⟨k, there⟩ := List.getElem?_of_mem mem
    rcases read with ready | consuming
    · exact .inr ⟨k, cell, there, ready, payload⟩
    · have held := ok.consuming ⟨cell, there, consuming⟩
      rw [idle] at held
      cases held
  · obtain ⟨y, mem, same⟩ := List.countP_pos_iff.mp some
    rw [← genuine (of_decide_eq_true same) (.inl mem)]
    exact .inl mem

/-- The consumer alone delivers every accepted payload, whatever it is doing and
wherever the producers stand. -/
theorem accepted_delivered (ok : w.QueueOk) (ledger : Ledger w)
    (accepted : w.pushes[x.id]? = some (.returned x.value true)) :
    ∃ w', Reaches step ConsumerOnly w w' ∧ x ∈ w'.delivered ∧ w'.pushes = w.pushes := by
  have idle_case {w : World α} (ok : w.QueueOk) (ledger : Ledger w) (idle : w.pop = none)
      (accepted : w.pushes[x.id]? = some (.returned x.value true)) :
      ∃ w', Reaches step ConsumerOnly w w' ∧ x ∈ w'.delivered ∧ w'.pushes = w.pushes := by
    rcases ledger.settled ok idle accepted with delivered | ⟨k, cell, here, ready, payload⟩
    · exact ⟨w, .refl, delivered, rfl⟩
    · exact ready_delivered ok idle here ready payload
  cases busy : w.pop with
  | none => exact idle_case ok ledger busy accepted
  | some c =>
    obtain ⟨out, ends⟩ := pop_finishes w.queue c
    have run := consumer_alone ends w rfl busy
    obtain ⟨ok', ledger'⟩ := run.invariant (P := fun w => w.QueueOk ∧ Ledger w) ⟨ok, ledger⟩
      fun _ _ _ holds _ ran =>
        ⟨holds.1.step (step_moves ran), holds.2.step holds.1 (step_moves ran)⟩
    obtain ⟨w', rest, delivered, pushes⟩ := idle_case ok' ledger' rfl accepted
    exact ⟨w', run.trans rest, delivered, pushes⟩

end World

end Coact.Mpsc
