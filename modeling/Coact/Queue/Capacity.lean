import Mathlib.Algebra.Order.Ring.Nat
import Coact.Foundation.Transition
import Coact.Queue.Sequential

/-! When `try_push` of `BoundedMpscQueue` reports a full queue. The probe sequence
adds in 32 bits before it reduces modulo the capacity, so it visits every cell for
every start only if the capacity divides 2^32; otherwise the last cell is skipped
by the push that starts at 2^32 - 1. -/
namespace Coact.Mpsc
open Foundation
variable {α : Type} {q : Mpsc α}

/-- An operation of a sequential run. -/
inductive Op (α : Type) where
  | push (v : α)
  | pop

def seqStep : Op α → Mpsc α → Except Empty (Mpsc α)
  | .push v, q => .ok (q.tryPush v).1
  | .pop, q => .ok q.tryPop.1

/-- Reached from an empty queue by any sequence of pushes and pops. -/
def SeqReached (capacity : Nat) (q : Mpsc α) : Prop :=
  ∃ pos, Reaches seqStep Always (empty capacity pos) q

def Unpopped (cell : MpscCell α) : Prop := cell.state = .Ready ∧ ∃ v, cell.payload = some v

/-- Every cell holds an unpopped payload. -/
def Full (q : Mpsc α) : Prop := ∀ cell ∈ q.cells, Unpopped cell

/-- Between the operations of a sequential run a cell is Free or holds a payload. -/
structure Quiet (capacity : Nat) (q : Mpsc α) : Prop where
  length : q.cells.length = capacity
  cells : ∀ cell ∈ q.cells, cell.state = .Free ∨ Unpopped cell

section
variable {capacity : Nat}

theorem mem_modifyCell {cell : MpscCell α} (mem : cell ∈ (q.modifyCell k change).cells) :
    cell ∈ q.cells ∨ ∃ before ∈ q.cells, cell = change before := by
  obtain ⟨j, found⟩ := List.getElem?_of_mem mem
  rcases modifyCell_origin found with ⟨-, before, there, rfl⟩ | ⟨-, found⟩
  · exact .inr ⟨before, List.mem_of_getElem? there, rfl⟩
  · exact .inl (List.mem_of_getElem? found)

theorem Quiet.modifyCell (quiet : Quiet capacity q)
    (after : ∀ cell, (change cell).state = .Free ∨ Unpopped (change cell)) :
    Quiet capacity (q.modifyCell k change) where
  length := (List.length_modify ..).trans quiet.length
  cells cell mem := by
    rcases mem_modifyCell mem with old | ⟨before, -, rfl⟩
    · exact quiet.cells cell old
    · exact after before

theorem Quiet.tryPush (quiet : Quiet capacity q) (v : α) : Quiet capacity (q.tryPush v).1 := by
  have probed : Quiet capacity q.probedOnce := ⟨quiet.length, quiet.cells⟩
  rw [Mpsc.tryPush]
  split
  · exact probed
  · rename_i k _
    have filled : Quiet capacity (q.probedOnce.modifyCell k fun _ =>
        ⟨.Ready, some v, q.publicationTicket⟩) := probed.modifyCell fun _ => .inr ⟨rfl, v, rfl⟩
    exact ⟨filled.length, filled.cells⟩

theorem Quiet.tryPop (quiet : Quiet capacity q) : Quiet capacity q.tryPop.1 := by
  rw [Mpsc.tryPop]
  split
  · exact quiet
  · exact quiet.modifyCell fun _ => .inl rfl

theorem SeqReached.quiet (reached : SeqReached capacity q) : Quiet capacity q := by
  obtain ⟨pos, run⟩ := reached
  refine run.invariant (P := Quiet capacity) ⟨List.length_replicate .., fun cell mem => ?_⟩ ?_
  · rw [List.eq_of_mem_replicate mem]
    exact .inl rfl
  · intro op q q' quiet _ ran
    cases op <;> cases ran
    · exact quiet.tryPush _
    · exact quiet.tryPop

end

section
variable {start offset : Nat}

theorem firstFree_eq_none : q.firstFree start todo offset = none ↔
    ∀ o, offset ≤ o → o < offset + todo → q.isFree (q.probed start o) = false := by
  induction todo generalizing offset with
  | zero => exact ⟨fun _ o first last => by omega, fun _ => rfl⟩
  | succ todo ih =>
    rw [firstFree]
    split
    · rename_i free
      refine ⟨fun never => (by cases never), fun taken => ?_⟩
      rw [taken offset le_rfl (by omega)] at free
      cases free
    · rename_i taken
      rw [ih]
      constructor
      · intro rest o first last
        by_cases here : o = offset
        · subst here
          exact Bool.eq_false_of_not_eq_true taken
        · exact rest o (by omega) (by omega)
      · exact fun all o first last => all o (by omega) (by omega)

theorem probed_lt (q : Mpsc α) (start offset : Nat) : q.probed start offset < q.cells.length :=
  Nat.mod_lt _ q.capacity_pos

/-- With a capacity that divides 2^32 every cell is probed, from every start. -/
theorem probed_covers (divides : q.cells.length ∣ 2 ^ 32) (start : Nat)
    (inside : k < q.cells.length) : ∃ offset < q.cells.length, q.probed start offset = k := by
  have pos := q.capacity_pos
  refine ⟨(k + (q.cells.length - start % q.cells.length)) % q.cells.length, Nat.mod_lt _ pos, ?_⟩
  have small := Nat.mod_lt start pos
  rw [probed, Nat.mod_mod_of_dvd _ divides, Nat.add_mod_mod, ← Nat.mod_add_mod,
    show start % q.cells.length + (k + (q.cells.length - start % q.cells.length)) =
      k + q.cells.length by omega, Nat.add_mod_right, Nat.mod_eq_of_lt inside]

theorem tryPush_refuses :
    (q.tryPush v).2 = false ↔
      ∀ o < q.cells.length, q.isFree (q.probed q.producerProbe o) = false := by
  have exhausted : q.firstFree q.producerProbe q.cells.length 0 = none ↔ _ := firstFree_eq_none
  simp only [Nat.zero_le, true_implies, Nat.zero_add] at exhausted
  rw [← exhausted, tryPush]
  split
  · rename_i nothing
    exact ⟨fun _ => nothing, fun _ => rfl⟩
  · rename_i k found
    rw [found]
    exact ⟨fun never => (by cases never), fun never => (by cases never)⟩

theorem isFree_eq_true : q.isFree k = true ↔ q.InState k .Free := by
  rw [isFree, decide_eq_true_iff, Option.map_eq_some_iff]
  rfl

theorem Quiet.not_free {capacity : Nat} (quiet : Quiet capacity q) (inside : k < q.cells.length) :
    q.isFree k = false ↔ ∃ cell, q.cells[k]? = some cell ∧ Unpopped cell := by
  have found := List.getElem?_eq_getElem inside
  rw [← Bool.not_eq_true, isFree_eq_true]
  constructor
  · intro taken
    rcases quiet.cells _ (List.mem_of_getElem? found) with free | held
    · exact (taken ⟨_, found, free⟩).elim
    · exact ⟨_, found, held⟩
  · rintro ⟨cell, there, held⟩ ⟨cell', there', free⟩
    cases there.symm.trans there'
    rw [held.1] at free
    cases free

theorem Quiet.refuses_iff {capacity : Nat} (quiet : Quiet capacity q) (divides : capacity ∣ 2 ^ 32)
    (v : α) : (q.tryPush v).2 = false ↔ q.Full := by
  rw [← quiet.length] at divides
  rw [tryPush_refuses]
  constructor
  · intro taken cell mem
    obtain ⟨k, found⟩ := List.getElem?_of_mem mem
    have inside := (List.getElem?_eq_some_iff.mp found).1
    obtain ⟨o, below, rfl⟩ := probed_covers divides q.producerProbe inside
    obtain ⟨cell', there, held⟩ := (quiet.not_free inside).mp (taken o below)
    cases found.symm.trans there
    exact held
  · intro full o below
    have inside := q.probed_lt q.producerProbe o
    exact (quiet.not_free inside).mpr ⟨_, List.getElem?_eq_getElem inside,
      full _ (List.getElem_mem inside)⟩

end

/-! The run that shows a capacity which does not divide 2^32 not fully usable: turn
the queue until the last cell is filled first, fill it, let pushes fail until the
probe counter is at its last value, and pop once. -/
section
variable {n p : Nat}

/-- Every cell is Free, and every one of `p` pushes has been popped. -/
structure Drained (n p : Nat) (q : Mpsc α) : Prop where
  length : q.cells.length = n
  probe : q.producerProbe = p
  ticket : q.publicationTicket = p
  free : ∀ cell ∈ q.cells, cell.state = .Free

theorem tryPush_first (free : q.InState (q.probed q.producerProbe 0) .Free) :
    q.tryPush v = (q.probedOnce.published (q.probed q.producerProbe 0) v, true) := by
  have first : q.firstFree q.producerProbe q.cells.length 0 =
      some (q.probed q.producerProbe 0) := by
    obtain ⟨todo, length⟩ : ∃ todo, q.cells.length = todo + 1 :=
      ⟨q.cells.length - 1, by have := q.capacity_pos; omega⟩
    rw [length, firstFree, if_pos (isFree_eq_true.mpr free)]
  rw [tryPush, first]

theorem published_get (inside : k < q.cells.length) :
    (q.probedOnce.published k v).cells[j]? =
      if k = j then some ⟨.Ready, some v, q.publicationTicket⟩ else q.cells[j]? := by
  have modified := modifyCell_get q.probedOnce k j fun _ => ⟨.Ready, some v, q.publicationTicket⟩
  refine modified.trans ?_
  split
  · rename_i same
    rw [← same, show q.probedOnce.cells[k]? = q.cells[k]? from rfl,
      List.getElem?_eq_getElem inside]
    rfl
  · rfl

theorem Drained.turn (drained : Drained n p q) (small : p + 1 < 2 ^ 32) (v : α) :
    Drained n (p + 1) (q.tryPush v).1.tryPop.1 := by
  have inside := q.probed_lt q.producerProbe 0
  have pushed : q.tryPush v = (q.probedOnce.published (q.probed q.producerProbe 0) v, true) :=
    tryPush_first ⟨_, List.getElem?_eq_getElem inside, drained.free _ (List.getElem_mem inside)⟩
  have oldest : (q.tryPush v).1.oldestReadyIndex = some (q.probed q.producerProbe 0) := by
    rw [pushed]
    refine oldestReadyIndex_least (by rw [published_get inside, if_pos rfl]) rfl ?_
    intro j cell other there ready
    rw [published_get inside, if_neg (Ne.symm other)] at there
    rw [drained.free cell (List.mem_of_getElem? there)] at ready
    cases ready
  rw [tryPop, oldest, pushed]
  constructor
  case length =>
    simp only [freed, published, modifyCell, List.length_modify]
    exact drained.length
  case probe =>
    change (q.producerProbe + 1) % 2 ^ 32 = p + 1
    rw [drained.probe, Nat.mod_eq_of_lt small]
  case ticket =>
    change (q.publicationTicket + 1) % 2 ^ 64 = p + 1
    rw [drained.ticket, Nat.mod_eq_of_lt (by omega)]
  case free =>
    intro cell mem
    obtain ⟨j, there⟩ := List.getElem?_of_mem mem
    rcases modifyCell_origin there with ⟨-, before, -, rfl⟩ | ⟨other, there⟩
    · rfl
    · rw [published_get inside, if_neg other] at there
      exact drained.free cell (List.mem_of_getElem? there)

/-- The cells from the last one on, around the end, have been filled `j` times. -/
structure Filling (n j : Nat) (q : Mpsc α) : Prop where
  length : q.cells.length = n
  probe : q.producerProbe = n - 1 + j
  ticket : q.publicationTicket = n - 1 + j
  taken : ∀ o < j, ∃ v, q.cells[(n - 1 + o) % n]? = some ⟨.Ready, some v, n - 1 + o⟩
  free : ∀ o, j ≤ o → o < n → q.InState ((n - 1 + o) % n) .Free

theorem Drained.filling (drained : Drained n (n - 1) q) : Filling n 0 q where
  length := drained.length
  probe := drained.probe
  ticket := drained.ticket
  taken o below := (Nat.not_lt_zero o below).elim
  free o _ below := by
    have inside : (n - 1 + o) % n < q.cells.length := by
      rw [drained.length]
      exact Nat.mod_lt _ (Nat.zero_lt_of_lt below)
    exact ⟨_, List.getElem?_eq_getElem inside, drained.free _ (List.getElem_mem inside)⟩

theorem Filling.push (filling : Filling n j q) (room : j < n) (small : n < 2 ^ 16)
    (v : α) : Filling n (j + 1) (q.tryPush v).1 := by
  have unwrapped : (n - 1 + j) % 2 ^ 32 = n - 1 + j := Nat.mod_eq_of_lt (by omega)
  have index : q.probed q.producerProbe 0 = (n - 1 + j) % n := by
    rw [probed, filling.probe, filling.length, Nat.add_zero, unwrapped]
  have inside : (n - 1 + j) % n < q.cells.length := by
    rw [filling.length]
    exact Nat.mod_lt _ (Nat.zero_lt_of_lt room)
  have pushed := tryPush_first (v := v) (index ▸ filling.free j le_rfl room)
  rw [pushed, index]
  constructor
  case length =>
    simp only [published, modifyCell, List.length_modify]
    exact filling.length
  case probe =>
    change (q.producerProbe + 1) % 2 ^ 32 = n - 1 + (j + 1)
    rw [filling.probe, Nat.mod_eq_of_lt (by omega)]
    omega
  case ticket =>
    change (q.publicationTicket + 1) % 2 ^ 64 = n - 1 + (j + 1)
    rw [filling.ticket, Nat.mod_eq_of_lt (by omega)]
    omega
  case taken =>
    intro o below
    rw [published_get inside]
    rcases Nat.lt_succ_iff_lt_or_eq.mp below with older | rfl
    · rw [if_neg (Ring.slot_ne older room).symm]
      exact filling.taken o older
    · rw [if_pos rfl, filling.ticket]
      exact ⟨v, rfl⟩
  case free =>
    intro o later below
    obtain ⟨cell, there, free⟩ := filling.free o (by omega) below
    refine ⟨cell, ?_, free⟩
    rw [published_get inside, if_neg (Ring.slot_ne (by omega) below)]
    exact there

/-- A full queue whose last cell has the smallest ticket. -/
structure Packed (n p : Nat) (q : Mpsc α) : Prop where
  length : q.cells.length = n
  probe : q.producerProbe = p
  last : ∃ v, q.cells[n - 1]? = some ⟨.Ready, some v, n - 1⟩
  others : ∀ k < n - 1, ∃ cell, q.cells[k]? = some cell ∧ cell.state = .Ready ∧ n - 1 < cell.ticket

theorem Filling.packed (filling : Filling n n q) (pos : 0 < n) : Packed n (n - 1 + n) q where
  length := filling.length
  probe := filling.probe
  last := by
    obtain ⟨v, there⟩ := filling.taken 0 pos
    rw [Nat.add_zero, Nat.mod_eq_of_lt (by omega)] at there
    exact ⟨v, there⟩
  others k below := by
    obtain ⟨v, there⟩ := filling.taken (k + 1) (by omega)
    rw [show n - 1 + (k + 1) = k + n by omega, Nat.add_mod_right,
      Nat.mod_eq_of_lt (by omega)] at there
    exact ⟨_, there, rfl, by change n - 1 < k + n; omega⟩

theorem Packed.ready (packed : Packed n p q) (inside : k < n) : q.InState k .Ready := by
  by_cases tail : k = n - 1
  · subst tail
    obtain ⟨v, there⟩ := packed.last
    exact ⟨_, there, rfl⟩
  · obtain ⟨cell, there, ready, -⟩ := packed.others k (by omega)
    exact ⟨cell, there, ready⟩

theorem not_free_of_ready (ready : q.InState k .Ready) : q.isFree k = false := by
  rw [← Bool.not_eq_true, isFree_eq_true]
  rintro ⟨cell', there', free⟩
  obtain ⟨cell, there, ready⟩ := ready
  cases there.symm.trans there'
  rw [ready] at free
  cases free

theorem tryPush_refused (refused : (q.tryPush v).2 = false) : (q.tryPush v).1 = q.probedOnce := by
  rw [tryPush] at refused ⊢
  split
  · rfl
  · rename_i found
    rw [found] at refused
    cases refused

theorem Packed.push (packed : Packed n p q) (small : p + 1 < 2 ^ 32) (v : α) :
    Packed n (p + 1) (q.tryPush v).1 := by
  have refused : (q.tryPush v).2 = false := tryPush_refuses.mpr fun o _ =>
    not_free_of_ready (packed.ready (packed.length ▸ q.probed_lt q.producerProbe o))
  rw [tryPush_refused refused]
  refine ⟨packed.length, ?_, packed.last, packed.others⟩
  change (q.producerProbe + 1) % 2 ^ 32 = p + 1
  rw [packed.probe, Nat.mod_eq_of_lt small]

theorem skips_last (pos : 0 < n) (small : n < 2 ^ 16) (uneven : ¬ n ∣ 2 ^ 32)
    (below : o < n) : (2 ^ 32 - 1 + o) % 2 ^ 32 % n < n - 1 := by
  have bound := Nat.mod_lt ((2 ^ 32 - 1 + o) % 2 ^ 32) pos
  cases o with
  | zero =>
    -- A remainder of n - 1 would make n a divisor of 2^32.
    by_contra reaches
    refine uneven ⟨(2 ^ 32 - 1) / n + 1, ?_⟩
    have split := Nat.div_add_mod (2 ^ 32 - 1) n
    have rest : (2 ^ 32 - 1) % n = n - 1 := by
      rw [Nat.add_zero, Nat.mod_eq_of_lt (show 2 ^ 32 - 1 < 2 ^ 32 by decide)] at bound reaches
      omega
    rw [Nat.mul_add, Nat.mul_one]
    omega
  | succ o =>
    rw [show 2 ^ 32 - 1 + (o + 1) = o + 2 ^ 32 by omega, Nat.add_mod_right,
      Nat.mod_eq_of_lt (show o < 2 ^ 32 by omega), Nat.mod_eq_of_lt (by omega)]
    omega

/-- At the last value of the probe counter, the cell just popped is overlooked. -/
theorem Packed.overlooked (packed : Packed n (2 ^ 32 - 1) q) (pos : 0 < n) (small : n < 2 ^ 16)
    (uneven : ¬ n ∣ 2 ^ 32) (v : α) : (q.tryPop.1.tryPush v).2 = false ∧ ¬ q.tryPop.1.Full := by
  obtain ⟨w, last⟩ := packed.last
  have oldest : q.oldestReadyIndex = some (n - 1) := by
    refine oldestReadyIndex_least last rfl fun j cell other there _ => ?_
    have inside := (List.getElem?_eq_some_iff.mp there).1
    rw [packed.length] at inside
    obtain ⟨cell', there', -, later⟩ := packed.others j (by omega)
    cases there.symm.trans there'
    exact later
  have popped : q.tryPop.1 = q.freed (n - 1) := by rw [tryPop, oldest]
  have length : (q.freed (n - 1)).cells.length = n :=
    (List.length_modify ..).trans packed.length
  rw [popped]
  constructor
  · rw [tryPush_refuses]
    intro o below
    rw [length] at below
    have index : (q.freed (n - 1)).probed (q.freed (n - 1)).producerProbe o < n - 1 := by
      rw [probed, length, show (q.freed (n - 1)).producerProbe = 2 ^ 32 - 1 from packed.probe]
      exact skips_last pos small uneven below
    obtain ⟨cell, there, ready, -⟩ := packed.others _ index
    refine not_free_of_ready ⟨cell, (modifyCell_get ..).trans ?_, ready⟩
    rw [if_neg index.ne', there]
  · intro full
    have there : (q.freed (n - 1)).cells[n - 1]? = some ⟨.Free, none, n - 1⟩ := by
      rw [freed, modifyCell_get, if_pos rfl, last]
      rfl
    cases (full _ (List.mem_of_getElem? there)).1

theorem reach_drained (pos : 0 < n) (v : α) (below : i < 2 ^ 32) :
    ∃ q : Mpsc α, Reaches seqStep Always (empty n pos) q ∧ Drained n i q := by
  induction i with
  | zero =>
    refine ⟨_, .refl, List.length_replicate .., rfl, rfl, fun cell mem => ?_⟩
    rw [List.eq_of_mem_replicate mem]
  | succ i ih =>
    obtain ⟨q, run, drained⟩ := ih (by omega)
    exact ⟨_, (run.tail ⟨.push v, trivial, rfl⟩).tail ⟨.pop, trivial, rfl⟩, drained.turn below v⟩

theorem reach_filling (pos : 0 < n) (small : n < 2 ^ 16) (v : α) (below : j ≤ n) :
    ∃ q : Mpsc α, Reaches seqStep Always (empty n pos) q ∧ Filling n j q := by
  induction j with
  | zero =>
    obtain ⟨q, run, drained⟩ := reach_drained pos v (i := n - 1) (by omega)
    exact ⟨q, run, drained.filling⟩
  | succ j ih =>
    obtain ⟨q, run, filling⟩ := ih (by omega)
    exact ⟨_, run.tail ⟨.push v, trivial, rfl⟩, filling.push below small v⟩

theorem reach_packed (pos : 0 < n) (small : n < 2 ^ 16) (v : α) (below : n - 1 + n + i < 2 ^ 32) :
    ∃ q : Mpsc α, Reaches seqStep Always (empty n pos) q ∧ Packed n (n - 1 + n + i) q := by
  induction i with
  | zero =>
    obtain ⟨q, run, filling⟩ := reach_filling pos small v (le_refl n)
    exact ⟨q, run, filling.packed pos⟩
  | succ i ih =>
    obtain ⟨q, run, packed⟩ := ih (by omega)
    exact ⟨_, run.tail ⟨.push v, trivial, rfl⟩, packed.push below v⟩

/-- A capacity that does not divide 2^32 has a run in which a push fails although
the last cell is free. -/
theorem reach_overlooked (pos : 0 < n) (small : n < 2 ^ 16) (uneven : ¬ n ∣ 2 ^ 32) (v : α) :
    ∃ q : Mpsc α, SeqReached n q ∧ (q.tryPush v).2 = false ∧ ¬ q.Full := by
  obtain ⟨q, run, packed⟩ := reach_packed pos small v (i := 2 ^ 32 - 1 - (n - 1 + n)) (by omega)
  rw [show n - 1 + n + (2 ^ 32 - 1 - (n - 1 + n)) = 2 ^ 32 - 1 by omega] at packed
  exact ⟨q.tryPop.1, ⟨pos, run.tail ⟨.pop, trivial, rfl⟩⟩, packed.overlooked pos small uneven v⟩

end

/-- `try_push` refuses exactly at a full queue, in every sequential run, if and only
if the capacity divides 2^32. -/
theorem push_refused_iff_full [Inhabited α] {capacity : Nat} (pos : 0 < capacity)
    (small : capacity < 2 ^ 16) :
    (∀ q : Mpsc α, SeqReached capacity q → ∀ v, (q.tryPush v).2 = false ↔ q.Full) ↔
      capacity ∣ 2 ^ 32 := by
  constructor
  · intro usable
    by_contra uneven
    obtain ⟨q, reached, refused, spare⟩ := reach_overlooked pos small uneven (default : α)
    exact spare ((usable q reached default).mp refused)
  · exact fun divides q reached v => reached.quiet.refuses_iff divides v

theorem push_refused_iff_full_sixteen :
    16 ∣ 2 ^ 32 ∧
    ((∀ q : Mpsc Nat, SeqReached 16 q → ∀ v, (q.tryPush v).2 = false ↔ q.Full) ↔ 16 ∣ 2 ^ 32) :=
  ⟨by decide, push_refused_iff_full (by decide) (by decide)⟩

/-- With three cells, a push fails next to a free cell. -/
theorem three_cells_overlooked :
    ∃ q : Mpsc Nat, SeqReached 3 q ∧ (q.tryPush 0).2 = false ∧ ¬ q.Full :=
  reach_overlooked (by decide) (by decide) (by decide) 0

end Coact.Mpsc
