import Coact.Queue.Conservation

/-! The order of two publications of `BoundedMpscQueue`. Of two payloads that are
Ready when a pop begins the one with the smaller ticket is delivered first, although
the scan reads one cell at a time and producers go on meanwhile. -/
namespace Coact.Mpsc
open Foundation
variable {α : Type}

namespace World
variable {w : World α}
variable {j k tj tk : Nat} {x y : Payload α}

/-- A pop under way cannot have chosen cell `k` in preference to cell `j`. -/
def Favours (q : Mpsc (Payload α)) (j k tj : Nat) : Pop (Payload α) → Prop
  | .scan s => (s.index ≤ j ∨ s.oldest ≠ none ∧ s.oldestTicket ≤ tj) ∧
      ∀ m, s.oldest = some m →
        ∃ cell, q.cells[m]? = some cell ∧ cell.state = .Ready ∧ cell.ticket = s.oldestTicket
  | .consume m => m ≠ k
  | .moveOut _ | .free _ _ => True

/-- Both payloads are still Ready. -/
structure Waiting (w : World α) (j k tj tk : Nat) (x y : Payload α) : Prop where
  first : w.queue.cells[j]? = some ⟨.Ready, some x, tj⟩
  second : w.queue.cells[k]? = some ⟨.Ready, some y, tk⟩
  smaller : tj < tk
  scan : ∀ c, w.pop = some c → Favours w.queue j k tj c

/-- A pop has taken payload `x` out of cell `j`. -/
def Holding (q : Mpsc (Payload α)) (j : Nat) (x : Payload α) : Pop (Payload α) → Prop
  | .moveOut m => m = j ∧ ∃ cell, q.cells[j]? = some cell ∧ cell.state = .Consuming ∧
      cell.payload = some x
  | .free m v => m = j ∧ v = some x
  | .scan _ | .consume _ => False

/-- Payload `x` is delivered before payload `y`. -/
def Before (delivered : List (Payload α)) (x y : Payload α) : Prop :=
  ∀ n : Nat, delivered[n]? = some y → ∃ m < n, delivered[m]? = some x

structure Ahead (w : World α) (j k tj tk : Nat) (x y : Payload α) : Prop where
  before : Before w.delivered x y
  progress : x ∈ w.delivered ∨ (∃ c, w.pop = some c ∧ Holding w.queue j x c) ∨
    Waiting w j k tj tk x y

theorem Before.append {delivered more : List (Payload α)} (before : Before delivered x y)
    (after : y ∈ more → x ∈ delivered) : Before (delivered ++ more) x y := by
  intro n there
  rw [List.getElem?_append] at there
  split at there
  · obtain ⟨m, earlier, found⟩ := before n there
    exact ⟨m, earlier, by rw [List.getElem?_append_left (by omega)]; exact found⟩
  · obtain ⟨m, found⟩ := List.getElem?_of_mem (after (List.mem_of_getElem? there))
    have inside := (List.getElem?_eq_some_iff.mp found).1
    exact ⟨m, by omega, by rw [List.getElem?_append_left inside]; exact found⟩

variable {cell : MpscCell (Payload α)}

theorem QueueOk.read_kept (ok : w.QueueOk)
    (found : w.pushes[i]? = some (.running v p)) {m : Nat} (here : w.queue.cells[m]? = some cell)
    (read : cell.state = .Ready ∨ cell.state = .Consuming) :
    (pushStep ⟨i, v⟩ w.queue p).1.cells[m]? = some cell := by
  by_contra changed
  have other : (pushStep ⟨i, v⟩ w.queue p).1.cells[m]? ≠ w.queue.cells[m]? := by
    rw [here]
    exact changed
  have clash {state : CellState} (at_m : w.queue.InState m state) : state = cell.state := by
    obtain ⟨cell', there, rfl⟩ := at_m
    cases here.symm.trans there
    rfl
  rcases pushStep_writes rfl other with owned | ⟨free, -⟩
  · rw [← clash (ok.owned_writing ⟨v, p, found, owned⟩)] at read
    rcases read with never | never <;> cases never
  · rw [← clash free] at read
    rcases read with never | never <;> cases never

theorem Ahead.producer (ahead : Ahead w j k tj tk x y)
    (ok : w.QueueOk) (found : w.pushes[i]? = some (.running v p)) :
    Ahead (w.produced i v (pushStep ⟨i, v⟩ w.queue p)) j k tj tk x y := by
  refine ⟨ahead.before, ahead.progress.imp_right (Or.imp ?_ ?_)⟩
  · rintro ⟨c, busy, holding⟩
    refine ⟨c, busy, ?_⟩
    cases c with
    | scan | consume => exact holding
    | moveOut =>
      obtain ⟨rfl, cell, here, consuming, payload⟩ := holding
      exact ⟨rfl, cell, ok.read_kept found here (.inr consuming), consuming, payload⟩
    | free => exact holding
  · intro waiting
    refine ⟨ok.read_kept found waiting.first (.inl rfl), ok.read_kept found waiting.second (.inl rfl),
      waiting.smaller, fun c busy => ?_⟩
    have favours := waiting.scan c busy
    cases c with
    | scan =>
      refine ⟨favours.1, fun m oldest => ?_⟩
      obtain ⟨cell, here, ready, ticket⟩ := favours.2 m oldest
      exact ⟨cell, ok.read_kept found here (.inl ready), ready, ticket⟩
    | consume | moveOut | free => exact favours

theorem Waiting.scanned (waiting : Waiting w j k tj tk x y)
    (favours : Favours w.queue j k tj (.scan s)) (scanned : w.queue.scanStep s = .inl s') :
    Favours w.queue j k tj (.scan s') := by
  obtain ⟨seen, oldest⟩ := favours
  simp only [scanStep] at scanned
  split at scanned
  · cases scanned
  · rename_i cell here
    split at scanned
    · rename_i better
      cases scanned
      refine ⟨?_, fun m same => ?_⟩
      · rcases seen with ahead | ⟨some, ticket⟩
        · by_cases at_j : s.index = j
          · rw [at_j, waiting.first] at here
            cases here
            exact .inr ⟨by simp, le_rfl⟩
          · exact .inl (by change s.index + 1 ≤ j; omega)
        · rcases better.2 with none | smaller
          · exact (some none).elim
          · exact .inr ⟨by simp, by change cell.ticket ≤ tj; omega⟩
      · cases same
        exact ⟨cell, here, better.1, rfl⟩
    · rename_i worse
      cases scanned
      refine ⟨?_, oldest⟩
      rcases seen with ahead | seen
      · by_cases at_j : s.index = j
        · rw [at_j, waiting.first] at here
          cases here
          have found : s.oldest ≠ none := fun none => worse ⟨rfl, .inl none⟩
          exact .inr ⟨found, not_lt.mp fun smaller => worse ⟨rfl, .inr smaller⟩⟩
        · exact .inl (by change s.index + 1 ≤ j; omega)
      · exact .inr seen

theorem Waiting.chosen (waiting : Waiting w j k tj tk x y)
    (favours : Favours w.queue j k tj (.scan s)) (ended : w.queue.scanStep s = .inr (some m)) :
    m ≠ k := by
  simp only [scanStep] at ended
  split at ended
  · rename_i outside
    obtain ⟨cell, there, -, ticket⟩ := favours.2 m (Sum.inr.inj ended)
    rintro rfl
    rw [waiting.second] at there
    cases there
    have smaller := waiting.smaller
    have past := List.getElem?_eq_none_iff.mp outside
    have inside := (List.getElem?_eq_some_iff.mp waiting.first).1
    rcases favours.1 with ahead | ⟨-, bound⟩
    · omega
    · simp only at ticket
      omega
  · split at ended <;> cases ended

theorem Ledger.once (ledger : Ledger w) (i : Nat) :
    w.delivered.countP (fun x => x.id = i) + tally (readyOf i) w.queue.cells +
      tally (takenOf i) w.queue.cells ≤ 1 := by
  have balance := ledger.balance i
  have bound : weightAt Call.accepted w.pushes i ≤ 1 := by
    rw [weightAt]
    cases w.pushes[i]? with
    | none => exact Nat.zero_le 1
    | some call =>
      change call.accepted ≤ 1
      unfold Call.accepted
      split <;> omega
  rw [countP_resident] at balance
  omega

theorem readyOf_self {ticket : Nat} :
    readyOf y.id (⟨.Ready, some y, ticket⟩ : MpscCell (Payload α)) = 1 := if_pos ⟨rfl, rfl⟩

theorem Ledger.sole (ledger : Ledger w) {m : Nat}
    (ready : w.queue.cells[k]? = some ⟨.Ready, some y, tk⟩) (taken : w.queue.cells[m]? = some cell)
    (consuming : cell.state = .Consuming) : cell.payload ≠ some y := by
  intro same
  have once := ledger.once y.id
  have first := weight_le_tally (w := readyOf y.id) (List.mem_of_getElem? ready)
  have second := weight_le_tally (w := takenOf y.id) (List.mem_of_getElem? taken)
  rw [readyOf_self] at first
  rw [takenOf, consuming, same, if_pos ⟨rfl, rfl⟩] at second
  omega

theorem Ahead.consumer (ahead : Ahead w j k tj tk x y) (differ : x ≠ y)
    (ok : w.QueueOk) (ledger : Ledger w) (busy : w.pop = some c) :
    Ahead (w.consumed (popStep w.queue c)) j k tj tk x y := by
  rcases ahead.progress with delivered | ⟨c', busy', holding⟩ | waiting
  · exact ⟨ahead.before.append fun _ => delivered, .inl (List.mem_append_left _ delivered)⟩
  · cases busy.symm.trans busy'
    cases c with
    | scan | consume => exact holding.elim
    | moveOut =>
      obtain ⟨rfl, cell, here, -, payload⟩ := holding
      refine ⟨ahead.before.append fun never => (by cases never), .inr (.inl ⟨_, rfl, rfl, ?_⟩)⟩
      rw [here]
      exact payload
    | free =>
      obtain ⟨rfl, rfl⟩ := holding
      refine ⟨ahead.before.append fun now => ?_, .inl ?_⟩
      · exact (differ (List.mem_singleton.mp now).symm).elim
      · exact List.mem_append_right _ (List.mem_singleton_self x)
  · have favours := waiting.scan c busy
    have holds := ok.popping c busy
    have nothing {q' : Mpsc (Payload α)} {c' : Pop (Payload α)}
        (progress : (∃ c, some c' = some c ∧ Holding q' j x c) ∨
          Waiting ⟨q', w.pushes, some c', w.delivered⟩ j k tj tk x y) :
        Ahead (w.consumed (q', .inl c')) j k tj tk x y := by
      have same : w.consumed (q', .inl c') = ⟨q', w.pushes, some c', w.delivered⟩ := by
        simp [consumed, popped]
      rw [same]
      exact ⟨ahead.before, .inr progress⟩
    cases c with
    | scan s =>
      simp only [popStep]
      cases scanned : w.queue.scanStep s with
      | inl =>
        refine nothing (.inr ⟨waiting.first, waiting.second, waiting.smaller, ?_⟩)
        rintro c ⟨⟩
        exact waiting.scanned favours scanned
      | inr found =>
        cases found with
        | none =>
          refine ⟨ahead.before.append fun never => (by cases never), .inr (.inr ?_)⟩
          exact ⟨waiting.first, waiting.second, waiting.smaller, fun c never => (by cases never)⟩
        | some =>
          refine nothing (.inr ⟨waiting.first, waiting.second, waiting.smaller, ?_⟩)
          rintro c ⟨⟩
          exact waiting.chosen favours scanned
    | consume m =>
      by_cases at_j : m = j
      · subst at_j
        refine nothing (.inl ⟨_, rfl, rfl, ?_⟩)
        exact ⟨_, by rw [modifyCell_get, if_pos rfl, waiting.first]; rfl, rfl, rfl⟩
      · refine nothing (.inr ⟨?_, ?_, waiting.smaller, fun c moved => by cases moved; trivial⟩)
        · exact (modifyCell_get ..).trans (by rw [if_neg at_j]; exact waiting.first)
        · exact (modifyCell_get ..).trans (by rw [if_neg favours]; exact waiting.second)
    | moveOut m =>
      exact nothing (.inr ⟨waiting.first, waiting.second, waiting.smaller,
        fun c moved => by cases moved; trivial⟩)
    | free m =>
      obtain ⟨cell, there, consuming, rfl⟩ := holds
      have apart {l : Nat} {z : Payload α} {t : Nat}
          (ready : w.queue.cells[l]? = some ⟨.Ready, some z, t⟩) : m ≠ l := by
        rintro rfl
        rw [there] at ready
        cases ready
        cases consuming
      refine ⟨ahead.before.append fun now => ?_, .inr (.inr ⟨?_, ?_, waiting.smaller,
        fun c never => (by cases never)⟩)⟩
      · have returned : cell.payload = some y := Option.mem_toList.mp now
        exact (ledger.sole waiting.second there consuming returned).elim
      · exact (modifyCell_get ..).trans (by rw [if_neg (apart waiting.first)]; exact waiting.first)
      · exact (modifyCell_get ..).trans (by rw [if_neg (apart waiting.second)]; exact waiting.second)

theorem Ahead.step (ahead : Ahead w j k tj tk x y) (differ : x ≠ y) (ok : w.QueueOk)
    (ledger : Ledger w) (move : Moves w w') : Ahead w' j k tj tk x y := by
  cases move with
  | push =>
    exact ⟨ahead.before, ahead.progress.imp_right (Or.imp_right fun waiting =>
      ⟨waiting.first, waiting.second, waiting.smaller, waiting.scan⟩)⟩
  | producer _ _ _ found => exact ahead.producer ok found
  | tryPop idle =>
    refine ⟨ahead.before, ahead.progress.imp_right (Or.imp ?_ fun waiting => ?_)⟩
    · rintro ⟨c, busy, -⟩
      rw [idle] at busy
      cases busy
    · refine ⟨waiting.first, waiting.second, waiting.smaller, ?_⟩
      rintro c ⟨⟩
      exact ⟨.inl (Nat.zero_le j), fun m never => (by cases never)⟩
  | consumer _ busy => exact ahead.consumer differ ok ledger busy

/-- Of two Ready payloads the one with the smaller ticket is delivered first. -/
theorem smaller_first (ok : w.QueueOk) (ledger : Ledger w) (waiting : Waiting w j k tj tk x y)
    (run : Reaches World.step Always w w') : Before w'.delivered x y := by
  have differ : x ≠ y := by
    rintro rfl
    have bound := ledger.once x.id
    have same := tally_unique (w := readyOf x.id) (by omega) waiting.first waiting.second
      (readyOf_self ▸ Nat.one_pos) (readyOf_self ▸ Nat.one_pos)
    subst same
    cases waiting.first.symm.trans waiting.second
    exact Nat.lt_irrefl _ waiting.smaller
  have fresh : y ∉ w.delivered := by
    intro mem
    have bound := ledger.once y.id
    have ready := weight_le_tally (w := readyOf y.id) (List.mem_of_getElem? waiting.second)
    have delivered : 0 < w.delivered.countP (fun x => x.id = y.id) :=
      List.countP_pos_iff.mpr ⟨y, mem, decide_eq_true rfl⟩
    rw [readyOf_self] at ready
    omega
  have start : Ahead w j k tj tk x y :=
    ⟨fun n there => (fresh (List.mem_of_getElem? there)).elim, .inr (.inr waiting)⟩
  have kept := run.invariant (P := fun w => w.QueueOk ∧ Ledger w ∧ Ahead w j k tj tk x y)
    ⟨ok, ledger, start⟩ ?_
  · exact kept.2.2.before
  · rintro _ _ _ ⟨ok, ledger, ahead⟩ _ ran
    have move := step_moves ran
    exact ⟨ok.step move, ledger.step ok move, ahead.step differ ok ledger move⟩

end World

end Coact.Mpsc
