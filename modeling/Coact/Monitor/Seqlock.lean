import Coact.Foundation.Numbering
import Coact.Monitor.Snapshot

/-! The sequence lock of a snapshot slot. Whoever holds the writer flag is alone at
its slot; between the odd and the even store the fields are in motion, and an even
sequence number stands for the one record that published it. That number is stored
once, so a reader that finds it before and after its loads has loaded one record. -/
namespace Coact.Snapshot
open Foundation

/-- The fields before `f` agree; at the end all of them do. -/
def Agree : Option Field → Fields → Fields → Prop
  | some .target, _, _ => True
  | some .disposition, a, b => a.target = b.target
  | some .reason, a, b => a.target = b.target ∧ a.disposition = b.disposition
  | some .nowNs, a, b =>
    a.target = b.target ∧ a.disposition = b.disposition ∧ a.reason = b.reason
  | some .budgetNs, a, b =>
    a.target = b.target ∧ a.disposition = b.disposition ∧ a.reason = b.reason ∧ a.nowNs = b.nowNs
  | none, a, b => a = b

theorem Agree.copy (agree : Agree (some f) dst src) : Agree f.next (src.copy dst f) src := by
  cases f with
  | target => rfl
  | disposition => exact ⟨agree, rfl⟩
  | reason => exact ⟨agree.1, agree.2, rfl⟩
  | nowNs => exact ⟨agree.1, agree.2.1, agree.2.2, rfl⟩
  | budgetNs =>
    cases src
    cases dst
    simp_all [Fields.copy, Field.next, Agree]

theorem published_eq {seq : Nat} (small : seq < 2 ^ 63) : published seq = 2 * seq := by
  rw [published, Nat.shiftLeft_eq, Nat.mod_eq_of_lt (by omega)]
  omega

theorem published_odd {seq : Nat} (small : seq < 2 ^ 63) : published seq ||| 1 = 2 * seq + 1 := by
  have shifted : seq <<< 1 + 1 = seq <<< 1 ||| 1 := Nat.shiftLeft_add_eq_or_of_lt (by decide) seq
  rw [published, Nat.mod_eq_of_lt (by rw [Nat.shiftLeft_eq]; omega), ← shifted, Nat.shiftLeft_eq]
  omega

namespace Writer

/-- The sequence number that a call was assigned. -/
def seq (w : Writer) : Option Nat :=
  match w.pc with
  | .inl .fetch | .inr .disabled => none
  | .inl (.flag seq) | .inl (.drop seq) | .inl (.odd seq) | .inl (.store seq _) | .inl (.even seq)
  | .inl (.clear seq) | .inr (.stored seq) | .inr (.dropped seq) => some seq

/-- The sequence number of a call that holds the flag of its slot. -/
def owns (w : Writer) : Option Nat :=
  match w.pc with
  | .inl (.odd seq) | .inl (.store seq _) | .inl (.even seq) | .inl (.clear seq) => some seq
  | _ => none

/-- The sequence number that a call has published. -/
def stored (w : Writer) : Option Nat :=
  match w.pc with
  | .inl (.clear seq) | .inr (.stored seq) => some seq
  | _ => none

/-- One if the call holds the flag of slot `j`. -/
def holds (kSlots j : Nat) (w : Writer) : Nat := if w.owns.map (slotOf kSlots) = some j then 1 else 0

/-- How far a call has come with its slot. -/
def Progress (kSlots : Nat) (ring : Ring) (w : Writer) : Prop :=
  match w.pc with
  | .inl (.store seq f) =>
    (ring.slots (slotOf kSlots seq)).seq = 2 * seq + 1 ∧
      Agree (some f) (ring.slots (slotOf kSlots seq)).fields w.args.fields
  | .inl (.even seq) =>
    (ring.slots (slotOf kSlots seq)).seq = 2 * seq + 1 ∧
      (ring.slots (slotOf kSlots seq)).fields = w.args.fields
  | .inl (.clear seq) => (ring.slots (slotOf kSlots seq)).seq = 2 * seq
  | _ => True

end Writer

/-- What the slots of the ring hold, on behalf of which calls. -/
structure World.Locked (kSlots : Nat) (s : World) : Prop where
  numbered : Numbered (s.writers.map Writer.seq) s.ring.count
  flags : ∀ j, tally (Writer.holds kSlots j) s.writers = (s.ring.slots j).writing.toNat
  progress : ∀ (i : Nat) w, s.writers[i]? = some w → w.Progress kSlots s.ring
  even : ∀ j q, 0 < q → (s.ring.slots j).seq = 2 * q →
    slotOf kSlots q = j ∧ ∃ (i : Nat) (w : Writer), s.writers[i]? = some w ∧ w.stored = some q ∧
      (s.ring.slots j).fields = w.args.fields
  odd : ∀ j q, (s.ring.slots j).seq = 2 * q + 1 → (s.ring.slots j).writing = true

section
variable {kSlots i : Nat} {s : World} {args : Rejection} {pc : Record}

variable {w : Writer} {ring : Ring}

/-- A call outside the critical part of `record` makes no demands on the slots. -/
theorem Writer.progress_of_owns (free : w.owns = none) : w.Progress kSlots ring := by
  obtain ⟨args, pc | pc⟩ := w
  · cases pc <;> trivial
  · trivial

theorem World.Locked.initial : World.Locked kSlots World.initial where
  numbered := .nil
  flags _ := rfl
  progress i w never := by simp [World.initial] at never
  even j q positive never := by
    have zero : (0 : Nat) = 2 * q := never
    omega
  odd j q never := by
    have zero : (0 : Nat) = 2 * q + 1 := never
    omega

theorem World.Locked.record (inv : s.Locked kSlots) (r : Rejection) :
    World.Locked kSlots { s with writers := s.writers ++ [⟨r, .inl .fetch⟩] } where
  numbered := by
    rw [List.map_append]
    exact inv.numbered.enter
  flags j := by
    rw [tally_append, inv.flags j]
    rfl
  progress i w there := by
    rcases getElem?_of_append there with ⟨rfl, -⟩ | before
    · trivial
    · exact inv.progress i w before
  even j q positive here := by
    obtain ⟨place, i, w, there, facts⟩ := inv.even j q positive here
    exact ⟨place, i, w, getElem?_append_found _ there, facts⟩
  odd := inv.odd

/-- Nobody but call `i` holds the flag of slot `j`. -/
def World.Alone (kSlots : Nat) (s : World) (i j : Nat) : Prop :=
  ∀ (k : Nat) w, k ≠ i → s.writers[k]? = some w → w.owns.map (slotOf kSlots) ≠ some j

theorem World.Locked.alone_of_free (inv : s.Locked kSlots) (free : (s.ring.slots j).writing = false) :
    s.Alone kSlots i j := by
  intro k w _ there owned
  have none := inv.flags j
  rw [free] at none
  have zero := List.sum_eq_zero_iff.mp none _ (List.mem_map_of_mem (List.mem_of_getElem? there))
  rw [Writer.holds, if_pos owned] at zero
  cases zero

theorem World.Locked.alone_of_owner (inv : s.Locked kSlots) (found : s.writers[i]? = some w)
    (owns : w.owns = some q) : s.Alone kSlots i (slotOf kSlots q) := by
  intro k w' other there owned
  have mine : w.owns.map (slotOf kSlots) = some (slotOf kSlots q) := by rw [owns]; rfl
  have bound : tally (Writer.holds kSlots (slotOf kSlots q)) s.writers ≤ 1 := by
    rw [inv.flags]
    exact Bool.toNat_le _
  refine other (tally_unique bound there found ?_ ?_)
  · rw [Writer.holds, if_pos owned]
    exact Nat.one_pos
  · rw [Writer.holds, if_pos mine]
    exact Nat.one_pos

@[simp] theorem onSlot_here (ring : Ring) (j : Nat) (change : Slot → Slot) :
    (ring.onSlot j change).slots j = change (ring.slots j) := Function.update_self ..

theorem onSlot_other (apart : k ≠ j) :
    (ring.onSlot j change).slots k = ring.slots k := Function.update_of_ne apart ..

theorem Writer.Progress.onSlot (progress : w.Progress kSlots ring)
    (elsewhere : w.owns.map (slotOf kSlots) ≠ some j) :
    w.Progress kSlots (ring.onSlot j change) := by
  cases owned : w.owns with
  | none => exact progress_of_owns owned
  | some q =>
    have apart : slotOf kSlots q ≠ j := by
      rw [owned] at elsewhere
      exact fun same => elsewhere (congrArg some same)
    obtain ⟨args, pc | pc⟩ := w
    · cases pc <;> cases owned <;> simp only [Progress, onSlot_other apart] at progress ⊢ <;>
        exact progress
    · cases owned

theorem stored_set {fields : Fields} (found : s.writers[i]? = some w)
    (kept : ∀ p, w.stored = some p → w'.stored = some p ∧ w'.args = w.args)
    (evidence : ∃ (k : Nat) (v : Writer), s.writers[k]? = some v ∧ v.stored = some q ∧
      fields = v.args.fields) :
    ∃ (k : Nat) (v : Writer), (s.writers.set i w')[k]? = some v ∧ v.stored = some q ∧
      fields = v.args.fields := by
  obtain ⟨k, v, there, stored, same⟩ := evidence
  by_cases here : k = i
  · subst here
    cases there.symm.trans found
    obtain ⟨again, args⟩ := kept q stored
    exact ⟨k, w', getElem?_set_found found w', again, by rw [args, same]⟩
  · exact ⟨k, v, by rw [List.getElem?_set_ne (Ne.symm here), there], stored, same⟩

theorem Writer.holds_here (owns : w.owns = some q) : w.holds kSlots (slotOf kSlots q) = 1 := by
  rw [holds, owns]
  exact if_pos rfl

theorem Writer.holds_away (owns : w.owns = some q) (apart : j ≠ slotOf kSlots q) :
    w.holds kSlots j = 0 := by
  rw [holds, owns]
  exact if_neg fun same => apart (Option.some.inj same).symm

section
variable (inv : s.Locked kSlots)
include inv

section
variable (found : s.writers[i]? = some w)
include found

theorem World.Locked.flag_of_owner
    (owns : w.owns = some q) : (s.ring.slots (slotOf kSlots q)).writing = true := by
  have weight := weight_le_tally (w := Writer.holds kSlots (slotOf kSlots q))
    (List.mem_of_getElem? found)
  rw [inv.flags, Writer.holds_here owns] at weight
  exact Bool.toNat_eq_one.mp (Nat.le_antisymm (Bool.toNat_le _) weight)

theorem World.Locked.numbered_set (same : w'.seq = w.seq) :
    Numbered ((s.writers.set i w').map Writer.seq) s.ring.count := by
  have there : (s.writers.map Writer.seq)[i]? = some w.seq := by rw [List.getElem?_map, found]; rfl
  rw [List.map_set, same, set_found there]
  exact inv.numbered

theorem World.Locked.aside
    (slots : ring.slots = s.ring.slots) (before : w.owns = none) (after : w'.owns = none)
    (unstored : w.stored = none)
    (numbered : Numbered ((s.writers.set i w').map Writer.seq) ring.count) :
    World.Locked kSlots { s with ring := ring, writers := s.writers.set i w' } where
  numbered := numbered
  flags j := by
    have exchanged := tally_set (w := Writer.holds kSlots j) found w'
    simp only [Writer.holds, before, after] at exchanged
    rw [slots, ← inv.flags j]
    exact exchanged
  progress k v there := by
    rcases getElem?_of_set there with rfl | before
    · exact Writer.progress_of_owns after
    · have progress := inv.progress k v before
      simp only [Writer.Progress, slots] at progress ⊢
      exact progress
  even j q positive here := by
    rw [slots] at here ⊢
    obtain ⟨place, evidence⟩ := inv.even j q positive here
    refine ⟨place, stored_set found (fun p stored => ?_) evidence⟩
    cases unstored.symm.trans stored
  odd j q here := by
    rw [slots] at here ⊢
    exact inv.odd j q here

theorem World.Locked.on_slot (w' : Writer)
    (change : Slot → Slot) (seq : w'.seq = w.seq) (alone : s.Alone kSlots i (slotOf kSlots q))
    (elsewhere : ∀ j, j ≠ slotOf kSlots q → w'.holds kSlots j = w.holds kSlots j)
    (flag : (change (s.ring.slots (slotOf kSlots q))).writing.toNat +
      w.holds kSlots (slotOf kSlots q) =
        (s.ring.slots (slotOf kSlots q)).writing.toNat + w'.holds kSlots (slotOf kSlots q))
    (kept : ∀ p, w.stored = some p → w'.stored = some p ∧ w'.args = w.args)
    (progress : w'.Progress kSlots (s.ring.onSlot (slotOf kSlots q) change))
    (even : ∀ p, 0 < p → (change (s.ring.slots (slotOf kSlots q))).seq = 2 * p →
      (p = q ∧ w'.stored = some q ∧
        (change (s.ring.slots (slotOf kSlots q))).fields = w'.args.fields) ∨
      ((s.ring.slots (slotOf kSlots q)).seq = 2 * p ∧
        (change (s.ring.slots (slotOf kSlots q))).fields =
          (s.ring.slots (slotOf kSlots q)).fields))
    (odd : ∀ p, (change (s.ring.slots (slotOf kSlots q))).seq = 2 * p + 1 →
      (change (s.ring.slots (slotOf kSlots q))).writing = true) :
    World.Locked kSlots
      { s with ring := s.ring.onSlot (slotOf kSlots q) change, writers := s.writers.set i w' } where
  numbered := inv.numbered_set found seq
  flags j := by
    have exchanged := tally_set (w := Writer.holds kSlots j) found w'
    rw [inv.flags j] at exchanged
    dsimp only
    by_cases here : j = slotOf kSlots q
    · subst here
      rw [onSlot_here]
      omega
    · rw [onSlot_other here]
      have same := elsewhere j here
      omega
  progress k v there := by
    rcases getElem?_set_cases there with ⟨rfl, rfl⟩ | ⟨other, before⟩
    · exact progress
    · exact (inv.progress k v before).onSlot (alone k v other before)
  even j p positive here := by
    by_cases at_slot : j = slotOf kSlots q
    · subst at_slot
      rw [onSlot_here] at here ⊢
      rcases even p positive here with ⟨rfl, stored, fields⟩ | ⟨before, fields⟩
      · exact ⟨rfl, i, w', getElem?_set_found found w', stored, fields⟩
      · obtain ⟨place, evidence⟩ := inv.even _ p positive before
        rw [fields]
        exact ⟨place, stored_set found kept evidence⟩
    · rw [onSlot_other at_slot] at here ⊢
      obtain ⟨place, evidence⟩ := inv.even j p positive here
      exact ⟨place, stored_set found kept evidence⟩
  odd j p here := by
    by_cases at_slot : j = slotOf kSlots q
    · subst at_slot
      rw [onSlot_here] at here ⊢
      exact odd p here
    · rw [onSlot_other at_slot] at here ⊢
      exact inv.odd j p here

end

section
variable (bound : s.writers.length < 2 ^ 63)
include bound

theorem World.Locked.small
    (found : s.writers[i]? = some w) (seq : w.seq = some q) : q < 2 ^ 63 := by
  have there : (s.writers.map Writer.seq)[i]? = some (some q) := by
    rw [List.getElem?_map, found, ← seq]
    rfl
  have below := (inv.numbered.range i q there).2
  have total := inv.numbered.total
  rw [List.length_map] at total
  omega

theorem World.Locked.fetched (found : s.writers[i]? = some ⟨args, .inl .fetch⟩) :
    (s.ring.count + 1) % 2 ^ 64 = s.ring.count + 1 := by
  have there : (s.writers.map Writer.seq)[i]? = some none := by rw [List.getElem?_map, found]; rfl
  have total := inv.numbered.total
  rw [List.length_map] at total
  exact Nat.mod_eq_of_lt (by omega)

theorem World.Locked.write (found : s.writers[i]? = some ⟨args, .inl pc⟩) :
    World.Locked kSlots { s with
      ring := (recordStep kSlots args s.ring pc).1
      writers := s.writers.set i ⟨args, (recordStep kSlots args s.ring pc).2⟩ } := by
  cases pc with
  | fetch =>
    simp only [recordStep]
    split
    · exact inv.aside found rfl rfl rfl rfl (inv.numbered_set found rfl)
    · refine inv.aside found rfl rfl rfl rfl ?_
      have there : (s.writers.map Writer.seq)[i]? = some none := by
        rw [List.getElem?_map, found]
        rfl
      rw [inv.fetched bound found, List.map_set]
      exact inv.numbered.assign there
  | flag q =>
    simp only [recordStep]
    split
    · exact inv.aside found rfl rfl rfl rfl (inv.numbered_set found rfl)
    · rename_i free
      rw [Bool.not_eq_true] at free
      refine inv.on_slot found ⟨args, .inl (.odd q)⟩ (fun s => { s with writing := true }) rfl
        (inv.alone_of_free free) ?_ ?_ ?_ trivial ?_ ?_
      · exact fun j apart => Writer.holds_away rfl apart
      · rw [free, Writer.holds_here (w := ⟨args, .inl (.odd q)⟩) rfl]
        rfl
      · exact fun p never => nomatch never
      · exact fun p _ same => .inr ⟨same, rfl⟩
      · exact fun _ _ => rfl
  | drop => exact inv.aside found rfl rfl rfl rfl (inv.numbered_set found rfl)
  | odd q =>
    have small := inv.small bound found rfl
    have held := inv.flag_of_owner found rfl
    refine inv.on_slot found ⟨args, .inl (.store q .target)⟩
      (fun s => { s with seq := published q ||| 1 }) rfl (inv.alone_of_owner found rfl)
      (fun _ _ => rfl) rfl ?_ ?_ ?_ ?_
    · exact fun p never => nomatch never
    · simp only [Writer.Progress, onSlot_here]
      exact ⟨published_odd small, trivial⟩
    · intro p _ same
      dsimp only at same
      rw [published_odd small] at same
      omega
    · exact fun _ _ => held
  | store q f =>
    have held := inv.flag_of_owner found rfl
    obtain ⟨moving, agree⟩ := inv.progress i _ found
    have copied := agree.copy
    have torn (p : Nat) (same : (s.ring.slots (slotOf kSlots q)).seq = 2 * p) : False := by omega
    simp only [recordStep]
    -- the last field leads to the even store
    cases next : f.next with
    | some _ | none =>
      rw [next] at copied
      refine inv.on_slot found _ (fun s => { s with fields := args.fields.copy s.fields f }) rfl
        (inv.alone_of_owner found rfl) (fun _ _ => rfl) rfl (fun p never => nomatch never) ?_
        (fun p _ same => (torn p same).elim) (fun _ _ => held)
      simp only [Writer.Progress, onSlot_here]
      exact ⟨moving, copied⟩
  | even q =>
    have small := inv.small bound found rfl
    obtain ⟨moving, fields⟩ := inv.progress i _ found
    refine inv.on_slot found ⟨args, .inl (.clear q)⟩ (fun s => { s with seq := published q }) rfl
      (inv.alone_of_owner found rfl) (fun _ _ => rfl) rfl ?_ ?_ ?_ ?_
    · exact fun p never => nomatch never
    · simp only [Writer.Progress, onSlot_here, published_eq small]
    · intro p _ same
      dsimp only at same ⊢
      rw [published_eq small] at same
      exact .inl ⟨by omega, rfl, fields⟩
    · intro p same
      dsimp only at same
      rw [published_eq small] at same
      omega
  | clear q =>
    have settled := inv.progress i _ found
    have held := inv.flag_of_owner found rfl
    refine inv.on_slot found ⟨args, .inr (.stored q)⟩ (fun s => { s with writing := false }) rfl
      (inv.alone_of_owner found rfl) ?_ ?_ ?_ trivial ?_ ?_
    · exact fun j apart => (Writer.holds_away rfl apart).symm
    · rw [held, Writer.holds_here rfl]
      rfl
    · exact fun p stored => ⟨stored, rfl⟩
    · exact fun p _ same => .inr ⟨same, rfl⟩
    · intro p same
      rw [Writer.Progress] at settled
      dsimp only at same settled
      omega

end

end

end

end Coact.Snapshot
