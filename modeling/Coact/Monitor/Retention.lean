import Mathlib.Order.Interval.Finset.Nat
import Coact.Monitor.Consistency

/-! Snapshot retention. If every writer that takes a slot finds an older record in it,
the slot numbers only grow, and in a quiescent ring each of the latest records that
was not dropped can be looked up. A writer that was delayed between its number and
its flag overwrites a newer record, and no drop is counted. -/
namespace Coact.Snapshot
open Foundation

/-- The number of a call that is about to test the writer flag. -/
def Writer.atFlag (w : Writer) : Option Nat :=
  match w.pc with
  | .inl (.flag q) => some q
  | _ => none

/-- A `record` that takes the writer flag finds an older number in its slot. -/
def InOrder (kSlots : Nat) : Label → World → Prop
  | .write i, s => ∀ q ∈ s.writers[i]?.bind Writer.atFlag,
      (s.ring.slots (slotOf kSlots q)).writing = false →
        (s.ring.slots (slotOf kSlots q)).seq < published q
  | _, _ => True

instance (kSlots : Nat) : ∀ label s, Decidable (InOrder kSlots label s)
  | .write i, s => inferInstanceAs (Decidable (∀ q ∈ s.writers[i]?.bind Writer.atFlag, _ → _))
  | .record _, _ | .lookup _, _ | .read _, _ => instDecidableTrue

/-- The number of a call that has taken its slot. -/
def Writer.atOdd (w : Writer) : Option Nat :=
  match w.pc with
  | .inl (.odd q) => some q
  | _ => none

/-- The number of a call that was dropped. -/
def Writer.droppedSeq (w : Writer) : Option Nat :=
  match w.pc with
  | .inr (.dropped q) => some q
  | _ => none

/-- One if the call was dropped. -/
def Writer.wasDropped (w : Writer) : Nat := w.droppedSeq.toList.length

structure World.Ordered (kSlots : Nat) (s : World) : Prop where
  published : ∀ (i : Nat) (w : Writer) q, s.writers[i]? = some w → w.stored = some q →
    2 * q ≤ (s.ring.slots (slotOf kSlots q)).seq
  taking : ∀ (i : Nat) args q, s.writers[i]? = some ⟨args, .inl (.odd q)⟩ →
    (s.ring.slots (slotOf kSlots q)).seq < 2 * q
  dropped : s.ring.dropped = tally Writer.wasDropped s.writers % 2 ^ 32

section
variable {kSlots i : Nat} {s : World} {args : Rejection} {pc : Record}

theorem World.Ordered.initial : World.Ordered kSlots World.initial where
  published i w q never := by simp [World.initial] at never
  taking i args q never := by simp [World.initial] at never
  dropped := rfl

variable {ring : Ring}

theorem onSlot_seq (change : Slot → Slot) (kept : ∀ slot, (change slot).seq = slot.seq)
    (j : Nat) : ((ring.onSlot p change).slots j).seq = (ring.slots j).seq := by
  by_cases here : j = p
  · rw [here, onSlot_here, kept]
  · rw [onSlot_other here]

variable {w : Writer}

section
variable (inv : s.Ordered kSlots)
include inv

theorem World.Ordered.quiet (found : s.writers[i]? = some w)
    (same : ∀ j, (ring.slots j).seq = (s.ring.slots j).seq)
    (kept : ∀ q, w'.stored = some q → w.stored = some q)
    (taking : ∀ args q, w' = ⟨args, .inl (.odd q)⟩ → (s.ring.slots (slotOf kSlots q)).seq < 2 * q)
    (dropped : ring.dropped = (s.ring.dropped + w'.wasDropped) % 2 ^ 32)
    (undropped : w.wasDropped = 0) :
    World.Ordered kSlots { s with ring := ring, writers := s.writers.set i w' } where
  published k v q there stored := by
    rw [same]
    rcases getElem?_of_set there with rfl | before
    · exact inv.published i w q found (kept q stored)
    · exact inv.published k v q before stored
  taking k args q there := by
    rw [same]
    rcases getElem?_of_set there with new | before
    · exact taking args q new.symm
    · exact inv.taking k args q before
  dropped := by
    have exchanged := tally_set (w := Writer.wasDropped) found w'
    rw [undropped, Nat.add_zero] at exchanged
    rw [dropped, inv.dropped, exchanged, Nat.mod_add_mod]

theorem World.Ordered.calm (found : s.writers[i]? = some w)
    (same : ∀ j, (ring.slots j).seq = (s.ring.slots j).seq) (unstored : w'.stored = none)
    (untaken : w'.atOdd = none) (dropped : ring.dropped = (s.ring.dropped + w'.wasDropped) % 2 ^ 32)
    (undropped : w.wasDropped = 0) :
    World.Ordered kSlots { s with ring := ring, writers := s.writers.set i w' } := by
  refine inv.quiet found same (fun q stored => ?_) (fun args q taking => ?_) dropped undropped
  · rw [unstored] at stored
    cases stored
  · rw [taking] at untaken
    cases untaken

theorem World.Ordered.raise (locked : s.Locked kSlots)
    {p seq : Nat} (found : s.writers[i]? = some w) (owns : w.owns = some p)
    (above : ∀ q, 2 * q ≤ (s.ring.slots (slotOf kSlots p)).seq → 2 * q ≤ seq)
    (new : ∀ q, w'.stored = some q → q = p ∧ 2 * q ≤ seq) (untaken : w'.atOdd = none)
    (undropped : w.wasDropped = 0 ∧ w'.wasDropped = 0) : World.Ordered kSlots { s with
      ring := s.ring.onSlot (slotOf kSlots p) fun slot => { slot with seq := seq }
      writers := s.writers.set i w' } where
  published k v q there stored := by
    rcases getElem?_of_set there with rfl | before
    · obtain ⟨rfl, below⟩ := new q stored
      rw [onSlot_here]
      exact below
    · have below := inv.published k v q before stored
      by_cases here : slotOf kSlots q = slotOf kSlots p
      · rw [here] at below ⊢
        rw [onSlot_here]
        exact above q below
      · rw [onSlot_other here]
        exact below
  taking k args q there := by
    rcases getElem?_set_cases there with ⟨-, new⟩ | ⟨other, before⟩
    · rw [← new] at untaken
      cases untaken
    · have apart : slotOf kSlots q ≠ slotOf kSlots p := fun same =>
        locked.alone_of_owner found owns k _ other before (congrArg some same)
      rw [onSlot_other apart]
      exact inv.taking k args q before
  dropped := by
    have exchanged := tally_set (w := Writer.wasDropped) found w'
    rw [undropped.1, undropped.2] at exchanged
    exact inv.dropped.trans (congrArg (· % 2 ^ 32) exchanged.symm)

theorem World.Ordered.enter (r : Rejection) :
    World.Ordered kSlots { s with writers := s.writers ++ [⟨r, .inl .fetch⟩] } where
  published k v q there stored := by
    rcases getElem?_of_append there with ⟨rfl, -⟩ | before
    · cases stored
    · exact inv.published k v q before stored
  taking k args q there := by
    rcases getElem?_of_append there with ⟨never, -⟩ | before
    · cases never
    · exact inv.taking k args q before
  dropped := by
    rw [tally_append]
    exact inv.dropped

theorem World.Ordered.write (locked : s.Locked kSlots)
    (bound : s.writers.length < 2 ^ 63) (inOrder : InOrder kSlots (.write i) s)
    (found : s.writers[i]? = some ⟨args, .inl pc⟩) :
    World.Ordered kSlots { s with
      ring := (recordStep kSlots args s.ring pc).1
      writers := s.writers.set i ⟨args, (recordStep kSlots args s.ring pc).2⟩ } := by
  have unchanged : s.ring.dropped = (s.ring.dropped + 0) % 2 ^ 32 := by
    rw [inv.dropped, Nat.add_zero, Nat.mod_mod]
  cases pc with
  | fetch =>
    simp only [recordStep]
    split
    · exact inv.calm found (fun _ => rfl) rfl rfl unchanged rfl
    · exact inv.calm found (fun _ => rfl) rfl rfl unchanged rfl
  | flag p =>
    have small := locked.small bound found rfl
    simp only [recordStep]
    split
    · exact inv.calm found (fun _ => rfl) rfl rfl unchanged rfl
    · rename_i free
      rw [Bool.not_eq_true] at free
      have here : p ∈ s.writers[i]?.bind Writer.atFlag := by
        rw [found]
        rfl
      have older := inOrder p here free
      rw [published_eq small] at older
      refine inv.quiet found (onSlot_seq (fun s => { s with writing := true }) fun _ => rfl)
        (fun q stored => ?_) (fun _ q same => ?_) unchanged rfl
      · cases stored
      · cases same
        exact older
  | drop =>
    exact inv.calm found (fun _ => rfl) rfl rfl rfl rfl
  | odd p =>
    have small := locked.small bound found rfl
    have older := inv.taking i args p found
    refine inv.raise locked found rfl (fun q below => ?_) (fun q stored => ?_) rfl ⟨rfl, rfl⟩
    · rw [published_odd small]
      omega
    · cases stored
  | store p f =>
    simp only [recordStep]
    cases f.next with
    | some | none =>
      exact inv.calm found (onSlot_seq _ fun _ => rfl) rfl rfl unchanged rfl
  | even p =>
    have small := locked.small bound found rfl
    obtain ⟨moving, -⟩ := locked.progress i _ found
    refine inv.raise locked found rfl (fun q below => ?_) (fun q stored => ?_) rfl ⟨rfl, rfl⟩
    · rw [published_eq small]
      omega
    · cases stored
      exact ⟨rfl, (published_eq small).ge⟩
  | clear =>
    refine inv.quiet found (onSlot_seq (fun s => { s with writing := false }) fun _ => rfl)
      (fun q stored => stored) (fun args q taking => ?_) unchanged rfl
    cases taking

end

theorem World.ordered_of_reaches (run : Reaches (World.step kSlots) (InOrder kSlots) .initial s) :
    s.Consistent kSlots ∧ (s.writers.length < 2 ^ 63 → s.Ordered kSlots) := by
  refine run.invariant (P := fun s => s.Consistent kSlots ∧
    (s.writers.length < 2 ^ 63 → s.Ordered kSlots)) ?_ fun label s t inv inOrder ran =>
      ⟨inv.1.step ran, fun bound => ?_⟩
  · exact ⟨World.consistent_of_reaches .refl, fun _ => .initial⟩
  obtain ⟨consistent, ordered⟩ := inv
  cases label with
  | record r =>
    cases ran
    rw [List.length_append] at bound
    exact (ordered (by omega)).enter r
  | write i =>
    simp only [World.step] at ran
    split at ran <;> cases ran
    rename_i args pc found
    rw [List.length_set] at bound
    exact (ordered bound).write (consistent bound).1 bound inOrder found
  | lookup =>
    cases ran
    exact { ordered bound with }
  | read i =>
    simp only [World.step] at ran
    split at ran
    · rename_i q pc found
      have kept : (lookupStep kSlots q s.ring pc).1 = s.ring := by cases pc <;> rfl
      cases ran
      rw [kept]
      exact { ordered bound with }
    · cases ran

/-- No `record` is in progress. -/
def World.Quiescent (s : World) : Prop := ∀ w ∈ s.writers, w.pc.isRight = true

instance (s : World) : Decidable s.Quiescent := inferInstanceAs (Decidable (∀ w ∈ s.writers, _))

/-- The latest sequence numbers that cannot be looked up. -/
def World.missing (kSlots : Nat) (s : World) : Finset Nat :=
  (Finset.Ioc (s.ring.count - kSlots) s.ring.count).filter fun q =>
    (lookup kSlots s.ring q).isOk = false

theorem World.Quiescent.unheld (quiet : s.Quiescent) (locked : s.Locked kSlots) (j : Nat) :
    (s.ring.slots j).writing = false := by
  have none : tally (Writer.holds kSlots j) s.writers = 0 := by
    refine tally_zero fun w mem => ?_
    have returned := quiet w mem
    obtain ⟨args, pc | pc⟩ := w
    · cases returned
    · rfl
  rw [locked.flags j] at none
  exact Bool.toNat_eq_zero.mp none

variable {q : Nat}

theorem slotOf_unique {p n : Nat} (positive : 0 < q) (above : q ≤ p) (last : p ≤ n)
    (recent : n - kSlots < q) (same : slotOf kSlots p = slotOf kSlots q) : p = q := by
  have apart : (p - 1 - (q - 1)) % kSlots = 0 := Nat.sub_mod_eq_zero_of_mod_eq same
  rw [Nat.mod_eq_of_lt (by omega)] at apart
  omega

/-- In a quiescent ring a recent record that was stored shows in its slot. -/
theorem World.Ordered.shows (inv : s.Ordered kSlots) (locked : s.Locked kSlots)
    (quiet : s.Quiescent) (found : s.writers[i]? = some w) (stored : w.stored = some q)
    (recent : s.ring.count - kSlots < q) : (s.ring.slots (slotOf kSlots q)).seq = 2 * q := by
  have numbered {k p : Nat} {v : Writer} (there : s.writers[k]? = some v)
      (stored : v.stored = some p) : 0 < p ∧ p ≤ s.ring.count := by
    refine locked.numbered.range k p ?_
    rw [List.getElem?_map, there, ← Writer.seq_of_stored stored]
    rfl
  have below := inv.published i w q found stored
  have positive := (numbered found stored).1
  obtain ⟨p, even | odd⟩ : ∃ p, (s.ring.slots (slotOf kSlots q)).seq = 2 * p ∨
      (s.ring.slots (slotOf kSlots q)).seq = 2 * p + 1 :=
    ⟨(s.ring.slots (slotOf kSlots q)).seq / 2, by omega⟩
  · obtain ⟨place, k, v, there, published, -⟩ := locked.even _ p (by omega) even
    have last := (numbered there published).2
    obtain rfl := slotOf_unique positive (by omega) last recent place
    exact even
  · cases (quiet.unheld locked _).symm.trans (locked.odd _ p odd)

theorem lookup_of_shows (positive : 0 < q) (below : q ≤ ring.count)
    (recent : ring.count - kSlots < q) (shows : (ring.slots (slotOf kSlots q)).seq = published q) :
    (lookup kSlots ring q).isOk = true := by
  rw [lookup, if_neg (by omega), if_neg (by omega), if_neg (by omega), if_neg (by omega),
    if_neg (not_not_intro shows)]
  rfl

/-- Every latest number that is missing belongs to a call that was dropped. -/
theorem World.Ordered.missing_dropped (inv : s.Ordered kSlots) (locked : s.Locked kSlots)
    (bound : s.writers.length < 2 ^ 63) (quiet : s.Quiescent) (missing : q ∈ s.missing kSlots) :
    ∃ args, ⟨args, .inr (.dropped q)⟩ ∈ s.writers := by
  obtain ⟨range, fails⟩ := Finset.mem_filter.mp missing
  obtain ⟨recent, below⟩ := Finset.mem_Ioc.mp range
  have positive : 0 < q := by omega
  obtain ⟨i, there⟩ := locked.numbered.taken q positive below
  rw [List.getElem?_map, Option.map_eq_some_iff] at there
  obtain ⟨⟨args, pc⟩, found, assigned⟩ := there
  have small := locked.small bound found assigned
  have mem := List.mem_of_getElem? found
  have returned := quiet _ mem
  cases pc with
  | inl => cases returned
  | inr result =>
    cases result with
    | stored =>
      cases assigned
      have shows := inv.shows locked quiet found rfl recent
      rw [← published_eq small] at shows
      cases fails.symm.trans (lookup_of_shows positive below recent shows)
    | dropped =>
      cases assigned
      exact ⟨args, mem⟩
    | disabled => cases assigned

/-- A record among the latest `kSlots` is missing only if a drop was counted, provided
that no writer takes a slot with a newer record in it. -/
theorem snapshot_retention (kSlots : Nat) (s : World)
    (run : Reaches (World.step kSlots) (InOrder kSlots) .initial s)
    (bound : s.writers.length < 2 ^ 63) (drops : tally Writer.wasDropped s.writers < 2 ^ 32)
    (quiescent : s.Quiescent) : (s.missing kSlots).card ≤ s.ring.dropped := by
  obtain ⟨consistent, ordered⟩ := World.ordered_of_reaches run
  have locked := (consistent bound).1
  have inv := ordered bound
  have covered : s.missing kSlots ⊆ (s.writers.filterMap Writer.droppedSeq).toFinset := by
    intro q missing
    obtain ⟨args, mem⟩ := inv.missing_dropped locked bound quiescent missing
    exact List.mem_toFinset.mpr (List.mem_filterMap.mpr ⟨_, mem, rfl⟩)
  calc (s.missing kSlots).card
      ≤ (s.writers.filterMap Writer.droppedSeq).toFinset.card := Finset.card_le_card covered
    _ ≤ (s.writers.filterMap Writer.droppedSeq).length := List.toFinset_card_le _
    _ = s.ring.dropped := by
        rw [length_filterMap, inv.dropped, Nat.mod_eq_of_lt drops]
        rfl

/-- The third writer finds the first one in its slot and drops its record. -/
def contended : List Label :=
  [Label.record firstRejection, .record secondRejection, .record secondRejection, .write 0,
      .write 0] ++
    List.replicate 10 (Label.write 1) ++ List.replicate 3 (Label.write 2) ++
    List.replicate 8 (Label.write 0)

theorem snapshot_retention_contended :
    (outcome (World.step 2) contended .initial).ring.dropped = 1 ∧
      (outcome (World.step 2) contended .initial).missing 2 = {3} ∧
      ((outcome (World.step 2) contended .initial).missing 2).card ≤
        (outcome (World.step 2) contended .initial).ring.dropped :=
  ⟨by decide +kernel, by decide +kernel,
    snapshot_retention 2 _ (reaches_decided (by decide +kernel))
      (by decide +kernel) (by decide +kernel) (by decide +kernel)⟩

end

/-- The first writer has its number when two later records go by. -/
def delayed : List Label :=
  [Label.record firstRejection, .record secondRejection, .record secondRejection, .write 0] ++
    List.replicate 10 (Label.write 1) ++ List.replicate 10 (Label.write 2) ++
    List.replicate 9 (Label.write 0)

/-- The delayed writer overwrites the third record, the latest one, and no drop is
counted. -/
theorem latest_overwritten :
    Reaches (World.step 2) Always .initial (outcome (World.step 2) delayed .initial) ∧
      (outcome (World.step 2) delayed .initial).Quiescent ∧
      (outcome (World.step 2) delayed .initial).ring.count = 3 ∧
      lookup 2 (outcome (World.step 2) delayed .initial).ring 3 = .error .kTorn ∧
      ¬ ((outcome (World.step 2) delayed .initial).missing 2).card ≤
        (outcome (World.step 2) delayed .initial).ring.dropped :=
  ⟨reaches_outcome (by decide +kernel), by decide +kernel, by decide +kernel, by decide +kernel,
    by decide +kernel⟩

end Coact.Snapshot
