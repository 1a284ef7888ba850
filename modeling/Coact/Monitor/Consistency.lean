import Coact.Monitor.Seqlock

/-! Snapshot consistency. A successful lookup returns the arguments of the one record
that was assigned its sequence number, whatever the writers of the slot do meanwhile. -/
namespace Coact.Snapshot
open Foundation

section
variable {kSlots i : Nat} {s : World} {args : Rejection} {pc : Record}

variable {q : Nat}

theorem Writer.seq_of_stored {w : Writer} (stored : w.stored = some q) : w.seq = some q := by
  obtain ⟨args, pc | pc⟩ := w <;> cases pc <;> first | exact stored | cases stored

theorem World.Locked.same (inv : s.Locked kSlots)
    (there : s.writers[i]? = some w) (here : s.writers[j]? = some v) (first : w.seq = some q)
    (second : v.seq = some q) : i = j := by
  refine inv.numbered.unique i j q ?_ ?_
  · rw [List.getElem?_map, there, ← first]
    rfl
  · rw [List.getElem?_map, here, ← second]
    rfl

theorem rests_onSlot {ring : Ring} (change : Slot → Slot)
    (here : (change (ring.slots (slotOf kSlots p))).seq = 2 * q →
      (ring.slots (slotOf kSlots p)).seq = 2 * q ∧
        (change (ring.slots (slotOf kSlots p))).fields = (ring.slots (slotOf kSlots p)).fields)
    (shows : ((ring.onSlot (slotOf kSlots p) change).slots (slotOf kSlots q)).seq = 2 * q) :
    (ring.slots (slotOf kSlots q)).seq = 2 * q ∧
      ((ring.onSlot (slotOf kSlots p) change).slots (slotOf kSlots q)).fields =
        (ring.slots (slotOf kSlots q)).fields := by
  by_cases same : slotOf kSlots q = slotOf kSlots p
  · rw [same, onSlot_here] at shows
    rw [same, onSlot_here]
    exact here shows
  · rw [onSlot_other same] at shows ⊢
    exact ⟨shows, rfl⟩

/-- A published number that a slot no longer shows does not come back, and while it
shows the fields rest. -/
theorem World.Locked.rests (inv : s.Locked kSlots) (bound : s.writers.length < 2 ^ 63)
    (found : s.writers[i]? = some ⟨args, .inl pc⟩) {k : Nat}
    (there : s.writers[k]? = some w) (stored : w.stored = some q)
    (shows : ((recordStep kSlots args s.ring pc).1.slots (slotOf kSlots q)).seq = 2 * q) :
    (s.ring.slots (slotOf kSlots q)).seq = 2 * q ∧
      ((recordStep kSlots args s.ring pc).1.slots (slotOf kSlots q)).fields =
        (s.ring.slots (slotOf kSlots q)).fields := by
  cases pc with
  | fetch =>
    simp only [recordStep] at shows ⊢
    split at shows
    · rename_i disabled
      rw [if_pos disabled]
      exact ⟨shows, rfl⟩
    · rename_i enabled
      rw [if_neg enabled]
      exact ⟨shows, rfl⟩
  | flag p =>
    simp only [recordStep] at shows ⊢
    split at shows
    · rename_i busy
      rw [if_pos busy]
      exact ⟨shows, rfl⟩
    · rename_i free
      rw [if_neg free]
      exact rests_onSlot (fun s => { s with writing := true }) (fun same => ⟨same, rfl⟩) shows
  | drop => exact ⟨shows, rfl⟩
  | odd p =>
    have small := inv.small bound found rfl
    refine rests_onSlot (fun s => { s with seq := published p ||| 1 }) (fun same => ?_) shows
    dsimp only at same
    rw [published_odd small] at same
    omega
  | store p f =>
    obtain ⟨moving, -⟩ := inv.progress i _ found
    refine rests_onSlot (fun s => { s with fields := args.fields.copy s.fields f })
      (fun same => ?_) shows
    dsimp only at same
    omega
  | even p =>
    have small := inv.small bound found rfl
    refine rests_onSlot (fun s => { s with seq := published p }) (fun same => ?_) shows
    -- The number is stored here for the first time, so nobody has published it before.
    dsimp only at same
    rw [published_eq small] at same
    obtain rfl : p = q := by omega
    obtain rfl := inv.same found there rfl (Writer.seq_of_stored stored)
    cases Option.some.inj (found.symm.trans there)
    cases stored
  | clear =>
    exact rests_onSlot (fun s => { s with writing := false }) (fun same => ⟨same, rfl⟩) shows

end

/-- A lookup of `q` that has loaded the fields before `f` into `out`. -/
def World.Seen (kSlots : Nat) (s : World) (q : Nat) (f : Option Field) (out : Fields) : Prop :=
  ∃ (i : Nat) (w : Writer), s.writers[i]? = some w ∧ w.stored = some q ∧
    ((s.ring.slots (slotOf kSlots q)).seq = 2 * q → Agree f out w.args.fields)

def Reader.Sound (kSlots : Nat) (s : World) (r : Reader) : Prop :=
  match r.pc with
  | .inl .first => 0 < r.seq ∧ r.seq ≤ s.ring.count
  | .inl (.load f out) => s.Seen kSlots r.seq (some f) out
  | .inl (.second out) => s.Seen kSlots r.seq none out
  | .inr (.ok snapshot) => ∃ (i : Nat) (w : Writer), s.writers[i]? = some w ∧
      w.stored = some r.seq ∧ snapshot = { w.args.fields with seq := r.seq }
  | _ => True

section
variable {kSlots i : Nat} {s t : World} {args : Rejection} {pc : Record}

/-- What the readers rely on survives. -/
structure World.Follows (kSlots : Nat) (s t : World) : Prop where
  count : s.ring.count ≤ t.ring.count
  stored : ∀ (i : Nat) (w : Writer) q, s.writers[i]? = some w → w.stored = some q →
    ∃ v, t.writers[i]? = some v ∧ v.stored = some q ∧ v.args = w.args
  rests : ∀ (i : Nat) (w : Writer) q, s.writers[i]? = some w → w.stored = some q →
    (t.ring.slots (slotOf kSlots q)).seq = 2 * q → (s.ring.slots (slotOf kSlots q)).seq = 2 * q

theorem Reader.Sound.follow {r : Reader} (sound : r.Sound kSlots s) (follows : s.Follows kSlots t) :
    r.Sound kSlots t := by
  have seen {q : Nat} {f : Option Field} {out : Fields} (seen : s.Seen kSlots q f out) :
      t.Seen kSlots q f out := by
    obtain ⟨i, w, there, stored, agree⟩ := seen
    obtain ⟨v, still, again, same⟩ := follows.stored i w q there stored
    refine ⟨i, v, still, again, fun shows => ?_⟩
    rw [same]
    exact agree (follows.rests i w q there stored shows)
  obtain ⟨q, (_ | _ | ⟨f, out⟩ | out) | (error | snapshot)⟩ := r
  · trivial
  · exact ⟨sound.1, sound.2.trans follows.count⟩
  · exact seen sound
  · exact seen sound
  · trivial
  · obtain ⟨i, w, there, stored, same⟩ := sound
    obtain ⟨v, still, again, args⟩ := follows.stored i w q there stored
    exact ⟨i, v, still, again, by rw [args]; exact same⟩

theorem recordStep_count (inv : s.Locked kSlots) (bound : s.writers.length < 2 ^ 63)
    (found : s.writers[i]? = some ⟨args, .inl pc⟩) :
    s.ring.count ≤ (recordStep kSlots args s.ring pc).1.count := by
  cases pc with
  | fetch =>
    simp only [recordStep]
    split
    · exact le_rfl
    · rw [inv.fetched bound found]
      exact Nat.le_succ _
  | flag =>
    simp only [recordStep]
    split <;> exact le_rfl
  | _ => exact le_rfl

variable {q : Nat}

theorem recordStep_stored {ring : Ring} (stored : (⟨args, .inl pc⟩ : Writer).stored = some q) :
    (⟨args, (recordStep kSlots args ring pc).2⟩ : Writer).stored = some q := by
  cases pc <;> first | exact stored | cases stored

theorem World.Locked.follows_write (inv : s.Locked kSlots) (bound : s.writers.length < 2 ^ 63)
    (found : s.writers[i]? = some ⟨args, .inl pc⟩) :
    s.Follows kSlots { s with
      ring := (recordStep kSlots args s.ring pc).1
      writers := s.writers.set i ⟨args, (recordStep kSlots args s.ring pc).2⟩ } where
  count := recordStep_count inv bound found
  stored k w q there stored := by
    by_cases here : k = i
    · subst here
      cases there.symm.trans found
      exact ⟨_, getElem?_set_found found _, recordStep_stored stored, rfl⟩
    · exact ⟨w, by rw [List.getElem?_set_ne (Ne.symm here), there], stored, rfl⟩
  rests _ _ _ there stored shows := (inv.rests bound found there stored shows).1

theorem World.follows_record (r : Rejection) :
    s.Follows kSlots { s with writers := s.writers ++ [⟨r, .inl .fetch⟩] } where
  count := le_rfl
  stored _ w _ there stored := ⟨w, getElem?_append_found _ there, stored, rfl⟩
  rests _ _ _ _ _ shows := shows

/-- A lookup that finds its number first: the record has been published, and its
fields are in the slot as long as the number shows. -/
theorem World.Locked.seen (inv : s.Locked kSlots) {out : Fields} (positive : 0 < q)
    (shows : (s.ring.slots (slotOf kSlots q)).seq = 2 * q) :
    s.Seen kSlots q (some .target) out := by
  obtain ⟨-, i, w, there, stored, -⟩ := inv.even _ q positive shows
  exact ⟨i, w, there, stored, fun _ => trivial⟩

theorem World.Locked.seen_copy (inv : s.Locked kSlots) {out : Fields}
    (seen : s.Seen kSlots q (some f) out) :
    s.Seen kSlots q f.next ((s.ring.slots (slotOf kSlots q)).fields.copy out f) := by
  obtain ⟨i, w, there, stored, agree⟩ := seen
  refine ⟨i, w, there, stored, fun shows => ?_⟩
  have positive : 0 < q := by
    refine (inv.numbered.range i q ?_).1
    rw [List.getElem?_map, there, ← Writer.seq_of_stored stored]
    rfl
  obtain ⟨-, k, v, here, again, fields⟩ := inv.even _ q positive shows
  obtain rfl := inv.same there here (Writer.seq_of_stored stored) (Writer.seq_of_stored again)
  cases there.symm.trans here
  rw [fields]
  exact (agree shows).copy

theorem World.Locked.read (inv : s.Locked kSlots) (bound : s.writers.length < 2 ^ 63) {pc : Lookup}
    (sound : Reader.Sound kSlots s ⟨q, .inl pc⟩) :
    Reader.Sound kSlots s ⟨q, (lookupStep kSlots q s.ring pc).2⟩ := by
  cases pc with
  | count =>
    simp only [lookupStep]
    split
    · trivial
    split
    · trivial
    split
    · trivial
    rename_i inside
    split
    · trivial
    · exact ⟨Nat.pos_of_ne_zero fun zero => inside (.inl zero),
        not_lt.mp fun beyond => inside (.inr beyond)⟩
  | first =>
    simp only [lookupStep]
    split
    · trivial
    · rename_i shows
      have total := inv.numbered.total
      rw [List.length_map] at total
      have small : q < 2 ^ 63 := by
        have below : q ≤ s.ring.count := sound.2
        omega
      rw [published_eq small, ne_eq, Decidable.not_not] at shows
      exact inv.seen sound.1 shows
  | load f out =>
    have copied := inv.seen_copy sound
    simp only [lookupStep]
    cases next : f.next with
    | some f' | none =>
      rw [next] at copied
      exact copied
  | second out =>
    obtain ⟨i, w, there, stored, agree⟩ := sound
    simp only [lookupStep]
    split
    · trivial
    · rename_i shows
      have small := inv.small bound there (Writer.seq_of_stored stored)
      rw [published_eq small, ne_eq, Decidable.not_not] at shows
      refine ⟨i, w, there, stored, ?_⟩
      have whole : out = w.args.fields := agree shows
      rw [whole]

/-- Locked slots and sound readers, as long as the sequence numbers do not wrap. -/
def World.Consistent (kSlots : Nat) (s : World) : Prop :=
  s.writers.length < 2 ^ 63 →
    s.Locked kSlots ∧ ∀ (i : Nat) r, s.readers[i]? = some r → r.Sound kSlots s

theorem World.Consistent.step (inv : s.Consistent kSlots)
    (ran : World.step kSlots label s = .ok t) : t.Consistent kSlots := by
  intro bound
  cases label with
  | record r =>
    cases ran
    rw [List.length_append] at bound
    obtain ⟨locked, sound⟩ := inv (by omega)
    exact ⟨locked.record r, fun i r there => (sound i r there).follow (follows_record _)⟩
  | write i =>
    simp only [World.step] at ran
    split at ran <;> cases ran
    rename_i args pc found
    rw [List.length_set] at bound
    obtain ⟨locked, sound⟩ := inv bound
    exact ⟨locked.write bound found,
      fun k r there => (sound k r there).follow (locked.follows_write bound found)⟩
  | lookup seq =>
    cases ran
    obtain ⟨locked, sound⟩ := inv bound
    refine ⟨{ locked with }, fun i r there => ?_⟩
    rcases getElem?_of_append there with ⟨rfl, -⟩ | before
    · trivial
    · exact sound i r before
  | read i =>
    simp only [World.step] at ran
    split at ran
    · rename_i q pc found
      have kept : (lookupStep kSlots q s.ring pc).1 = s.ring := by cases pc <;> rfl
      cases ran
      obtain ⟨locked, sound⟩ := inv bound
      rw [kept]
      refine ⟨{ locked with }, fun k r there => ?_⟩
      rcases getElem?_of_set there with rfl | before
      · exact locked.read bound (sound i _ found)
      · exact sound k r before
    · cases ran

theorem World.consistent_of_reaches (run : Reaches (World.step kSlots) Always .initial s) :
    s.Consistent kSlots :=
  run.invariant (fun _ => ⟨.initial, fun i r never => by simp [World.initial] at never⟩)
    fun _ _ _ inv _ ran => inv.step ran

/-- A successful lookup returns the arguments of the one record that was assigned the
sequence number. -/
theorem snapshot_consistency (kSlots : Nat) (s : World)
    (run : Reaches (World.step kSlots) Always .initial s) (bound : s.writers.length < 2 ^ 63)
    (i seq : Nat) (snapshot : AdmissionSnapshot)
    (returned : s.readers[i]? = some ⟨seq, .inr (.ok snapshot)⟩) :
    ∃ (j : Nat) (w : Writer), s.writers[j]? = some w ∧ w.seq = some seq ∧
      snapshot = { w.args.fields with seq := seq } ∧
      ∀ (k : Nat) v, s.writers[k]? = some v → v.seq = some seq → k = j := by
  obtain ⟨locked, sound⟩ := World.consistent_of_reaches run bound
  obtain ⟨j, w, there, stored, same⟩ := sound i _ returned
  refine ⟨j, w, there, Writer.seq_of_stored stored, same, fun k v here assigned => ?_⟩
  exact locked.same here there assigned (Writer.seq_of_stored stored)

def firstRejection : Rejection := ⟨⟨1⟩, .RejectedFull, 5, 100, 1000⟩

def secondRejection : Rejection := ⟨⟨2⟩, .DroppedRateLimit, 4, 200, 2000⟩

/-- A reader of the first record, interleaved with a second record in the other slot. -/
def interleaved : List Label :=
  [Label.record firstRejection, .record secondRejection] ++ List.replicate 10 (Label.write 0) ++
    [Label.lookup 1, .read 0, .read 0, .read 0, .write 1, .write 1, .write 1, .write 1] ++
    List.replicate 5 (Label.read 0)

theorem snapshot_consistency_interleaved :
    ∃ snapshot, (outcome (World.step 2) interleaved .initial).readers[0]? =
        some ⟨1, .inr (.ok snapshot)⟩ ∧
      ∃ (j : Nat) (w : Writer),
        (outcome (World.step 2) interleaved .initial).writers[j]? = some w ∧ w.seq = some 1 ∧
        snapshot = { w.args.fields with seq := 1 } ∧
        ∀ (k : Nat) v, (outcome (World.step 2) interleaved .initial).writers[k]? = some v →
          v.seq = some 1 → k = j := by
  have returned : (outcome (World.step 2) interleaved .initial).readers[0]? =
      some ⟨1, .inr (.ok { firstRejection.fields with seq := 1 })⟩ := rfl
  exact ⟨_, returned, snapshot_consistency 2 _ (reaches_outcome (by decide +kernel))
    (by decide +kernel) 0 1 _ returned⟩

end

end Coact.Snapshot
