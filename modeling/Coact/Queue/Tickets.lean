import Coact.Queue.Precedence

/-! Publication tickets of `BoundedMpscQueue`: as long as fewer than 2^64 pushes were
made no two Ready cells have the same ticket. With the ledger and the order of
publications this is what the queue guarantees at every moment of a run. -/
namespace Coact.Mpsc
open Foundation
variable {α : Type}

/-- One if the push has drawn its ticket. -/
def Call.drawn : Call α → Nat
  | .running _ (.storeTicket _ _) | .running _ (.publish _) | .returned _ true => 1
  | _ => 0

namespace World
variable {w w' : World α}

/-- Who has a ticket: a push that has drawn it, or the cell it was stored in. -/
inductive Holder where
  | push (i : Nat)
  | cell (k : Nat)

def Bears (w : World α) : Holder → Nat → Prop
  | .push i, t => ∃ v k, w.pushes[i]? = some (.running v (.storeTicket k t)) ∨
      w.pushes[i]? = some (.running v (.publish k)) ∧
        ∃ cell, w.queue.cells[k]? = some cell ∧ cell.ticket = t
  | .cell k, t => ∃ cell, w.queue.cells[k]? = some cell ∧
      (cell.state = .Ready ∨ cell.state = .Consuming) ∧ cell.ticket = t

/-- Tickets are drawn from the counter, and no two holders have the same one. -/
structure Ticketed (w : World α) : Prop where
  drawn : w.queue.publicationTicket = tally Call.drawn w.pushes
  below : ∀ h t, w.Bears h t → t < w.queue.publicationTicket
  unique : ∀ h h' t, w.Bears h t → w.Bears h' t → h = h'

theorem bears_push (same : w'.pushes[i]? = w.pushes[i]?)
    (cells : ∀ v k cell, w.pushes[i]? = some (.running v (.publish k)) →
      w'.queue.cells[k]? = some cell →
        ∃ before, w.queue.cells[k]? = some before ∧ before.ticket = cell.ticket)
    (bears : w'.Bears (.push i) t) : w.Bears (.push i) t := by
  obtain ⟨v, k, drawn | ⟨publishing, cell, there, rfl⟩⟩ := bears
  · exact ⟨v, k, .inl (same ▸ drawn)⟩
  · rw [same] at publishing
    exact ⟨v, k, .inr ⟨publishing, cells v k cell publishing there⟩⟩

theorem Ticketed.back (ticketed : Ticketed w)
    (counter : w'.queue.publicationTicket = w.queue.publicationTicket)
    (drawn : tally Call.drawn w'.pushes = tally Call.drawn w.pushes)
    (back : ∀ h t, w'.Bears h t → w.Bears h t) : Ticketed w' where
  drawn := by rw [counter, drawn, ticketed.drawn]
  below h t bears := by
    rw [counter]
    exact ticketed.below h t (back h t bears)
  unique h h' t one two := ticketed.unique h h' t (back h t one) (back h' t two)

/-- The cell comes from one with the same ticket, which was read where it is. -/
def Stems (q : Mpsc α) (k : Nat) (cell : MpscCell α) : Prop :=
  ∃ before, q.cells[k]? = some before ∧ before.ticket = cell.ticket ∧
    (cell.state = .Ready ∨ cell.state = .Consuming →
      before.state = .Ready ∨ before.state = .Consuming)

theorem Stems.refl {q : Mpsc α} (there : q.cells[k]? = some cell) : Stems q k cell :=
  ⟨cell, there, rfl, id⟩

theorem popStep_cells (inv : Inv q ps (some c)) {k : Nat} {cell : MpscCell α}
    (there : (popStep q c).1.cells[k]? = some cell) : Stems q k cell := by
  have holds := inv.popping c rfl
  cases c with
  | scan =>
    simp only [popStep] at there
    split at there <;> exact .refl there
  | moveOut => exact .refl there
  | consume =>
    rcases modifyCell_origin there with ⟨rfl, before, found, rfl⟩ | ⟨-, there⟩
    · obtain ⟨cell', found', ready⟩ := holds
      cases found.symm.trans found'
      exact ⟨before, found, rfl, fun _ => .inl ready⟩
    · exact .refl there
  | free =>
    rcases modifyCell_origin there with ⟨-, before, found, rfl⟩ | ⟨-, there⟩
    · exact ⟨before, found, rfl, fun read => by rcases read with never | never <;> cases never⟩
    · exact .refl there

theorem Ticketed.consumer (ticketed : Ticketed w) (ok : w.QueueOk)
    (busy : w.pop = some c) : Ticketed (w.consumed (popStep w.queue c)) := by
  rw [QueueOk, busy] at ok
  have counter : (popStep w.queue c).1.publicationTicket = w.queue.publicationTicket := by
    cases c with
    | scan =>
      simp only [popStep]
      split <;> rfl
    | consume | moveOut | free => rfl
  refine ticketed.back counter rfl fun h t bears => ?_
  cases h with
  | push i =>
    have same : (w.consumed (popStep w.queue c)).pushes[i]? = w.pushes[i]? := rfl
    refine bears_push same (fun v k cell _ there => ?_) bears
    obtain ⟨before, found, ticket, -⟩ := popStep_cells ok there
    exact ⟨before, found, ticket⟩
  | cell =>
    obtain ⟨cell, there, read, rfl⟩ := bears
    obtain ⟨before, found, ticket, kept⟩ := popStep_cells ok there
    exact ⟨before, found, kept read, ticket⟩

/-- An access of a push keeps the tickets and the reads of all cells but the one
it stores a ticket in or publishes. -/
theorem pushStep_cells {cell : MpscCell α}
    (unstored : ∀ t, p ≠ .storeTicket k t) (unpublished : p ≠ .publish k)
    (there : (pushStep v q p).1.cells[k]? = some cell) : Stems q k cell := by
  cases p with
  | probe | fetchTicket => exact .refl there
  | cas =>
    simp only [pushStep] at there
    split at there
    · split at there
      · rcases modifyCell_origin there with ⟨-, before, found, rfl⟩ | ⟨-, there⟩
        · exact ⟨before, found, rfl, fun read => by rcases read with never | never <;> cases never⟩
        · exact .refl there
      · exact .refl there
    · exact .refl there
  | construct =>
    rcases modifyCell_origin there with ⟨-, before, found, rfl⟩ | ⟨-, there⟩
    · exact ⟨before, found, rfl, id⟩
    · exact .refl there
  | storeTicket index t =>
    rcases modifyCell_origin there with ⟨rfl, -⟩ | ⟨-, there⟩
    · exact (unstored t rfl).elim
    · exact .refl there
  | publish =>
    rcases modifyCell_origin there with ⟨rfl, -⟩ | ⟨-, there⟩
    · exact (unpublished rfl).elim
    · exact .refl there

section
theorem QueueOk.bears_back (ok : w.QueueOk) (found : w.pushes[i]? = some (.running v p))
    (other : h ≠ .push i) (unpublished : ∀ k, h = .cell k → p ≠ .publish k)
    (bears : (w.produced i v (pushStep ⟨i, v⟩ w.queue p)).Bears h t) : w.Bears h t := by
  cases h with
  | push j =>
    have apart : i ≠ j := fun same => other (by rw [same])
    refine bears_push (List.getElem?_set_ne apart) (fun v' k cell publishing there => ?_) bears
    have mine {p' : Push} (owned : p'.cell = some k) : p ≠ p' := by
      rintro rfl
      exact apart (ok.owner_unique ⟨v', _, publishing, rfl⟩ ⟨v, p, found, owned⟩)
    obtain ⟨before, earlier, ticket, -⟩ := pushStep_cells (fun _ => mine rfl) (mine rfl) there
    exact ⟨before, earlier, ticket⟩
  | cell k =>
    obtain ⟨cell, there, read, rfl⟩ := bears
    have unstored (t : Nat) : p ≠ .storeTicket k t := by
      -- The ticket is stored in a cell that is being written.
      rintro rfl
      obtain ⟨before, here, writing⟩ := ok.owned_writing ⟨v, _, found, rfl⟩
      change (w.queue.modifyCell k _).cells[k]? = some cell at there
      rw [modifyCell_get, if_pos rfl, here] at there
      cases there
      rw [writing] at read
      rcases read with never | never <;> cases never
    obtain ⟨before, earlier, ticket, kept⟩ := pushStep_cells unstored (unpublished k rfl) there
    exact ⟨before, earlier, kept read, ticket⟩

theorem tally_drawn_le (pushes : List (Call α)) : tally Call.drawn pushes ≤ pushes.length := by
  induction pushes with
  | nil => exact le_rfl
  | cons call rest ih =>
    have bound : call.drawn ≤ 1 := by
      unfold Call.drawn
      split <;> omega
    rw [tally_cons, List.length_cons]
    omega

theorem Ticketed.passed (ticketed : Ticketed w) (mine : Holder)
    (counter : w.queue.publicationTicket ≤ w'.queue.publicationTicket)
    (drawn : w'.queue.publicationTicket = tally Call.drawn w'.pushes)
    (old : ∀ h t, h ≠ mine → w'.Bears h t → w.Bears h t)
    (new : ∀ t, w'.Bears mine t → t < w'.queue.publicationTicket ∧
      ∀ h, h ≠ mine → ¬ w'.Bears h t) : Ticketed w' := by
  refine ⟨drawn, fun h t bears => ?_, fun h h' t one two => ?_⟩
  · by_cases same : h = mine
    · exact (new t (same ▸ bears)).1
    · exact (ticketed.below h t (old h t same bears)).trans_le counter
  · by_cases same : h = mine <;> by_cases same' : h' = mine
    · rw [same, same']
    · exact ((new t (same ▸ one)).2 h' same' two).elim
    · exact ((new t (same' ▸ two)).2 h same one).elim
    · exact ticketed.unique h h' t (old h t same one) (old h' t same' two)

theorem Ticketed.fetch (ticketed : Ticketed w) (ok : w.QueueOk)
    (found : w.pushes[i]? = some (.running v (.fetchTicket k))) (few : w.pushes.length < 2 ^ 64) :
    Ticketed (w.produced i v (pushStep ⟨i, v⟩ w.queue (.fetchTicket k))) := by
  have exchanged := tally_set (w := Call.drawn) found
    (.running v (.storeTicket k w.queue.publicationTicket))
  have undrawn : Call.drawn (.running v (.fetchTicket k)) = 0 := rfl
  have drawn : Call.drawn (.running v (.storeTicket k w.queue.publicationTicket)) = 1 := rfl
  rw [undrawn, drawn, ← ticketed.drawn, Nat.add_zero] at exchanged
  have counter : (w.produced i v (pushStep ⟨i, v⟩ w.queue (.fetchTicket k))).queue.publicationTicket
      = w.queue.publicationTicket + 1 := by
    -- Some push, this one, has not drawn a ticket, so the counter cannot wrap.
    have bound := tally_drawn_le
      (w.pushes.set i (.running v (.storeTicket k w.queue.publicationTicket)))
    rw [exchanged, List.length_set] at bound
    exact Nat.mod_eq_of_lt (by omega)
  have old := fun h t other => ok.bears_back (h := h) (t := t) found other fun _ _ => by simp
  refine ticketed.passed (.push i) (by omega) (counter.trans exchanged.symm) old fun t bears => ?_
  have new : t = w.queue.publicationTicket := by
    obtain ⟨v', k', stored | ⟨publishing, -⟩⟩ := bears
    · cases (getElem?_set_found found _).symm.trans stored
      rfl
    · cases (getElem?_set_found found _).symm.trans publishing
  refine ⟨by omega, fun h other theirs => ?_⟩
  exact absurd new (Nat.ne_of_lt (ticketed.below h t (old h t other theirs)))

theorem Ticketed.publish (ticketed : Ticketed w) (ok : w.QueueOk)
    (found : w.pushes[i]? = some (.running v (.publish k))) :
    Ticketed (w.produced i v (pushStep ⟨i, v⟩ w.queue (.publish k))) := by
  have exchanged := tally_set (w := Call.drawn) found (.returned v true)
  have gone (t : Nat) : ¬ (w.produced i v (pushStep ⟨i, v⟩ w.queue (.publish k))).Bears (.push i) t := by
    rintro ⟨v', k', stored | ⟨publishing, -⟩⟩
    · cases (getElem?_set_found found _).symm.trans stored
    · cases (getElem?_set_found found _).symm.trans publishing
  have old (h : Holder) (t : Nat) (other : h ≠ .cell k)
      (bears : (w.produced i v (pushStep ⟨i, v⟩ w.queue (.publish k))).Bears h t) : w.Bears h t := by
    refine ok.bears_back found (fun mine => gone t (mine ▸ bears)) (fun k' here same => ?_) bears
    cases same
    exact other here
  refine ticketed.passed (.cell k) le_rfl (ticketed.drawn.trans (Nat.add_right_cancel exchanged).symm)
    old fun t bears => ?_
  -- The push hands its ticket over to the cell.
  have handed : w.Bears (.push i) t := by
    obtain ⟨cell, there, -, rfl⟩ := bears
    change (w.queue.modifyCell k _).cells[k]? = some cell at there
    rw [modifyCell_get, if_pos rfl] at there
    obtain ⟨before, here, rfl⟩ := Option.map_eq_some_iff.mp there
    exact ⟨v, k, .inr ⟨found, before, here, rfl⟩⟩
  refine ⟨ticketed.below _ t handed, fun h other theirs => ?_⟩
  exact gone t (ticketed.unique h (.push i) t (old h t other theirs) handed ▸ theirs)

theorem Ticketed.producer (ticketed : Ticketed w) (ok : w.QueueOk)
    (found : w.pushes[i]? = some (.running v p)) (few : w.pushes.length < 2 ^ 64) :
    Ticketed (w.produced i v (pushStep ⟨i, v⟩ w.queue p)) := by
  have quiet (counter : (pushStep ⟨i, v⟩ w.queue p).1.publicationTicket = w.queue.publicationTicket)
      (drawn : Call.drawn (.next v (pushStep ⟨i, v⟩ w.queue p).2) = Call.drawn (.running v p))
      (mine : ∀ t, (w.produced i v (pushStep ⟨i, v⟩ w.queue p)).Bears (.push i) t →
        w.Bears (.push i) t) (unpublished : ∀ k, p ≠ .publish k) :
      Ticketed (w.produced i v (pushStep ⟨i, v⟩ w.queue p)) := by
    have exchanged := tally_set (w := Call.drawn) found (.next v (pushStep ⟨i, v⟩ w.queue p).2)
    rw [drawn] at exchanged
    refine ticketed.back counter (Nat.add_right_cancel exchanged) fun h t bears => ?_
    by_cases same : h = .push i
    · subst same
      exact mine t bears
    · exact ok.bears_back found same (fun k _ => unpublished k) bears
  have early {call : Call α} (at_i : (w.pushes.set i call)[i]? = some call)
      (plain : call.drawn = 0) {q' : Mpsc (Payload α)} (t : Nat)
      (bears : Bears { w with queue := q', pushes := w.pushes.set i call } (.push i) t) :
      w.Bears (.push i) t := by
    obtain ⟨v', k', stored | ⟨publishing, -⟩⟩ := bears
    · cases at_i.symm.trans stored
      cases plain
    · cases at_i.symm.trans publishing
      cases plain
  cases p with
  | probe | construct =>
    exact quiet rfl rfl (early (getElem?_set_found found _) rfl) fun _ => by simp
  | cas start offset =>
    have moved : (pushStep ⟨i, v⟩ w.queue (.cas start offset)).1.publicationTicket =
        w.queue.publicationTicket ∧
        Call.drawn (.next v (pushStep ⟨i, v⟩ w.queue (.cas start offset)).2) = 0 := by
      simp only [pushStep]
      split
      · split <;> exact ⟨rfl, rfl⟩
      · exact ⟨rfl, rfl⟩
    exact quiet moved.1 moved.2 (early (getElem?_set_found found _) moved.2) fun _ => by simp
  | fetchTicket => exact ticketed.fetch ok found few
  | storeTicket k =>
    refine quiet rfl rfl (fun t' bears => ?_) fun _ => by simp
    obtain ⟨v', k', stored | ⟨publishing, cell, there, rfl⟩⟩ := bears
    · cases (getElem?_set_found found _).symm.trans stored
    · cases (getElem?_set_found found _).symm.trans publishing
      change (w.queue.modifyCell k _).cells[k]? = some cell at there
      rw [modifyCell_get, if_pos rfl] at there
      obtain ⟨before, -, rfl⟩ := Option.map_eq_some_iff.mp there
      exact ⟨v, k, .inl found⟩
  | publish => exact ticketed.publish ok found

end

theorem Ticketed.step (ticketed : Ticketed w) (ok : w.QueueOk) (few : w.pushes.length < 2 ^ 64)
    (move : Moves w w') : Ticketed w' := by
  cases move with
  | push v =>
    have light : tally Call.drawn (w.pushes ++ [.running v .probe]) = tally Call.drawn w.pushes :=
      tally_append ..
    refine ticketed.back rfl light fun h t bears => ?_
    cases h with
    | cell => exact bears
    | push =>
      obtain ⟨v', k, stored | ⟨publishing, held⟩⟩ := bears
      · rcases getElem?_of_append stored with ⟨never, -⟩ | there
        · cases never
        · exact ⟨v', k, .inl there⟩
      · rcases getElem?_of_append publishing with ⟨never, -⟩ | there
        · cases never
        · exact ⟨v', k, .inr ⟨there, held⟩⟩
  | producer _ _ _ found => exact ticketed.producer ok found few
  | tryPop => exact ⟨ticketed.drawn, ticketed.below, ticketed.unique⟩
  | consumer _ busy => exact ticketed.consumer ok busy

theorem Moves.pushes_grow (move : Moves w w') : w.pushes.length ≤ w'.pushes.length := by
  cases move with
  | push => simp
  | producer => exact Nat.le_of_eq List.length_set.symm
  | tryPop => exact le_rfl
  | consumer => exact le_rfl

theorem Reachable.ticketed {capacity : Nat} (reached : Reachable capacity w)
    (few : w.pushes.length < 2 ^ 64) : Ticketed w := by
  have both := reached.invariant (P := fun w => w.QueueOk ∧ (w.pushes.length < 2 ^ 64 → Ticketed w))
    (fun pos => ⟨Reachable.queueOk ⟨pos, .refl⟩, fun _ => ?_⟩) ?_
  · exact both.2 few
  · have nobody (h : Holder) (t : Nat) : ¬ (initial α capacity pos).Bears h t := by
      cases h with
      | push => rintro ⟨v, k, never | ⟨never, -⟩⟩ <;> cases never
      | cell =>
        rintro ⟨cell, there, read, -⟩
        rw [List.eq_of_mem_replicate (List.mem_of_getElem? there)] at read
        rcases read with never | never <;> cases never
    exact ⟨rfl, fun h t bears => (nobody h t bears).elim, fun h _ t bears => (nobody h t bears).elim⟩
  · rintro w w' ⟨ok, ticketed⟩ move
    refine ⟨ok.step move, fun few => ?_⟩
    have fewer := move.pushes_grow.trans_lt few
    exact (ticketed fewer).step ok fewer move

/-- What holds at every moment of a run. A payload that a pop has taken out of its
cell and not yet returned counts as taken. -/
structure Conserving (w : World α) : Prop where
  accepted_once : ∀ i v, w.pushes[i]? = some (.returned v true) →
    w.delivered.countP (fun x => x.id = i) + tally (readyOf i) w.queue.cells +
      tally (takenOf i) w.queue.cells = 1
  taken : ∀ k, w.queue.InState k .Consuming → ∃ c, w.pop = some c ∧ c.cell = some k
  returned : ∀ x ∈ w.delivered, w.pushes[x.id]? = some (.returned x.value true)
  returning : ∀ k out, w.pop = some (.free k out) →
    ∃ x, out = some x ∧ w.pushes[x.id]? = some (.returned x.value true)
  writes : ∀ i v p k, w.pushes[i]? = some (.running v p) →
    (pushStep ⟨i, v⟩ w.queue p).1.cells[k]? ≠ w.queue.cells[k]? →
      w.queue.InState k .Free ∨ w.Owns i k
  owner : ∀ k, w.queue.InState k .Writing → ∃! i, w.Owns i k
  one_cell : ∀ i k k', w.Owns i k → w.Owns i k' → k = k'
  unhindered : ∀ (k : Nat) (x : Payload α) (t : Nat), w.queue.cells[k]? = some ⟨.Ready, some x, t⟩ →
    ∃ w', Reaches step ConsumerOnly w w' ∧ x ∈ w'.delivered ∧ w'.pushes = w.pushes
  in_order : w.pop = none → ∀ (j k : Nat) (x y : Payload α) (tj tk : Nat),
    w.queue.cells[j]? = some ⟨.Ready, some x, tj⟩ → w.queue.cells[k]? = some ⟨.Ready, some y, tk⟩ →
      tj < tk → ∀ w', Reaches step Always w w' → Before w'.delivered x y
  tickets : w.pushes.length < 2 ^ 64 → ∀ (j k : Nat) (x y : Payload α) (t : Nat),
    w.queue.cells[j]? = some ⟨.Ready, some x, t⟩ → w.queue.cells[k]? = some ⟨.Ready, some y, t⟩ →
      j = k

theorem mpsc_conservation {capacity : Nat} (reached : Reachable capacity w) : Conserving w := by
  have ok := reached.queueOk
  have ledger := reached.ledger
  constructor
  case accepted_once =>
    intro i v accepted
    have balance := ledger.balance i
    rw [weightAt_found accepted, countP_resident] at balance
    exact (Nat.add_assoc ..).trans balance
  case taken =>
    intro k consuming
    exact Option.bind_eq_some_iff.mp (ok.consuming consuming)
  case returned =>
    intro x delivered
    exact ledger.genuine x (.inl delivered)
  case returning =>
    intro k out busy
    obtain ⟨cell, there, consuming, rfl⟩ := ok.popping _ busy
    obtain ⟨x, payload⟩ := ok.live there (.inr consuming)
    have resident : x ∈ w.queue.resident :=
      mem_resident.mpr ⟨cell, List.mem_of_getElem? there, .inr consuming, payload⟩
    exact ⟨x, payload, ledger.genuine x (.inr resident)⟩
  case writes =>
    intro i v p k found changed
    exact (pushStep_writes rfl changed).symm.imp And.left fun owned => ⟨v, p, found, owned⟩
  case owner =>
    intro k writing
    obtain ⟨i, owns⟩ := reached.owned k writing
    exact ⟨i, owns, fun j owns' => ok.owner_unique owns owns'⟩
  case one_cell =>
    rintro i k k' ⟨v, p, found, owned⟩ ⟨v', p', found', owned'⟩
    cases found.symm.trans found'
    exact Option.some.inj (owned.symm.trans owned')
  case unhindered =>
    intro k x t ready
    have resident : x ∈ w.queue.resident :=
      mem_resident.mpr ⟨_, List.mem_of_getElem? ready, .inl rfl, rfl⟩
    exact accepted_delivered ok ledger (ledger.genuine x (.inr resident))
  case in_order =>
    intro idle j k x y tj tk first second smaller w' run
    refine smaller_first ok ledger ⟨first, second, smaller, fun c busy => ?_⟩ run
    rw [idle] at busy
    cases busy
  case tickets =>
    intro few j k x y t first second
    have same := (reached.ticketed few).unique (.cell j) (.cell k) t
      ⟨_, first, .inl rfl, rfl⟩ ⟨_, second, .inl rfl, rfl⟩
    exact Holder.cell.inj same

/-- The first of two pushes stalls after its CAS; the second completes and is popped. -/
def stalledRun : List (Label Nat) :=
  [Label.push 10, .push 20, .producer 0, .producer 0] ++ List.replicate 6 (Label.producer 1) ++
    Label.tryPop :: List.replicate 6 .consumer

theorem mpsc_conservation_stalled :
    ((outcome step stalledRun (initial Nat 2 (by decide))).delivered.map Payload.value = [20] ∧
      (outcome step stalledRun (initial Nat 2 (by decide))).queue.cells.map MpscCell.state =
        [.Writing, .Free]) ∧
    Conserving (outcome step stalledRun (initial Nat 2 (by decide))) :=
  ⟨by decide +kernel, mpsc_conservation ⟨by decide, reaches_outcome (by decide +kernel)⟩⟩

end World

end Coact.Mpsc
