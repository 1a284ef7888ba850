import Coact.Foundation.Transition

/-! `MergeCell` (`policy.hpp`): one slot that any number of producers publish to and merge
into and any number of consumers take from, one access at a time. The pointer is a plain
field, written and read outside the compare-and-swap that claims the cell. An abstract cell
says in which order publications, merges and takes may happen at all; the accesses of the
code keep to that order. -/
namespace Coact.Policy
open Foundation Function

inductive MergeCellState where
  | Empty | Publishing | Published | Merging | Consuming
  deriving DecidableEq, Repr

/-- What a party has ahead of it: the pointer write and the state write of `try_publish`, the
pointer read of `try_acquire_merge` and `take_owning`, the release of a cell it has
acquired, and the compare-and-swap at the end of `release_empty`. -/
inductive CellPc (α : Type) where
  | idle
  | publishPointer (e : α)
  | publishState (e : α)
  | mergePointer
  | merging (queued : Option α)
  | takePointer
  | consuming (out : Option α)
  | emptyState

/-- `published` is the store that makes an event visible, `acquired` and `taken` the reads of
the pointer, `accessed` any access through it in a merge function. -/
inductive CellAct (ι α : Type) where
  | published (p : ι) (e : α)
  | acquired (p : ι) (queued : Option α)
  | accessed (p : ι) (queued : Option α)
  | merged (p : ι)
  | taken (p : ι) (out : Option α)
  | emptied (p : ι)

/-- `log` is kept for the proofs. -/
structure MergeCell (ι α : Type) where
  state : MergeCellState
  event : Option α
  pc : ι → CellPc α
  log : List (CellAct ι α)

/-- The calls of a party; `advance` is the next access of the call it is in, `access` a use of
the merged event, `release` the call that gives an acquired cell back. -/
inductive CellLabel (ι α : Type) where
  | tryPublish (p : ι) (e : Option α)
  | tryAcquireMerge (p : ι)
  | takeOwning (p : ι)
  | advance (p : ι)
  | access (p : ι)
  | release (p : ι)

/-- The party is inside another call, or has nothing to go on with. -/
inductive CellRefusal where
  | busy | nothing

variable {ι α : Type} [DecidableEq ι]

namespace MergeCell

def init : MergeCell ι α := ⟨.Empty, none, fun _ => .idle, []⟩

def goto (s : MergeCell ι α) (p : ι) (pc : CellPc α) : MergeCell ι α :=
  { s with pc := update s.pc p pc }

def record (s : MergeCell ι α) (act : CellAct ι α) : MergeCell ι α := { s with log := s.log ++ [act] }

/-- The compare-and-swap that begins a call: the call goes on, or returns false. -/
def claim (s : MergeCell ι α) (p : ι) (expected desired : MergeCellState) (pc : CellPc α) :
    Except CellRefusal (MergeCell ι α) :=
  match s.pc p with
  | .idle => .ok (if s.state = expected then { s with state := desired }.goto p pc else s)
  | _ => .error .busy

/-- A compare-and-swap whose result is not looked at. -/
def swap (s : MergeCell ι α) (expected desired : MergeCellState) : MergeCell ι α :=
  if s.state = expected then { s with state := desired } else s

def step : CellLabel ι α → MergeCell ι α → Except CellRefusal (MergeCell ι α)
  | .tryPublish p e, s =>
    match e with
    | none => .ok s
    | some e => s.claim p .Empty .Publishing (.publishPointer e)
  | .tryAcquireMerge p, s => s.claim p .Published .Merging .mergePointer
  | .takeOwning p, s => s.claim p .Published .Consuming .takePointer
  | .advance p, s =>
    match s.pc p with
    | .publishPointer e => .ok ({ s with event := some e }.goto p (.publishState e))
    | .publishState e => .ok (({ s with state := .Published }.goto p .idle).record (.published p e))
    | .mergePointer => .ok ((s.goto p (.merging s.event)).record (.acquired p s.event))
    | .takePointer => .ok ((s.goto p (.consuming s.event)).record (.taken p s.event))
    | .emptyState => .ok (((s.swap .Consuming .Empty).goto p .idle).record (.emptied p))
    | .idle | .merging _ | .consuming _ => .error .nothing
  | .access p, s =>
    match s.pc p with
    | .merging queued => .ok (s.record (.accessed p queued))
    | _ => .error .nothing
  | .release p, s =>
    match s.pc p with
    | .merging _ => .ok (((s.swap .Merging .Published).goto p .idle).record (.merged p))
    | .consuming _ => .ok ({ s with event := none }.goto p .emptyState)
    | _ => .error .nothing

/-- The party is between its successful acquire and the end of its release. -/
def Holds (s : MergeCell ι α) (p : ι) : Prop := s.pc p ≠ .idle

end MergeCell

/-- The cell as its users see it: empty, or with a published event, or with the same event in
the hands of one merging party, or in the hands of the consumer that took it. -/
inductive AbstractCell (ι α : Type) where
  | empty
  | published (e : α)
  | merging (p : ι) (e : α)
  | consuming (p : ι)

namespace AbstractCell

/-- What may happen next, and what it leads to. -/
inductive Next : AbstractCell ι α → CellAct ι α → AbstractCell ι α → Prop where
  | publish (p : ι) (e : α) : Next .empty (.published p e) (.published e)
  | acquire (p : ι) (e : α) : Next (.published e) (.acquired p (some e)) (.merging p e)
  | access (p : ι) (e : α) : Next (.merging p e) (.accessed p (some e)) (.merging p e)
  | merge (p : ι) (e : α) : Next (.merging p e) (.merged p) (.published e)
  | take (p : ι) (e : α) : Next (.published e) (.taken p (some e)) (.consuming p)
  | finish (p : ι) : Next (.consuming p) (.emptied p) .empty

/-- The history leads from the empty cell to this one. -/
inductive After : List (CellAct ι α) → AbstractCell ι α → Prop where
  | start : After [] .empty
  | next {log : List (CellAct ι α)} {c c' : AbstractCell ι α} {act : CellAct ι α} :
      After log c → Next c act c' → After (log ++ [act]) c'

/-- The event that is published and not taken. -/
def content : AbstractCell ι α → List α
  | .published e | .merging _ e => [e]
  | .empty | .consuming _ => []

end AbstractCell

/-- The published events of a history, in order. -/
def publications (log : List (CellAct ι α)) : List α :=
  log.filterMap fun
    | .published _ e => some e
    | _ => none

/-- The pointers that `take_owning` has returned, in order. -/
def takes (log : List (CellAct ι α)) : List (Option α) :=
  log.filterMap fun
    | .taken _ out => some out
    | _ => none

namespace AbstractCell
variable {log : List (CellAct ι α)}

omit [DecidableEq ι] in
/-- Events are taken in the order of their publication, each once, and all but the one that
is still in the cell. -/
theorem After.balance (after : After log c) :
    (publications log).map some = takes log ++ c.content.map some := by
  induction after with
  | start => rfl
  | next before next ih =>
    cases next with
    | _ =>
      simpa [publications, takes, content] using ih

end AbstractCell

namespace MergeCell
variable {s t : MergeCell ι α} {p : ι} {c : AbstractCell ι α}

/-- The cell while nobody holds it. -/
inductive Free : MergeCellState → Option α → AbstractCell ι α → Prop where
  | empty : Free .Empty none .empty
  | published (e : α) : Free .Published (some e) (.published e)

/-- The cell while `p` holds it, by what `p` has ahead of it. -/
inductive Held (p : ι) : MergeCellState → Option α → CellPc α → AbstractCell ι α → Prop where
  | publishPointer (e : α) : Held p .Publishing none (.publishPointer e) .empty
  | publishState (e : α) : Held p .Publishing (some e) (.publishState e) .empty
  | mergePointer (e : α) : Held p .Merging (some e) .mergePointer (.published e)
  | merging (e : α) : Held p .Merging (some e) (.merging (some e)) (.merging p e)
  | takePointer (e : α) : Held p .Consuming (some e) .takePointer (.published e)
  | consuming (e : α) : Held p .Consuming (some e) (.consuming (some e)) (.consuming p)
  | emptyState : Held p .Consuming none .emptyState (.consuming p)

/-- The states of the cell: nobody is inside a call, or one party is and all others are not. -/
inductive Sound (s : MergeCell ι α) (c : AbstractCell ι α) : Prop where
  | free : (∀ q, s.pc q = .idle) → Free s.state s.event c → Sound s c
  | held (p : ι) : (∀ q, q ≠ p → s.pc q = .idle) → Held p s.state s.event (s.pc p) c → Sound s c

theorem Sound.exclusive (sound : s.Sound c) {p q : ι} (first : s.Holds p) (second : s.Holds q) :
    p = q := by
  cases sound with
  | free idle => exact (first (idle p)).elim
  | held r idle =>
    have holder : ∀ {x : ι}, s.Holds x → x = r := by
      intro x holds
      by_contra other
      exact holds (idle x other)
    exact (holder first).trans (holder second).symm

omit [DecidableEq ι] in
theorem Held.claimed {state : MergeCellState} {event : Option α} {pc : CellPc α}
    (held : Held p state event pc c) : state ≠ .Empty ∧ state ≠ .Published := by
  cases held <;> decide

omit [DecidableEq ι] in
theorem Held.inside {state : MergeCellState} {event : Option α} {pc : CellPc α}
    (held : Held p state event pc c) : pc ≠ .idle := by
  cases held <;> simp

theorem others_idle {pc : CellPc α} (idle : ∀ q, q ≠ p → s.pc q = .idle) (q : ι) (other : q ≠ p) :
    (s.goto p pc).pc q = .idle := by
  simp only [goto, update_of_ne other]
  exact idle q other

theorem Sound.keep {pc : CellPc α} {state : MergeCellState} {event : Option α}
    (idle : ∀ q, q ≠ p → s.pc q = .idle) (held : Held p state event pc c)
    (stays : s.state = state) (stores : s.event = event) : (s.goto p pc).Sound c := by
  refine .held p (others_idle idle) ?_
  simp only [goto, update_self, stays, stores]
  exact held

theorem Sound.leave {state : MergeCellState} {event : Option α}
    (idle : ∀ q, q ≠ p → s.pc q = .idle) (free : Free state event c)
    (stays : s.state = state) (stores : s.event = event) : (s.goto p .idle).Sound c := by
  refine .free ?_ ?_
  · intro q
    by_cases same : q = p
    · subst same
      simp [goto]
    · exact others_idle idle q same
  · simp only [goto, stays, stores]
    exact free

/-- A claim changes nothing, or finds the cell free and makes its party the holder. -/
theorem Sound.claim {pc : CellPc α} (sound : s.Sound c)
    (open_ : expected = .Empty ∨ expected = .Published)
    (fits : ∀ event, Free expected event c → Held p desired event pc c)
    (ran : s.claim p expected desired pc = .ok t) : t.Sound c ∧ t.log = s.log := by
  unfold MergeCell.claim at ran
  split at ran <;> cases ran
  split
  · rename_i state
    cases sound with
    | free idle free =>
      refine ⟨?_, rfl⟩
      rw [state] at free
      exact .keep (fun q _ => idle q) (fits _ free) rfl rfl
    | held _ _ held =>
      obtain ⟨full, taken⟩ := held.claimed
      rcases open_ with rfl | rfl
      · exact (full state).elim
      · exact (taken state).elim
  · exact ⟨sound, rfl⟩

theorem Sound.holder (sound : s.Sound c) (inside : s.pc p ≠ .idle) :
    (∀ q, q ≠ p → s.pc q = .idle) ∧ Held p s.state s.event (s.pc p) c := by
  cases sound with
  | free idle => exact (inside (idle p)).elim
  | held r idle held =>
    obtain rfl : p = r := by
      by_contra other
      exact inside (idle p other)
    exact ⟨idle, held⟩

omit [DecidableEq ι] in
theorem Sound.record (sound : s.Sound c) (act : CellAct ι α) : (s.record act).Sound c := by
  cases sound with
  | free idle free => exact .free idle free
  | held r idle held => exact .held r idle held

/-- Only a party inside a call goes on, uses an event or releases the cell. -/
theorem inside_of_step (own : label = .advance p ∨ label = .access p ∨ label = .release p)
    (ran : MergeCell.step label s = .ok t) : s.pc p ≠ .idle := by
  intro idle
  rcases own with rfl | rfl | rfl <;>
    (simp only [MergeCell.step, idle] at ran; cases ran)

/-- The abstract cell stays as it is, or makes the step that is recorded. -/
def Follows (s t : MergeCell ι α) (c : AbstractCell ι α) : Prop :=
  (t.Sound c ∧ t.log = s.log) ∨
    ∃ act c', AbstractCell.Next c act c' ∧ t.Sound c' ∧ t.log = s.log ++ [act]

theorem Sound.advance (sound : s.Sound c) (ran : MergeCell.step (.advance p) s = .ok t) :
    Follows s t c := by
  obtain ⟨idle, held⟩ := sound.holder (inside_of_step (.inl rfl) ran)
  simp only [MergeCell.step] at ran
  generalize place : s.pc p = pc at held ran
  generalize stays : s.state = state at held
  generalize stores : s.event = event at held ran
  cases held with
  | publishPointer e =>
    cases ran
    exact .inl ⟨.keep idle (.publishState e) stays rfl, rfl⟩
  | publishState e =>
    cases ran
    refine .inr ⟨_, _, .publish p e, Sound.record ?_ _, rfl⟩
    exact .leave idle (.published e) rfl rfl
  | mergePointer e =>
    cases ran
    exact .inr ⟨_, _, .acquire p e, Sound.record (.keep idle (.merging e) stays stores) _, rfl⟩
  | takePointer e =>
    cases ran
    exact .inr ⟨_, _, .take p e, Sound.record (.keep idle (.consuming e) stays stores) _, rfl⟩
  | emptyState =>
    simp only [swap, stays, if_true] at ran
    cases ran
    refine .inr ⟨_, _, .finish p, Sound.record ?_ _, rfl⟩
    exact .leave idle .empty rfl stores
  | merging | consuming => cases ran

theorem Sound.access (sound : s.Sound c) (ran : MergeCell.step (.access p) s = .ok t) :
    Follows s t c := by
  obtain ⟨idle, held⟩ := sound.holder (inside_of_step (.inr (.inl rfl)) ran)
  simp only [MergeCell.step] at ran
  generalize place : s.pc p = pc at held ran
  generalize s.state = state at held
  generalize s.event = event at held
  cases held with
  | merging e =>
    cases ran
    exact .inr ⟨_, _, .access p e, sound.record _, rfl⟩
  | _ =>
    cases ran

theorem Sound.release (sound : s.Sound c) (ran : MergeCell.step (.release p) s = .ok t) :
    Follows s t c := by
  obtain ⟨idle, held⟩ := sound.holder (inside_of_step (.inr (.inr rfl)) ran)
  simp only [MergeCell.step] at ran
  generalize place : s.pc p = pc at held ran
  generalize stays : s.state = state at held
  generalize stores : s.event = event at held
  cases held with
  | merging e =>
    simp only [swap, stays, if_true] at ran
    cases ran
    refine .inr ⟨_, _, .merge p e, Sound.record ?_ _, rfl⟩
    exact .leave idle (.published e) rfl stores
  | consuming =>
    cases ran
    exact .inl ⟨.keep idle .emptyState stays rfl, rfl⟩
  | _ => cases ran

theorem Sound.step (sound : s.Sound c) (ran : MergeCell.step label s = .ok t) : Follows s t c := by
  cases label with
  | tryPublish _ e =>
    cases e with
    | none =>
      cases ran
      exact .inl ⟨sound, rfl⟩
    | some e =>
      refine .inl (sound.claim (.inl rfl) ?_ ran)
      intro event free
      cases free
      exact .publishPointer e
  | tryAcquireMerge =>
    refine .inl (sound.claim (.inr rfl) ?_ ran)
    intro event free
    cases free
    exact .mergePointer _
  | takeOwning =>
    refine .inl (sound.claim (.inr rfl) ?_ ran)
    intro event free
    cases free
    exact .takePointer _
  | advance => exact sound.advance ran
  | access => exact sound.access ran
  | release => exact sound.release ran

theorem sound_reached (run : Reaches MergeCell.step Always MergeCell.init s) :
    ∃ c, s.Sound c ∧ AbstractCell.After s.log c := by
  refine run.invariant (P := fun s => ∃ c, s.Sound c ∧ AbstractCell.After s.log c) ?_ ?_
  · exact ⟨.empty, .free (fun _ => rfl) .empty, .start⟩
  · rintro label s t ⟨c, sound, after⟩ - ran
    rcases sound.step ran with ⟨sound', same⟩ | ⟨act, c', next, sound', grows⟩
    · exact ⟨c, sound', same ▸ after⟩
    · exact ⟨c', sound', grows ▸ after.next next⟩

end MergeCell

namespace MergeCell
variable {s : MergeCell ι α} {c : AbstractCell ι α}

omit [DecidableEq ι] in
theorem Sound.state_iff (sound : s.Sound c) :
    (s.state = .Empty ∨ s.state = .Published) ↔ ∀ p, ¬ s.Holds p := by
  cases sound with
  | free idle free =>
    generalize s.state = state at free ⊢
    generalize s.event = event at free
    refine ⟨fun _ p holds => holds (idle p), fun _ => ?_⟩
    cases free with
    | empty => exact .inl rfl
    | published => exact .inr rfl
  | held p _ held =>
    obtain ⟨full, taken⟩ := held.claimed
    refine ⟨fun either => (either.elim full taken).elim, fun nobody => ?_⟩
    exact (nobody p held.inside).elim

omit [DecidableEq ι] in
/-- The published event that is not taken is the one the pointer names. -/
theorem Sound.stored (sound : s.Sound c) : ∀ e ∈ c.content, s.event = some e := by
  intro e within
  cases sound with
  | free _ free =>
    generalize s.state = state at free
    generalize s.event = event at free ⊢
    cases free with
    | empty => cases within
    | published =>
      cases List.mem_singleton.mp within
      rfl
  | held p _ held =>
    generalize s.state = state at held
    generalize s.event = event at held ⊢
    generalize s.pc p = pc at held
    cases held with
    | publishPointer | publishState | consuming | emptyState => cases within
    | mergePointer | merging | takePointer =>
      cases List.mem_singleton.mp within
      rfl

end MergeCell

/-- In every state of every interleaving at most one party holds the cell, and one does
exactly in the states between the others. All that has happened to the cell happened in the
order of the abstract cell; the events that were taken are the published ones, each once, but
for the one that is in the cell now. -/
theorem cell_has_one_owner {s : MergeCell ι α}
    (run : Reaches MergeCell.step Always MergeCell.init s) :
    (∀ p q, s.Holds p → s.Holds q → p = q) ∧
    ((s.state = .Empty ∨ s.state = .Published) ↔ ∀ p, ¬ s.Holds p) ∧
    ∃ c, AbstractCell.After s.log c ∧
      (publications s.log).map some = takes s.log ++ c.content.map some ∧
      ∀ e ∈ c.content, s.event = some e := by
  obtain ⟨c, sound, after⟩ := MergeCell.sound_reached run
  exact ⟨fun p q => sound.exclusive, sound.state_iff, c, after, after.balance, sound.stored⟩

/-- Two events go through the cell; the first is merged into before it is taken, and a
second producer comes too early. -/
def mergedAndTaken : MergeCell Bool Nat :=
  outcome MergeCell.step
    [.tryPublish false (some 7), .advance false, .tryPublish true (some 8), .advance false,
      .tryAcquireMerge true, .takeOwning false, .advance true, .access true, .release true,
      .takeOwning false, .advance false, .release false, .advance false,
      .tryPublish true (some 8), .advance true, .advance true] MergeCell.init

theorem cell_has_one_owner_merged : takes mergedAndTaken.log = [some 7] ∧
    ∃ c, AbstractCell.After mergedAndTaken.log c ∧
      (publications mergedAndTaken.log).map some = [some 7] ++ c.content.map some ∧
      ∀ e ∈ c.content, mergedAndTaken.event = some e := by
  obtain ⟨-, -, c, after, balance, stored⟩ :=
    cell_has_one_owner (s := mergedAndTaken) (reaches_outcome (by decide))
  exact ⟨by decide, c, after, balance, stored⟩

end Coact.Policy
