import Coact.Pool.Init
import Coact.Pool.Lasting
import Coact.Pool.System

/-! The representation invariant along whole runs. A step keeps the layout of the
pools, loses a free block only to an allocation, and raises the high watermark
only with the usage. -/
namespace Coact.Pool
open Foundation Function

/-- How a step takes the pools of `h` to those of `h'`. -/
structure Advance (h h' : Heap) (held' : Nat → Nat) (view view' : Nat → View) : Prop where
  pools : ∀ {k : Nat} {r}, h.records[k]? = some r → ∃ r', h'.records[k]? = some r' ∧ r.Like r' ∧
    ((r'.highWatermark = r.highWatermark ∧ r'.used ≤ r.used) ∨
      r'.highWatermark = max r.highWatermark r'.used)
  added : ∀ {k : Nat} {r'}, h'.records[k]? = some r' → h.records[k]? = none →
    r'.highWatermark = 0 ∧ r'.used = 0
  free : ∀ {k : Nat} {r}, h.records[k]? = some r → ∀ i ∈ (view k).chain .free,
    i ∈ (view' k).chain .free ∨ 0 < held' (r.blockBase i)

section
variable {tables : Nat → Table} {held : Nat → Nat}

theorem advance_calm (ok : HeapOk h tables held view) (ok' : HeapOk h' tables' held' view')
    (lasting : h'.lasting = h.lasting) (kept : Kept mine view view') :
    Advance h h' held' view view' := by
  constructor
  case pools =>
    intro k r found
    obtain ⟨r', found', like, mark⟩ := lasting_found lasting found
    refine ⟨r', found', like, .inl ⟨mark, ?_⟩⟩
    have more := (((view k).nodup .free).subperm (kept.free k)).length_le
    have balance := (ok.pool found).used
    have balance' := (ok'.pool found').used
    have capacity := like.capacity
    omega
  case added =>
    intro k r' found' absent
    have bound := (List.getElem?_eq_some_iff.mp found').1
    rw [lasting_length lasting] at bound
    exact (not_le.mpr bound (List.getElem?_eq_none_iff.mp absent)).elim
  case free => exact fun _ i member => .inl (kept.free _ member)

theorem advance_refl (h : Heap) (held' : Nat → Nat) (view : Nat → View) :
    Advance h h held' view view := by
  refine ⟨fun {k r} found => ⟨r, found, ⟨rfl, rfl, rfl⟩, .inl ⟨rfl, le_rfl⟩⟩,
    fun {k r'} found absent => ?_, fun _ i member => .inl member⟩
  rw [found] at absent
  cases absent

theorem advance_init {g : PoolSpec} (kept : Kept ∅ view view')
    (records : h'.records = h.records ∨ h'.records = h.records ++ [g.record]) :
    Advance h h' held' view view' := by
  refine ⟨fun {k r} found => ⟨r, ?_, ⟨rfl, rfl, rfl⟩, .inl ⟨rfl, le_rfl⟩⟩,
    fun {k r'} found' absent => ?_, fun _ i member => .inl (kept.free _ member)⟩
  · rcases records with same | more
    · rw [same, found]
    · rw [more]
      exact getElem?_append_found _ found
  · rcases records with same | more
    · rw [same, absent] at found'
      cases found'
    · rw [more] at found'
      rcases getElem?_of_append found' with ⟨rfl, -⟩ | old
      · exact ⟨rfl, rfl⟩
      · rw [old] at absent
        cases absent

theorem advance_alloc {k i head signal : Nat} {rest : List Nat}
    (ok : HeapOk h tables held view) (found : h.records[k]? = some r)
    (free : (view k).chain .free = i :: rest) :
    Advance h ⟨newEvent h.mem (r.blockBase i) signal (k + 1), h.records.set k (r.claimed head)⟩
      (update held (r.blockBase i) 1) view
      (update view k ((view k).pop .free free)) := by
  have marks := (ok.pool found).claimed_used free head
  constructor
  case pools =>
    intro k₁ r₁ there
    by_cases here : k₁ = k
    · subst here
      cases found.symm.trans there
      refine ⟨r.claimed head, getElem?_set_found found _, ⟨rfl, rfl, rfl⟩, .inr ?_⟩
      rw [marks.2, marks.1]
    · exact ⟨r₁, (List.getElem?_set_ne (Ne.symm here)).trans there, ⟨rfl, rfl, rfl⟩,
        .inl ⟨rfl, le_rfl⟩⟩
  case added =>
    intro k₁ r₁ there absent
    rcases lookup_set found there with ⟨rfl, -⟩ | ⟨-, old⟩
    · rw [found] at absent
      cases absent
    · rw [old] at absent
      cases absent
  case free =>
    intro k₁ r₁ there j member
    by_cases here : k₁ = k
    · subst here
      cases found.symm.trans there
      rw [update_self, Chains.chain_pop_same]
      rw [free] at member
      rcases List.mem_cons.mp member with rfl | later
      · exact .inr (by rw [update_self]; exact Nat.one_pos)
      · exact .inl later
    · rw [update_of_ne here]
      exact .inl member

end

section
variable {maxPending : Nat → Nat} {s t : State} {view : Nat → View}

theorem recount_held (ok : HeapOk s.heap s.tables s.held view) (lent : 0 < s.held e)
    (n : Nat) : s.recount e n = update s.held e n := by
  obtain ⟨k, -, -, -, -, -, poolId, -, -⟩ := ok.holder lent
  rw [State.recount, poolId, if_neg (Nat.succ_ne_zero k)]

theorem step_static (static : s.Static e) :
    State.step maxPending (.refInc e) s = .ok (s.settle s.heap s.tables s.held) ∧
    State.step maxPending (.gc e) s = .ok (s.settle s.heap s.tables s.held) ∧
    ∀ b, State.step maxPending (.release b e) s = .ok (s.settle s.heap s.tables s.held) := by
  have counts (n : Nat) : s.recount e n = s.held := if_pos static.1
  refine ⟨?_, ?_, fun b => ?_⟩
  · rw [State.step, Heap.eventRefInc, if_pos static.1, counts]
    rfl
  · rw [State.step, Heap.eventGc, if_pos static.1, counts]
    rfl
  · rw [State.step, Pool.release, if_pos static.1, counts]
    simp [Except.map]

theorem HeapOk.step (ok : HeapOk s.heap s.tables s.held view)
    (allowed : State.Permitted l s) (ran : State.step maxPending l s = .ok t) :
    ∃ view', HeapOk t.heap t.tables t.held view' ∧ Advance s.heap t.heap t.held view view' := by
  cases l with
  | init =>
    cases ran
    obtain ⟨view', whole, kept, records⟩ := ok.init allowed
    exact ⟨view', whole, advance_init kept records⟩
  | alloc k signal margin =>
    rw [State.step] at ran
    cases found : s.heap.records[k]? with
    | none =>
      rw [Heap.allocWithMargin, found] at ran
      cases ran
      exact ⟨view, ok, advance_refl ..⟩
    | some =>
      rcases ok.alloc found signal margin with ⟨-, i, rest, head, free, claimed, whole⟩ | ⟨-, same⟩
      · rw [claimed] at ran
        cases ran
        exact ⟨_, whole, advance_alloc ok found free⟩
      · rw [same] at ran
        cases ran
        exact ⟨view, ok, advance_refl ..⟩
  | refInc =>
    rcases allowed with lent | static
    · obtain ⟨h', moved, rfl⟩ := map_ok ran
      rw [recount_held ok lent]
      have whole := ok.refInc lent moved
      exact ⟨view, whole, advance_calm ok whole (lasting_eventRefInc moved) (Kept.refl ∅ view)⟩
    · cases (step_static static).1.symm.trans ran
      exact ⟨view, ok, advance_refl ..⟩
  | gc =>
    rcases allowed with lent | static
    · obtain ⟨h', moved, rfl⟩ := map_ok ran
      rw [recount_held ok lent]
      obtain ⟨h₁, view', moved', whole, kept, -⟩ := ok.gc lent
      obtain rfl := Except.ok.inj (moved.symm.trans moved')
      exact ⟨view', whole, advance_calm ok whole (lasting_eventGc moved) kept⟩
    · cases (step_static static).2.1.symm.trans ran
      exact ⟨view, ok, advance_refl ..⟩
  | release b =>
    rcases allowed with lent | static
    · obtain ⟨⟨t', h'⟩, moved, rfl⟩ := map_ok ran
      rw [recount_held ok lent]
      obtain ⟨t₁, h₁, view', moved', whole, kept⟩ := ok.release lent b (maxPending b)
      cases moved.symm.trans moved'
      exact ⟨view', whole, advance_calm ok whole (lasting_release moved) kept⟩
    · cases ((step_static static).2.2 b).symm.trans ran
      exact ⟨view, ok, advance_refl ..⟩
  | flush =>
    cases ran
    obtain ⟨view', whole, kept⟩ := ok.flush rfl
    exact ⟨view', whole, advance_calm ok whole (lasting_flush ..) kept⟩

/-- A permitted operation fails only when an event would get its 256th reference. -/
theorem HeapOk.step_fails (ok : HeapOk s.heap s.tables s.held view)
    (allowed : State.Permitted l s) (failed : State.step maxPending l s = .error fault) :
    fault = .refCeiling ∧ ∃ e, l = .refInc e ∧ s.held e = 255 := by
  cases l with
  | init => cases failed
  | alloc =>
    rw [State.step] at failed
    split at failed <;> cases failed
  | refInc e =>
    rcases allowed with lent | static
    · have stopped := map_error failed
      obtain ⟨k, r, i, -, -, -, poolId, record, refCtr⟩ := ok.holder lent
      have bound : s.held e < 2 ^ 8 := refCtr ▸ eventRefCtr_lt
      rw [Heap.eventRefInc, poolId, if_neg (Nat.succ_ne_zero k), record] at stopped
      dsimp only at stopped
      split at stopped <;> cases stopped
      exact ⟨rfl, e, rfl, by omega⟩
    · cases (step_static static).1.symm.trans failed
  | gc =>
    rcases allowed with lent | static
    · have stopped := map_error failed
      obtain ⟨h', view', moved, -⟩ := ok.gc lent
      rw [moved] at stopped
      cases stopped
    · cases (step_static static).2.1.symm.trans failed
  | release b =>
    rcases allowed with lent | static
    · have stopped := map_error failed
      obtain ⟨t', h', view', moved, -⟩ := ok.release lent b (maxPending b)
      rw [moved] at stopped
      cases stopped
    · cases ((step_static static).2.2 b).symm.trans failed
  | flush => cases failed

end

/-- The high watermarks are the largest usages so far. -/
structure State.Marked (s : State) : Prop where
  marks : ∀ {k : Nat} {r}, s.heap.records[k]? = some r →
    r.highWatermark = s.peak k ∧ r.used ≤ s.peak k
  unused : ∀ {k : Nat}, s.heap.records[k]? = none → s.peak k = 0

section
variable {maxPending : Nat → Nat} {s t : State} {view view' : Nat → View}

theorem step_peak (ran : State.step maxPending l s = .ok t) (k : Nat) :
    t.peak k = max (s.peak k) (t.heap.used k) := by
  cases l with
  | init | flush =>
    cases ran
    rfl
  | alloc =>
    rw [State.step] at ran
    split at ran <;> cases ran <;> rfl
  | refInc | gc | release =>
    obtain ⟨_, -, rfl⟩ := map_ok ran
    rfl

theorem State.Marked.advance (marked : s.Marked) (advance : Advance s.heap t.heap t.held view view')
    (peak : ∀ k, t.peak k = max (s.peak k) (t.heap.used k)) : t.Marked := by
  constructor
  case marks =>
    intro k r' found'
    have used : t.heap.used k = r'.used := by rw [Heap.used, found']
    rw [peak k, used]
    cases found : s.heap.records[k]? with
    | none =>
      have added := advance.added found' found
      rw [marked.unused found, added.1, added.2]
      exact ⟨rfl, le_rfl⟩
    | some r =>
      obtain ⟨mark, bound⟩ := marked.marks found
      obtain ⟨r₁, found₁, -, moved⟩ := advance.pools found
      cases found₁.symm.trans found'
      omega
  case unused =>
    intro k absent'
    have used : t.heap.used k = 0 := by rw [Heap.used, absent']
    rw [peak k, used]
    cases found : s.heap.records[k]? with
    | none => rw [marked.unused found, max_self]
    | some =>
      obtain ⟨r₁, found₁, -⟩ := advance.pools found
      rw [absent'] at found₁
      cases found₁

theorem initial_ok (m : Mem) :
    HeapOk (State.initial m).heap (State.initial m).tables (State.initial m).held
      fun _ => Chains.none := by
  constructor
  case few => exact Nat.zero_le _
  case disjoint =>
    intro k k' r r' found
    cases found
  case known =>
    intro b p member
    cases member
  case distinct => exact fun _ => List.nodup_nil
  case owned =>
    intro e lent
    cases lent
  case fresh => exact fun _ _ _ => rfl
  case pool =>
    intro k r found
    cases found

theorem reached_ok (reached : Reached maxPending s) :
    (∃ view, HeapOk s.heap s.tables s.held view) ∧ s.Marked := by
  obtain ⟨m, run⟩ := reached
  have marked : (State.initial m).Marked := ⟨fun found => (by cases found), fun _ => rfl⟩
  refine run.invariant
    (P := fun s => (∃ view, HeapOk s.heap s.tables s.held view) ∧ s.Marked)
    ⟨⟨_, initial_ok m⟩, marked⟩ ?_
  rintro l s t ⟨⟨view, ok⟩, marked⟩ allowed ran
  obtain ⟨view', ok', advance⟩ := ok.step allowed ran
  exact ⟨⟨view', ok'⟩, marked.advance advance (step_peak ran)⟩

end

end Coact.Pool
