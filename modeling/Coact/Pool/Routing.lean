import Coact.Pool.Accounting

/-! Reference counts and routing over several pools. An operation on an event
changes its header word and the record of its own pool only, so the other pools
and the static events stay as they are; a block is back on the free list of its
own pool exactly with its last reference. -/
namespace Coact.Pool
open Foundation Function

/-- The operations on the events of registered pools. -/
def Label.Counting : Label → Prop
  | .alloc _ _ _ | .refInc _ | .gc _ => True
  | .init _ | .release _ _ | .flush _ => False

/-- A permitted operation that leaves no event with more than 255 holders. -/
structure Counted (l : Label) (s : State) : Prop where
  counting : l.Counting
  permitted : State.Permitted l s
  below : ∀ e, l = .refInc e → s.held e < 255

/-- The operation is about pool `k`. -/
def Label.Concerns (s : State) (k : Nat) : Label → Prop
  | .alloc k' _ _ => k' = k
  | .refInc e | .gc e | .release _ e =>
    ∃ r i, s.heap.records[k]? = some r ∧ i < r.capacity ∧ e = r.blockBase i
  | .init _ | .flush _ => False

/-- How an operation takes the pools of `s` to those of `t`. -/
structure Routed (l : Label) (s t : State) : Prop where
  taken : ∀ {k signal margin e : Nat}, l = .alloc k signal margin →
    (s.heap.allocWithMargin k signal margin).2 = some e →
    eventPoolId t.heap.mem e = k + 1 ∧ ∃ r i, s.heap.records[k]? = some r ∧ i < r.capacity ∧
      e = r.blockBase i ∧ s.held e = 0
  returned : ∀ {k : Nat} {r}, s.heap.records[k]? = some r → ∃ r' free free',
    t.heap.records[k]? = some r' ∧ freeBlocks s.heap.mem r = some free ∧
    freeBlocks t.heap.mem r' = some free' ∧ ∀ i < r.capacity,
      (i ∈ free' ∧ i ∉ free) ↔ l = .gc (r.blockBase i) ∧ s.held (r.blockBase i) = 1
  others : ∀ {k : Nat} {r}, s.heap.records[k]? = some r → ¬ l.Concerns s k →
    t.heap.records[k]? = some r ∧
    ∀ a, r.base ≤ a → a < r.base + r.capacity * r.blockSize → t.heap.mem a = s.heap.mem a
  outside : ∀ a, (∀ r ∈ s.heap.records, a < r.base ∨ r.base + r.capacity * r.blockSize ≤ a) →
    t.heap.mem a = s.heap.mem a

theorem setRefCtr_other {n : Nat} (away : a < e ∨ e + 4 ≤ a) : setRefCtr m e n a = m a :=
  store8_other (by omega)

theorem newEvent_other {signal poolId : Nat} (away : a < e ∨ e + 4 ≤ a) :
    newEvent m e signal poolId a = m a := by
  rw [newEvent, setRefCtr_other away, store8_other (by omega), store16, store8_other (by omega),
    store8_other (by omega)]

theorem store32_other {n : Nat} (away : a < e ∨ e + 4 ≤ a) : store32 m e n a = m a := by
  rw [store32, store16, store16, store8_other (by omega), store8_other (by omega),
    store8_other (by omega), store8_other (by omega)]

/-- Only the record of pool `k` and the header word at `e` may differ. -/
structure Confined (h h' : Heap) (k e : Nat) : Prop where
  records : ∀ k', k' ≠ k → h'.records[k']? = h.records[k']?
  bytes : ∀ a, a < e ∨ e + 4 ≤ a → h'.mem a = h.mem a

section
variable {tables : Nat → Table} {held : Nat → Nat}

theorem confined_refl (h : Heap) (k e : Nat) : Confined h h k e := ⟨fun _ _ => rfl, fun _ _ => rfl⟩

theorem confined_eventRefInc (moved : h.eventRefInc e = .ok h') (k : Nat) : Confined h h' k e := by
  rw [Heap.eventRefInc] at moved
  (repeat' split at moved) <;> cases moved
  · exact confined_refl h k e
  · exact ⟨fun _ _ => rfl, fun _ => setRefCtr_other⟩

/-- A reclaim goes by the pool id in the header, also after the last decrement. -/
theorem confined_eventGc (poolId : eventPoolId h.mem e = k + 1) (moved : h.eventGc e = .ok h') :
    Confined h h' k e := by
  simp only [Heap.eventGc, Heap.reclaim, eventPoolId_setRefCtr, poolId, Nat.add_sub_cancel] at moved
  (repeat' split at moved) <;> cases moved
  · exact confined_refl h k e
  · exact ⟨fun k' other => List.getElem?_set_ne (Ne.symm other),
      fun a away => (store32_other away).trans (setRefCtr_other away)⟩
  · exact ⟨fun _ _ => rfl, fun _ => setRefCtr_other⟩

theorem confined_claim (h : Heap) (k e signal : Nat) (r : PoolRecord) :
    Confined h ⟨newEvent h.mem e signal (k + 1), h.records.set k r⟩ k e :=
  ⟨fun _ other => List.getElem?_set_ne (Ne.symm other), fun _ => newEvent_other⟩

end

section
variable {maxPending : Nat → Nat} {s t : State} {view : Nat → View} {l : Label}

section
variable (ok : HeapOk s.heap s.tables s.held view)
include ok

theorem Counted.steps (counted : Counted l s) : ∃ t, State.step maxPending l s = .ok t := by
  cases ran : State.step maxPending l s with
  | ok t => exact ⟨t, rfl⟩
  | error fault =>
    obtain ⟨-, e, rfl, full⟩ := ok.step_fails counted.permitted ran
    have below := counted.below e rfl
    omega

theorem HeapOk.counted (counted : Counted l s) (ran : State.step maxPending l s = .ok t) :
    ∃ view', HeapOk t.heap t.tables t.held view' ∧
      ∀ k b, (view' k).chain (.pending b) = (view k).chain (.pending b) := by
  have same {view' : Nat → View} (kept : Kept ∅ view view') (k b : Nat) :
      (view' k).chain (.pending b) = (view k).chain (.pending b) :=
    kept.pending k b (Set.notMem_empty b)
  cases l with
  | init | release | flush => exact counted.counting.elim
  | alloc k signal margin =>
    rw [State.step] at ran
    cases found : s.heap.records[k]? with
    | none =>
      rw [Heap.allocWithMargin, found] at ran
      cases ran
      exact ⟨view, ok, fun _ _ => rfl⟩
    | some r =>
      rcases ok.alloc found signal margin with ⟨-, i, rest, head, free, claimed, whole⟩ | ⟨-, same⟩
      · rw [claimed] at ran
        cases ran
        refine ⟨_, whole, fun k' b => ?_⟩
        rw [update_apply]
        split
        · rename_i here
          rw [here, Chains.chain_pop_other (by simp)]
        · rfl
      · rw [same] at ran
        cases ran
        exact ⟨view, ok, fun _ _ => rfl⟩
  | refInc =>
    rcases counted.permitted with lent | static
    · obtain ⟨h', moved, rfl⟩ := map_ok ran
      rw [recount_held ok lent]
      exact ⟨view, ok.refInc lent moved, fun _ _ => rfl⟩
    · cases (step_static static).1.symm.trans ran
      exact ⟨view, ok, fun _ _ => rfl⟩
  | gc =>
    rcases counted.permitted with lent | static
    · obtain ⟨h', moved, rfl⟩ := map_ok ran
      rw [recount_held ok lent]
      obtain ⟨h₁, view', moved', whole, kept, -⟩ := ok.gc lent
      obtain rfl := Except.ok.inj (moved.symm.trans moved')
      exact ⟨view', whole, same kept⟩
    · cases (step_static static).2.1.symm.trans ran
      exact ⟨view, ok, fun _ _ => rfl⟩

theorem HeapOk.confined (counted : Counted l s) (ran : State.step maxPending l s = .ok t) :
    t.heap = s.heap ∨ ∃ k r i, s.heap.records[k]? = some r ∧ i < r.capacity ∧ l.Concerns s k ∧
      Confined s.heap t.heap k (r.blockBase i) := by
  cases l with
  | init | release | flush => exact counted.counting.elim
  | alloc k signal margin =>
    rw [State.step] at ran
    cases found : s.heap.records[k]? with
    | none =>
      rw [Heap.allocWithMargin, found] at ran
      cases ran
      exact .inl rfl
    | some r =>
      rcases ok.alloc found signal margin with ⟨-, i, rest, head, free, claimed, -⟩ | ⟨-, same⟩
      · rw [claimed] at ran
        cases ran
        exact .inr ⟨k, r, i, found, (ok.pool found).inside .free i (free ▸ List.mem_cons_self), rfl,
          confined_claim ..⟩
      · rw [same] at ran
        cases ran
        exact .inl rfl
  | refInc =>
    rcases counted.permitted with lent | static
    · obtain ⟨h', moved, rfl⟩ := map_ok ran
      obtain ⟨k, r, i, found, below, rfl, -, -, -⟩ := ok.holder lent
      exact .inr ⟨k, r, i, found, below, ⟨r, i, found, below, rfl⟩, confined_eventRefInc moved k⟩
    · cases (step_static static).1.symm.trans ran
      exact .inl rfl
  | gc =>
    rcases counted.permitted with lent | static
    · obtain ⟨h', moved, rfl⟩ := map_ok ran
      obtain ⟨k, r, i, found, below, rfl, poolId, -, -⟩ := ok.holder lent
      exact .inr ⟨k, r, i, found, below, ⟨r, i, found, below, rfl⟩, confined_eventGc poolId moved⟩
    · cases (step_static static).2.1.symm.trans ran
      exact .inl rfl

theorem HeapOk.dropped_iff (counted : Counted l s)
    (ran : State.step maxPending l s = .ok t) (e : Nat) :
    (t.held e = 0 ∧ 0 < s.held e) ↔ l = .gc e ∧ s.held e = 1 := by
  cases l with
  | init | release | flush => exact counted.counting.elim
  | alloc k signal margin =>
    constructor
    · rintro ⟨unheld, lent⟩
      rw [State.step] at ran
      split at ran <;> cases ran
      · exact (Nat.ne_of_gt lent unheld).elim
      · rename_i h' e' taken
        simp only [State.settle, update_apply] at unheld
        split at unheld <;> omega
    · rintro ⟨never, -⟩
      cases never
  | refInc e' =>
    constructor
    · rintro ⟨unheld, lent⟩
      obtain ⟨h', -, rfl⟩ := map_ok ran
      simp only [State.settle, State.recount] at unheld
      split at unheld
      · omega
      · rw [update_apply] at unheld
        split at unheld <;> omega
    · rintro ⟨never, -⟩
      cases never
  | gc e' =>
    obtain ⟨h', -, rfl⟩ := map_ok ran
    constructor
    · rintro ⟨unheld, lent⟩
      simp only [State.settle, State.recount] at unheld
      split at unheld
      · omega
      · rw [update_apply] at unheld
        split at unheld
        · rename_i here
          subst here
          exact ⟨rfl, by omega⟩
        · omega
    · rintro ⟨same, last⟩
      cases same
      have lent : 0 < s.held e := last ▸ Nat.one_pos
      refine ⟨?_, lent⟩
      simp [State.settle, recount_held ok lent, last]

end

/-- Blocks leave the pending chains and join them by batchers only, so a block
without holders that was held before is on the free list. -/
theorem HeapOk.routed (ok : HeapOk s.heap s.tables s.held view) (counted : Counted l s)
    (ran : State.step maxPending l s = .ok t) : Routed l s t := by
  have confined := ok.confined counted ran
  constructor
  case taken =>
    rintro k signal margin e rfl got
    cases found : s.heap.records[k]? with
    | none =>
      rw [Heap.allocWithMargin, found] at got
      cases got
    | some r =>
      rcases ok.alloc found signal margin with ⟨-, i, rest, head, free, claimed, whole⟩ | ⟨-, same⟩
      · rw [claimed] at got
        cases got
        rw [State.step, claimed] at ran
        cases ran
        have home : i ∈ (view k).chain .free := free ▸ List.mem_cons_self
        have unheld := ((ok.pool found).shelf_iff i).mp ⟨.free, home⟩
        have found' := getElem?_set_found found (r.claimed head)
        have header := (whole.pool found').header i unheld.1 (by
          rw [show (r.claimed head).blockBase i = r.blockBase i from rfl, update_self]
          exact Nat.one_pos)
        exact ⟨header.1, r, i, rfl, unheld.1, rfl, unheld.2⟩
      · rw [same] at got
        cases got
  case returned =>
    intro k r found
    obtain ⟨view', ok', pending⟩ := ok.counted counted ran
    obtain ⟨_, -, advance⟩ := ok.step counted.permitted ran
    obtain ⟨r', found', like, -⟩ := advance.pools found
    refine ⟨r', _, _, found', (ok.pool found).freeBlocks, (ok'.pool found').freeBlocks,
      fun i below => ?_⟩
    rw [← ok.dropped_iff counted ran]
    have before := (ok.pool found).shelf_iff i
    have after := (ok'.pool found').shelf_iff i
    rw [like.blockBase] at after
    constructor
    · rintro ⟨home, away⟩
      refine ⟨(after.mp ⟨_, home⟩).2, Nat.pos_of_ne_zero fun unheld => ?_⟩
      obtain ⟨c, member⟩ := before.mpr ⟨below, unheld⟩
      cases c with
      | free => exact away member
      | pending =>
        rw [← pending] at member
        cases (view' k).apart home member
    · rintro ⟨unheld, lent⟩
      have away : (view k).Loose i := ((ok.pool found).lent i below).mpr lent
      obtain ⟨c, member⟩ := after.mpr ⟨like.capacity ▸ below, unheld⟩
      cases c with
      | free => exact ⟨member, away .free⟩
      | pending b =>
        rw [pending] at member
        exact (away (.pending b) member).elim
  case others =>
    intro k r found unconcerned
    rcases confined with same | ⟨k', r', i, found', below, concerned, confined⟩
    · rw [same]
      exact ⟨found, fun _ _ _ => rfl⟩
    · have other : k ≠ k' := by
        rintro rfl
        exact unconcerned concerned
      refine ⟨(confined.records k other).trans found, fun a first last => confined.bytes a ?_⟩
      have start := r'.base_le_blockBase i
      have inside := PoolRecord.blockBase_end below
      rcases ok.disjoint found found' other with before | after <;> omega
  case outside =>
    intro a away
    rcases confined with same | ⟨k', r', i, found', below, -, confined⟩
    · rw [same]
    · have start := r'.base_le_blockBase i
      have inside := PoolRecord.blockBase_end below
      refine confined.bytes a ?_
      rcases away r' (List.mem_of_getElem? found') with before | after <;> omega

theorem Routed.static (routed : Routed l s t) (static : s.Static e) :
    SameWord s.heap.mem t.heap.mem e := by
  intro o below
  refine routed.outside _ fun r member => ?_
  rcases static.2 r member with before | after <;> omega

/-- A static event stays static as long as no further pool is initialised. -/
theorem HeapOk.static_step (ok : HeapOk s.heap s.tables s.held view) (counted : Counted l s)
    (ran : State.step maxPending l s = .ok t) (static : s.Static e) : t.Static e := by
  have same := (ok.routed counted ran).static static
  refine ⟨(poolId_same same).trans static.1, fun r' member => ?_⟩
  obtain ⟨k, found'⟩ := List.getElem?_of_mem member
  obtain ⟨_, -, advance⟩ := ok.step counted.permitted ran
  cases found : s.heap.records[k]? with
  | none =>
    have absent : t.heap.records[k]? = none := by
      rcases ok.confined counted ran with same | ⟨k', r, i, there, -, -, confined⟩
      · rw [same, found]
      · have other : k ≠ k' := by
          rintro rfl
          rw [there] at found
          cases found
        rw [confined.records k other, found]
    rw [found'] at absent
    cases absent
  | some r =>
    obtain ⟨r₁, found₁, like, -⟩ := advance.pools found
    cases found₁.symm.trans found'
    rw [like.base, like.capacity, like.blockSize]
    exact static.2 r (List.mem_of_getElem? found)

/-- In every reachable state the count in the header of an outstanding event is the
number of its references, and every further operation succeeds, returns a block to
its own pool exactly with the last reference and touches neither another pool nor
anything outside the pools; static events stay as they are along whole runs. -/
theorem reference_routing (reached : Reached maxPending s) :
    (∀ e, 0 < s.held e → eventRefCtr s.heap.mem e = s.held e) ∧
    (∀ l, Counted l s → ∃ t, State.step maxPending l s = .ok t ∧ Routed l s t) ∧
    ∀ t, Reaches (State.step maxPending) Counted s t → ∀ e, s.Static e →
      t.Static e ∧ SameWord s.heap.mem t.heap.mem e := by
  obtain ⟨⟨view, ok⟩, -⟩ := reached_ok reached
  refine ⟨fun e lent => ?_, fun l counted => ?_, fun t run e static => ?_⟩
  · obtain ⟨-, -, -, -, -, -, -, -, refCtr⟩ := ok.holder lent
    exact refCtr
  · obtain ⟨t, ran⟩ := counted.steps ok
    exact ⟨t, ran, ok.routed counted ran⟩
  · have kept := run.invariant
      (P := fun t => (∃ view, HeapOk t.heap t.tables t.held view) ∧ t.Static e ∧
        SameWord s.heap.mem t.heap.mem e) ⟨⟨view, ok⟩, static, SameWord.refl⟩ ?_
    · exact kept.2
    · rintro l t u ⟨⟨view, ok⟩, static, same⟩ counted ran
      obtain ⟨view', ok', -⟩ := ok.step counted.permitted ran
      exact ⟨⟨view', ok'⟩, ok.static_step counted ran static,
        same.trans ((ok.routed counted ran).static static)⟩

end

/-- A second pool of two blocks of 8 bytes from address 60 on. -/
def otherPool : PoolSpec :=
  ⟨.RttSingleCoreProfile, 8, 2, 4, 60, 16, by decide, by decide, smallPool.aligned⟩

/-- An event of the first pool with two references and one of the second. -/
def routedRun : List Label :=
  [.init smallPool, .init otherPool, .alloc 0 7 0, .refInc 20, .alloc 1 9 0]

theorem reference_routing_shared :
    Reached (fun _ => 4) (runOf (fun _ => 4) routedRun) ∧
    (runOf (fun _ => 4) routedRun).held 20 = 2 ∧
    eventRefCtr (runOf (fun _ => 4) routedRun).heap.mem 20 = 2 ∧
    ∃ t, State.step (fun _ => 4) (.gc 60) (runOf (fun _ => 4) routedRun) = .ok t ∧
      Routed (.gc 60) (runOf (fun _ => 4) routedRun) t := by
  have reached : Reached (fun _ => 4) (runOf (fun _ => 4) routedRun) :=
    reached_runOf (by decide +kernel)
  have two : (runOf (fun _ => 4) routedRun).held 20 = 2 := by decide +kernel
  have one : (runOf (fun _ => 4) routedRun).held 60 = 1 := by decide +kernel
  obtain ⟨counts, steps, -⟩ := reference_routing reached
  have permitted : State.Permitted (.gc 60) (runOf (fun _ => 4) routedRun) :=
    .inl (one ▸ Nat.one_pos)
  exact ⟨reached, two, (counts 20 (two ▸ Nat.two_pos)).trans two,
    steps (.gc 60) ⟨trivial, permitted, fun e never => by cases never⟩⟩

end Coact.Pool
