import Coact.Pool.Accounting

/-! Batched and immediate reclaim agree. Both keep the representation invariant
with the same references left, and the invariant leaves no choice for the set of
free blocks once no batcher chain is pending. -/
namespace Coact.Pool
open Foundation Function

/-- A sequence of `ReclaimBatcher::release` calls. -/
def releaseEach (maxPending : Nat) : List Nat → Table → Heap → Except Fault (Table × Heap)
  | [], t, h => .ok (t, h)
  | e :: es, t, h =>
    match release maxPending t h e with
    | .error fault => .error fault
    | .ok (t', h') => releaseEach maxPending es t' h'

/-- A sequence of `ImmediateReclaimer::release` calls. -/
def releaseEachImmediate : List Nat → Heap → Except Fault Heap
  | [], h => .ok h
  | e :: es, h =>
    match releaseImmediate h e with
    | .error fault => .error fault
    | .ok h' => releaseEachImmediate es h'

/-- Every pool has the same `used` and the same blocks on its free list, each once. -/
structure Heap.SameFree (h h' : Heap) : Prop where
  pools : h.records.length = h'.records.length
  free : ∀ {k : Nat} {r r'}, h.records[k]? = some r → h'.records[k]? = some r' →
    r.used = r'.used ∧ ∃ free free', freeBlocks h.mem r = some free ∧
      freeBlocks h'.mem r' = some free' ∧ free.Nodup ∧ free'.Nodup ∧ ∀ i, i ∈ free ↔ i ∈ free'

/-- The free lists of `h` lack exactly the pending chains of a batcher to be those
of `h'`. -/
structure Heap.Behind (t : Table) (h h' : Heap) : Prop where
  pools : h.records.length = h'.records.length
  free : ∀ {k : Nat} {r r'}, h.records[k]? = some r → h'.records[k]? = some r' →
    ∃ free free', freeBlocks h.mem r = some free ∧ freeBlocks h'.mem r' = some free' ∧
      (∀ i ∈ free, i ∉ pendingBlocks h.mem t k r) ∧
      ∀ i, i ∈ free' ↔ i ∈ free ∨ i ∈ pendingBlocks h.mem t k r

section
variable {tables : Nat → Table} {held : Nat → Nat} {es : List Nat}

/-- The references that remain after a sequence of releases. -/
def remaining (held : Nat → Nat) (es : List Nat) (e : Nat) : Nat := held e - es.count e

theorem remaining_cons (held : Nat → Nat) (e : Nat) (es : List Nat) :
    remaining (update held e (held e - 1)) es = remaining held (e :: es) := by
  funext e'
  rw [remaining, remaining, List.count_cons, update_apply]
  by_cases same : e' = e
  · subst same
    simp only [↓reduceIte, beq_self_eq_true]
    omega
  · simp [same, Ne.symm same]

theorem lent_cons (lent : ∀ e', (e :: es).count e' ≤ held e') :
    0 < held e ∧ ∀ e', es.count e' ≤ update held e (held e - 1) e' := by
  have first := lent e
  rw [List.count_cons_self] at first
  refine ⟨Nat.lt_of_lt_of_le (Nat.succ_pos _) first, fun e' => ?_⟩
  have bound := lent e'
  rw [update_apply]
  split
  · rename_i same
    rw [same]
    omega
  · exact (List.count_le_count_cons ..).trans bound

theorem HeapOk.releaseEach (ok : HeapOk h tables held view) (b maxPending : Nat)
    (lent : ∀ e, es.count e ≤ held e) :
    ∃ t h' view', releaseEach maxPending es (tables b) h = .ok (t, h') ∧
      HeapOk h' (update tables b t) (remaining held es) view' ∧
      Kept {b} view view' ∧ h'.lasting = h.lasting := by
  induction es generalizing h tables held view with
  | nil =>
    refine ⟨tables b, h, view, rfl, ?_, Kept.refl {b} view, rfl⟩
    rw [update_eq_self]
    exact ok
  | cons _ _ ih =>
    obtain ⟨first, rest⟩ := lent_cons lent
    obtain ⟨t₁, h₁, view₁, moved, ok₁, kept₁⟩ := ok.release first b maxPending
    obtain ⟨t, h', view', run, ok', kept, lasting⟩ := ih ok₁ rest
    rw [update_self] at run
    rw [update_idem, remaining_cons] at ok'
    refine ⟨t, h', view', ?_, ok', kept₁.trans kept, lasting.trans (lasting_release moved)⟩
    rw [Pool.releaseEach, moved]
    exact run

theorem HeapOk.releaseEachImmediate (ok : HeapOk h tables held view)
    (lent : ∀ e, es.count e ≤ held e) :
    ∃ h' view', releaseEachImmediate es h = .ok h' ∧
      HeapOk h' tables (remaining held es) view' ∧ Kept ∅ view view' ∧
      h'.lasting = h.lasting := by
  induction es generalizing h held view with
  | nil => exact ⟨h, view, rfl, ok, Kept.refl ∅ view, rfl⟩
  | cons _ _ ih =>
    obtain ⟨first, rest⟩ := lent_cons lent
    obtain ⟨h₁, view₁, moved, ok₁, kept₁, -⟩ := ok.gc first
    obtain ⟨h', view', run, ok', kept, lasting⟩ := ih ok₁ rest
    rw [remaining_cons] at ok'
    refine ⟨h', view', ?_, ok', kept₁.trans kept, lasting.trans (lasting_eventGc moved)⟩
    rw [Pool.releaseEachImmediate, releaseImmediate, moved]
    exact run

end

section
variable {tables : Nat → Table} {held : Nat → Nat} {b : Nat}

theorem HeapOk.pending_nil (ok : HeapOk h tables held view) (found : h.records[k]? = some r)
    (begun : tables b = []) : (view k).chain (.pending b) = [] := by
  have rep := (ok.pool found).pending b
  rw [begun] at rep
  exact rep

/-- Two heaps with the same references left and the same pending chains of other
batchers: what one has free, the other has free or pending in batcher `b`. -/
theorem free_iff (ok : HeapOk h tables held view) (ok' : HeapOk h' tables' held view')
    (found : h.records[k]? = some r) (found' : h'.records[k]? = some r') (like : r.Like r')
    (others : ∀ b', b' ≠ b → (view' k).chain (.pending b') = (view k).chain (.pending b'))
    (none_left : (view' k).chain (.pending b) = []) :
    i ∈ (view' k).chain .free ↔
      i ∈ (view k).chain .free ∨ i ∈ (view k).chain (.pending b) := by
  have shelves : (∃ c, i ∈ (view' k).chain c) ↔ ∃ c, i ∈ (view k).chain c := by
    rw [(ok.pool found).shelf_iff, (ok'.pool found').shelf_iff, like.capacity, like.blockBase]
  constructor
  · intro free'
    obtain ⟨c, member⟩ := shelves.mp ⟨_, free'⟩
    cases c with
    | free => exact .inl member
    | pending b' =>
      by_cases here : b' = b
      · exact .inr (here ▸ member)
      · rw [← others b' here] at member
        cases (view' k).apart free' member
  · intro old
    obtain ⟨c, member⟩ := shelves.mpr (old.elim (fun free => ⟨_, free⟩) fun waits => ⟨_, waits⟩)
    cases c with
    | free => exact member
    | pending b' =>
      by_cases here : b' = b
      · rw [here, none_left] at member
        cases member
      · rw [others b' here] at member
        rcases old with free | waits
        · cases (view k).apart free member
        · cases (view k).apart waits member
          exact (here rfl).elim

theorem sameFree_of_iff (ok : HeapOk h tables held view) (ok' : HeapOk h' tables' held view')
    (lasting : h'.lasting = h.lasting)
    (same : ∀ k r, h.records[k]? = some r →
      ∀ i, i ∈ (view k).chain .free ↔ i ∈ (view' k).chain .free) : h.SameFree h' := by
  refine ⟨(lasting_length lasting).symm, fun {k r r'} found found' => ?_⟩
  obtain ⟨r₁, found₁, like, -⟩ := lasting_found lasting found
  cases found₁.symm.trans found'
  have pool := ok.pool found
  have pool' := ok'.pool found'
  have once := (view k).nodup .free
  have once' := (view' k).nodup .free
  have length := ((List.perm_ext_iff_of_nodup once once').mpr (same k r found)).length_eq
  refine ⟨?_, _, _, pool.freeBlocks, pool'.freeBlocks, once, once', same k r found⟩
  have balance := pool.used
  have balance' := pool'.used
  have capacity := like.capacity
  omega

end

section
variable {maxPending : Nat → Nat} {s : State} {b : Nat} {es : List Nat}

theorem lent_all (lent : ∀ e ∈ es, es.count e ≤ s.held e) (e : Nat) : es.count e ≤ s.held e := by
  by_cases member : e ∈ es
  · exact lent e member
  · rw [List.count_eq_zero.mpr member]
    exact Nat.zero_le _

/-- After the same releases, the batcher is behind by its pending chains. -/
theorem behind_releaseEach (ok : HeapOk s.heap s.tables s.held view)
    (begun : s.tables b = []) (n : Nat) (lent : ∀ e, es.count e ≤ s.held e) :
    ∃ t batched immediate, releaseEach n es [] s.heap = .ok (t, batched) ∧
      releaseEachImmediate es s.heap = .ok immediate ∧ batched.Behind t immediate := by
  obtain ⟨t, batched, view₁, run, ok₁, kept₁, lasting₁⟩ := ok.releaseEach b n lent
  obtain ⟨immediate, view₂, run', ok₂, kept₂, lasting₂⟩ := ok.releaseEachImmediate lent
  rw [begun] at run
  have lasting := lasting₂.trans lasting₁.symm
  refine ⟨t, batched, immediate, run, run', (lasting_length lasting).symm,
    fun {k r r'} found found' => ?_⟩
  obtain ⟨r₁, found₁, like, -⟩ := lasting_found lasting found
  cases found₁.symm.trans found'
  have pending : pendingBlocks batched.mem t k r = (view₁ k).chain (.pending b) := by
    have rep := (ok₁.pool found).pending b
    rw [update_self] at rep
    exact pendingBlocks_eq rep
  refine ⟨_, _, (ok₁.pool found).freeBlocks, (ok₂.pool found').freeBlocks,
    fun i free waits => ?_, fun i => ?_⟩
  · rw [pending] at waits
    cases (view₁ k).apart free waits
  · rw [pending]
    refine free_iff ok₁ ok₂ found found' like (fun b' other => ?_) (ok₂.pending_nil found' begun)
    rw [kept₂.pending k b' (Set.notMem_empty b'), kept₁.pending k b' other]

/-- Running any releases of held references through a batcher and flushing it
leaves every pool as immediate reclaim does, with the same references left; after
every part of the sequence, the batcher is behind by its pending chains. -/
theorem batched_reclaim_equivalent (reached : Reached maxPending s) (begun : s.tables b = [])
    (n : Nat) (lent : ∀ e ∈ es, es.count e ≤ s.held e) :
    ∃ t batched immediate, releaseEach n es [] s.heap = .ok (t, batched) ∧
      releaseEachImmediate es s.heap = .ok immediate ∧
      (flush t batched).SameFree immediate ∧
      (∀ e, es.count e < s.held e →
        eventRefCtr (flush t batched).mem e = s.held e - es.count e ∧
          eventRefCtr immediate.mem e = s.held e - es.count e) ∧
      ∀ done, done <+: es → ∃ t₁ batched₁ immediate₁,
        releaseEach n done [] s.heap = .ok (t₁, batched₁) ∧
        releaseEachImmediate done s.heap = .ok immediate₁ ∧ batched₁.Behind t₁ immediate₁ := by
  obtain ⟨⟨view, ok⟩, -⟩ := reached_ok reached
  have lent' := lent_all lent
  obtain ⟨t, batched, view₁, run, ok₁, kept₁, lasting₁⟩ := ok.releaseEach b n lent'
  obtain ⟨immediate, view₂, run', ok₂, kept₂, lasting₂⟩ := ok.releaseEachImmediate lent'
  obtain ⟨view₃, ok₃, kept₃⟩ := ok₁.flush (update_self b t s.tables)
  have lasting : immediate.lasting = (flush t batched).lasting := by
    rw [lasting_flush, lasting₁, lasting₂]
  have still (e : Nat) (less : es.count e < s.held e) : 0 < remaining s.held es e :=
    Nat.sub_pos_of_lt less
  rw [begun] at run
  refine ⟨t, batched, immediate, run, run', ?_, fun e less => ?_, fun done part => ?_⟩
  · refine sameFree_of_iff ok₃ ok₂ lasting fun k r found i => ?_
    obtain ⟨r', found', like, -⟩ := lasting_found lasting found
    have same := free_iff (b := b) (i := i) ok₃ ok₂ found found' like (fun b' other => ?_)
      (ok₂.pending_nil found' begun)
    · rw [same, ok₃.pending_nil found (update_self ..)]
      simp
    · rw [kept₂.pending k b' (Set.notMem_empty b'), kept₃.pending k b' other,
        kept₁.pending k b' other]
  · obtain ⟨-, -, -, -, -, -, -, -, refCtr₃⟩ := ok₃.holder (still e less)
    obtain ⟨-, -, -, -, -, -, -, -, refCtr₂⟩ := ok₂.holder (still e less)
    exact ⟨refCtr₃, refCtr₂⟩
  · exact behind_releaseEach ok begun n fun e => (part.sublist.count_le e).trans (lent' e)

end

/-- Two events are outstanding, the first one with two references. -/
def sharedRun : List Label := [.init smallPool, .alloc 0 7 0, .alloc 0 8 0, .refInc 20]

theorem batched_reclaim_equivalent_shared :
    (runOf (fun _ => 4) sharedRun).held 20 = 2 ∧
    ∃ t batched immediate,
      releaseEach 1 [20, 28] [] (runOf (fun _ => 4) sharedRun).heap = .ok (t, batched) ∧
      releaseEachImmediate [20, 28] (runOf (fun _ => 4) sharedRun).heap = .ok immediate ∧
      (flush t batched).SameFree immediate ∧ eventRefCtr immediate.mem 20 = 1 := by
  have reached : Reached (fun _ => 4) (runOf (fun _ => 4) sharedRun) :=
    reached_runOf (by decide +kernel)
  have twice : (runOf (fun _ => 4) sharedRun).held 20 = 2 := by decide +kernel
  have begun : (runOf (fun _ => 4) sharedRun).tables 0 = [] := by decide +kernel
  have lent : ∀ e ∈ [20, 28], [20, 28].count e ≤ (runOf (fun _ => 4) sharedRun).held e := by
    decide +kernel
  obtain ⟨t, batched, immediate, run, run', same, refs, -⟩ :=
    batched_reclaim_equivalent reached begun 1 lent
  have left := (refs 20 (by rw [twice]; decide)).2
  exact ⟨twice, t, batched, immediate, run, run', same, left⟩

end Coact.Pool
