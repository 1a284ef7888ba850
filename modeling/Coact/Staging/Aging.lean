import Coact.Queue.Orderly
import Coact.Staging.Sequential

/-! When an overdue Low head is served. The age is judged on 32-bit timestamps with a
signed difference, so a head that has waited between 2^31 and 2^32 nanoseconds, or
as much more than a multiple of 2^32, does not count as aged and High and Normal
traffic goes first. -/
namespace Coact.Staging
open Foundation Dispatch Stage Function Session
variable {B : Backend StagingSlot} {A : B.Alone} {cfg : Config}

/-- The calls of `enqueue`, in order. -/
def requests (ops : List Op) : List Request :=
  ops.filterMap fun
    | .enqueue r => some r
    | _ => none

section
variable {s s' : Stage B} {r : Request} {i : Nat}

theorem enqueue_queue {queued : Bool} (done : s.enqueue A cfg r i = .ok (s', queued)) :
    s'.queue = s.queue ∨
      s'.queue = update s.queue r.part
        (A.tryPush (s.queue r.part) (r.slot cfg i)).1 := by
  rw [enqueue] at done
  split at done
  · split at done
    · cases done
      exact .inl rfl
    · rename_i claimed taken
      have sameQueue := (tryClaim_same taken).1
      rw [pushInto, sameQueue] at done
      refine .inr ?_
      split at done
      · rename_i q pushed
        cases done
        change update claimed.queue r.part q = _
        rw [sameQueue, pushed]
      · rename_i q refused
        obtain ⟨last, released, same⟩ := map_ok done
        cases same
        rw [releaseClaim_queue released]
        change update claimed.queue r.part q = _
        rw [sameQueue, refused]
  · cases done
    exact .inl rfl

theorem dequeueOne_queue {nowNs : Nat} {out : Option StagingSlot}
    (done : s.dequeueOne A cfg nowNs = .ok (s', out)) :
    s'.queue = s.queue ∨ ∃ p, s'.queue = update s.queue p (A.tryPop (s.queue p)).1 := by
  simp only [dequeueOne] at done
  split at done
  · split at done
    · rename_i p _
      refine .inr ⟨p, ?_⟩
      rw [popFrom] at done
      split at done
      · rename_i q popped
        cases done
        exact congrArg (update s.queue p) (congrArg Prod.fst popped).symm
      · rename_i q v popped
        obtain ⟨last, released, same⟩ := map_ok done
        cases same
        have kept : last.queue = update s.queue p q := releaseClaim_queue released
        exact kept.trans (congrArg (update s.queue p) (congrArg Prod.fst popped).symm)
    · cases done
      exact .inl rfl
  · cases done
    exact .inl rfl

end

section
variable {O : Backend.Orderly A} {ops : List Op} {s : Session B}

/-- Every resident slot is the one some call of `enqueue` has built. -/
structure Traced (O : Backend.Orderly A) (cfg : Config) (ops : List Op) (s : Session B) : Prop where
  calls : s.calls = (requests ops).length
  ok : ∀ p, O.Ok (s.stage.queue p)
  built : ∀ p v, O.Holds (s.stage.queue p) v →
    ∃ r, (requests ops)[v.sub]? = some r ∧ r.slot cfg v.sub = v ∧ r.part = p

theorem requests_enqueue (ops : List Op) (r : Request) :
    requests (ops ++ [.enqueue r]) = requests ops ++ [r] := by
  simp [requests]

theorem Traced.later (traced : Traced O cfg ops s) (r : Request)
    (held : O.Holds (s.stage.queue p) v) :
    ∃ r', (requests ops ++ [r])[v.sub]? = some r' ∧ r'.slot cfg v.sub = v ∧ r'.part = p := by
  obtain ⟨r', asked, built, part⟩ := traced.built p v held
  refine ⟨r', ?_, built, part⟩
  rw [List.getElem?_append_left (List.getElem?_eq_some_iff.mp asked).1, asked]

theorem Traced.enqueue (traced : Traced O cfg ops s) {stage : Stage B} {queued : Bool}
    (done : s.stage.enqueue A cfg r s.calls = .ok (stage, queued)) :
    Traced O cfg (ops ++ [.enqueue r]) ⟨stage, s.calls + 1⟩ := by
  constructor
  case calls => rw [requests_enqueue, List.length_append, ← traced.calls, List.length_singleton]
  case ok =>
    intro p
    rcases enqueue_queue done with same | pushed
    · rw [same]
      exact traced.ok p
    · rw [pushed]
      by_cases part : p = r.part
      · subst part
        rw [update_self]
        exact O.push _ (traced.ok _)
      · rw [update_of_ne part]
        exact traced.ok p
  case built =>
    intro p v held
    rw [requests_enqueue]
    rcases enqueue_queue done with same | pushed
    · rw [same] at held
      exact traced.later r held
    · rw [pushed] at held
      by_cases part : p = r.part
      · subst part
        rw [update_self] at held
        rcases O.holds_push held with old | rfl
        · exact traced.later r old
        · refine ⟨r, ?_, rfl, rfl⟩
          change (requests ops ++ [r])[s.calls]? = some r
          rw [traced.calls, List.getElem?_concat_length]
      · rw [update_of_ne part] at held
        exact traced.later r held

theorem Traced.dequeueOne (traced : Traced O cfg ops s) {nowNs : Nat} {stage : Stage B}
    {out : Option StagingSlot} (done : s.stage.dequeueOne A cfg nowNs = .ok (stage, out)) :
    Traced O cfg (ops ++ [.dequeueOne nowNs]) { s with stage := stage } := by
  have same : requests (ops ++ [.dequeueOne nowNs]) = requests ops := by simp [requests]
  constructor
  case calls => rw [same, traced.calls]
  case ok =>
    intro p
    rcases dequeueOne_queue done with kept | ⟨p', popped⟩
    · rw [kept]
      exact traced.ok p
    · rw [popped]
      by_cases part : p = p'
      · subst part
        rw [update_self]
        exact O.pop (traced.ok _)
      · rw [update_of_ne part]
        exact traced.ok p
  case built =>
    intro p v held
    rw [same]
    rcases dequeueOne_queue done with kept | ⟨p', popped⟩
    · rw [kept] at held
      exact traced.built p v held
    · rw [popped] at held
      by_cases part : p = p'
      · subst part
        rw [update_self] at held
        exact traced.built p v (O.holds_pop held)
      · rw [update_of_ne part] at held
        exact traced.built p v held

theorem Traced.perform (traced : Traced O cfg ops s) {op : Op}
    (done : s.perform A cfg op = .ok (s', response)) : Traced O cfg (ops ++ [op]) s' := by
  cases op with
  | enqueue =>
    obtain ⟨out, queued, same⟩ := map_ok done
    cases same
    exact traced.enqueue queued
  | beginBatch =>
    cases done
    have same : requests (ops ++ [.beginBatch]) = requests ops := by simp [requests]
    refine ⟨?_, traced.ok, ?_⟩
    · rw [same, traced.calls]
    · rw [same]
      exact traced.built
  | dequeueOne =>
    obtain ⟨out, drawn, same⟩ := map_ok done
    cases same
    exact traced.dequeueOne drawn

theorem traced_run (ran : responses (perform A cfg) (.initial B cfg) ops = .ok (s, outs)) :
    Traced O cfg ops s := by
  have start : Traced O cfg [] (.initial B cfg) :=
    ⟨rfl, fun p => O.empty _ _, fun p v held => (O.holds_empty held).elim⟩
  have run := responses_invariant (P := fun past s => Traced O cfg (past.map Prod.fst) s)
    (fun past s t op response traced done => by
      rw [List.map_append]
      exact traced.perform done) start ran
  rwa [List.map_fst_zip (responses_length ran).ge] at run

/-- `dequeue_one(now)` returns `v`. -/
def Serves (A : B.Alone) (cfg : Config) (s : Session B) (nowNs : Nat) (v : StagingSlot) : Prop :=
  ∃ stage, s.stage.dequeueOne A cfg nowNs = .ok (stage, some v)

theorem serves_iff_returned {nowNs : Nat} :
    Serves A cfg s nowNs v ↔ (s.stage.dequeueOne A cfg nowNs).toOption.bind Prod.snd = some v := by
  rw [Serves]
  cases done : s.stage.dequeueOne A cfg nowNs with
  | error => simp [Except.toOption]
  | ok => simp [Except.toOption, Prod.ext_iff]

instance (nowNs : Nat) (v : StagingSlot) : Decidable (Serves A cfg s nowNs v) :=
  decidable_of_iff _ serves_iff_returned.symm

section
variable {r : Request} {v : StagingSlot} {nowNs : Nat}

/-- The age test on the truncated timestamps, for a head enqueued before `now`. -/
theorem aged_slot (early : r.nowNs ≤ nowNs) (built : r.slot cfg v.sub = v) :
    aged cfg nowNs v.enqueueNs = true ↔
      cfg.kLowMaxWaitMs * 10 ^ 6 ≤ (nowNs - r.nowNs) % 2 ^ 32 ∧
        (nowNs - r.nowNs) % 2 ^ 32 < 2 ^ 31 := by
  have stamp : v.enqueueNs = r.nowNs % 2 ^ 32 := by rw [← built]; rfl
  simp only [aged, stamp, decide_eq_true_eq]
  omega

theorem low_unclaimed (low : r.cls = .Low) (built : r.slot cfg v.sub = v) : v.claim = .None := by
  rw [← built]
  simp only [Request.slot, Request.claim, classifyClaim, low]
  rfl

/-- With a Low head and budget left, this is the partition `dequeue_one` serves. -/
theorem selected_low (traced : Traced O cfg ops s) (head : A.front (s.stage.queue .Low) = some v)
    (budget : s.stage.batchUsed < cfg.kBatchSizeMax) :
    selected A cfg { s.stage with nowNs := some nowNs } =
      if aged cfg nowNs v.enqueueNs then some .Low
      else if (A.front (s.stage.queue .High)).isSome then some .High
      else if (A.front (s.stage.queue .Normal)).isSome then some .Normal
      else some .Low := by
  have ready (p : Partition) : ready A { s.stage with nowNs := some nowNs } p =
      (A.front (s.stage.queue p)).isSome := O.ready_front (traced.ok p)
  have low := ready .Low
  rw [selected, ready .High, ready .Normal, low, select, if_neg (Nat.not_le_of_lt budget)]
  simp [agingExpired, head]

theorem dequeueOne_pops (traced : Traced O cfg ops s) (head : A.front (s.stage.queue .Low) = some v)
    (chosen : selected A cfg { s.stage with nowNs := some nowNs } = some p) :
    s.stage.dequeueOne A cfg nowNs = popFrom A { s.stage with nowNs := some nowNs } p := by
  have low : ready A { s.stage with nowNs := some nowNs } .Low = true := by
    refine (O.ready_front (traced.ok .Low)).trans ?_
    rw [head]
    rfl
  simp [dequeueOne, anyReady, low, chosen]

/-- What `dequeue_one` returns is the front of the partition it serves. -/
theorem popFrom_front {stage stage' : Stage B} {out : Option StagingSlot} (O : Backend.Orderly A)
    (done : stage.popFrom A p = .ok (stage', out)) : out = A.front (stage.queue p) := by
  have front := O.pop_front (stage.queue p)
  rw [popFrom] at done
  split at done
  · rename_i popped
    rw [popped] at front
    cases done
    exact front
  · rename_i popped
    rw [popped] at front
    obtain ⟨_, _, same⟩ := map_ok done
    cases same
    exact front

theorem serves_low (traced : Traced O cfg ops s) (head : A.front (s.stage.queue .Low) = some v)
    (unclaimed : v.claim = .None)
    (chosen : selected A cfg { s.stage with nowNs := some nowNs } = some .Low) :
    Serves A cfg s nowNs v := by
  obtain ⟨q, popped⟩ : ∃ q, A.tryPop (s.stage.queue .Low) = (q, some v) :=
    ⟨_, Prod.ext rfl ((O.pop_front _).trans head)⟩
  rw [Serves, dequeueOne_pops traced head chosen]
  simp only [popFrom, popped, unclaimed, releaseClaim, if_true, Except.map]
  exact ⟨_, rfl⟩

theorem not_serves_other (traced : Traced O cfg ops s)
    (head : A.front (s.stage.queue .Low) = some v) (other : p ≠ .Low)
    (chosen : selected A cfg { s.stage with nowNs := some nowNs } = some p) :
    ¬ Serves A cfg s nowNs v := by
  rintro ⟨stage, done⟩
  rw [dequeueOne_pops traced head chosen] at done
  have front : A.front (s.stage.queue p) = some v := (popFrom_front O done).symm
  obtain ⟨r, asked, -, part⟩ := traced.built p v (O.front_holds front)
  obtain ⟨r', asked', -, low⟩ := traced.built .Low v (O.front_holds head)
  cases asked.symm.trans asked'
  exact other (part.symm.trans low)

theorem serves_iff (traced : Traced O cfg ops s) (head : A.front (s.stage.queue .Low) = some v)
    (unclaimed : v.claim = .None) (budget : s.stage.batchUsed < cfg.kBatchSizeMax) :
    Serves A cfg s nowNs v ↔ aged cfg nowNs v.enqueueNs = true ∨
      A.front (s.stage.queue .High) = none ∧ A.front (s.stage.queue .Normal) = none := by
  have chosen : selected A cfg { s.stage with nowNs := some nowNs } = _ :=
    selected_low traced head budget
  by_cases old : aged cfg nowNs v.enqueueNs = true
  · rw [if_pos old] at chosen
    exact iff_of_true (serves_low traced head unclaimed chosen) (.inl old)
  · rw [if_neg old] at chosen
    cases high : A.front (s.stage.queue .High) with
    | some =>
      rw [high] at chosen
      refine iff_of_false (not_serves_other traced head (by simp) chosen) ?_
      simp [old]
    | none =>
      rw [high] at chosen
      cases normal : A.front (s.stage.queue .Normal) with
      | some =>
        rw [normal] at chosen
        refine iff_of_false (not_serves_other traced head (by simp) chosen) ?_
        simp [old]
      | none =>
        rw [normal] at chosen
        exact iff_of_true (serves_low traced head unclaimed chosen) (.inr ⟨rfl, rfl⟩)

end

end

theorem low_part {r : Request} (part : r.part = .Low) : r.cls = .Low := by
  cases cls : r.cls <;> rw [Request.part, cls] at part <;> cases part

/-- Exactly when an overdue Low head is served: its wait is in the range the signed
32-bit difference can tell, or nothing else is ready. -/
theorem low_head_served (k : QueueBackend) (cfg : Config) {ops : List Op}
    {s : Session (k.impl StagingSlot)} {outs : List Response} {v : StagingSlot} {nowNs : Nat}
    (ran : responses (perform (k.alone _) cfg) (.initial _ cfg) ops = .ok (s, outs))
    (head : (k.alone _).front (s.stage.queue .Low) = some v)
    (budget : s.stage.batchUsed < cfg.kBatchSizeMax) :
    ∃ r, (requests ops)[v.sub]? = some r ∧ r.slot cfg v.sub = v ∧ r.cls = .Low ∧
      (r.nowNs + cfg.kLowMaxWaitMs * 10 ^ 6 ≤ nowNs →
        (Serves (k.alone _) cfg s nowNs v ↔
          (cfg.kLowMaxWaitMs * 10 ^ 6 ≤ (nowNs - r.nowNs) % 2 ^ 32 ∧
            (nowNs - r.nowNs) % 2 ^ 32 < 2 ^ 31) ∨
          ((k.alone _).front (s.stage.queue .High) = none ∧
            (k.alone _).front (s.stage.queue .Normal) = none))) := by
  have traced : Traced (k.orderly _) cfg ops s := traced_run ran
  obtain ⟨r, asked, built, part⟩ := traced.built .Low v ((k.orderly _).front_holds head)
  refine ⟨r, asked, built, low_part part, ?_⟩
  intro waited
  rw [serves_iff traced head (low_unclaimed (low_part part) built) budget,
    aged_slot (by omega) built]

/-- An overdue Low head behind High traffic. -/
def lowBehindHigh : List Op :=
  [.enqueue ⟨⟨1⟩, 7, .Low, 0, false, .Ordinary⟩, .enqueue ⟨⟨1⟩, 8, .High, 100000000, false, .Ordinary⟩]

def lowSlot : StagingSlot := ⟨⟨1⟩, .None, 7, 0, 0⟩

def highSlot : StagingSlot := ⟨⟨1⟩, .None, 8, 100000000, 1⟩

/-- The session after a sequence of calls. -/
def Session.after (A : B.Alone) (cfg : Config) (ops : List Op) : Session B :=
  match responses (perform A cfg) (.initial B cfg) ops with
  | .ok (s, _) => s
  | .error _ => .initial B cfg

theorem Session.after_ran (A : B.Alone) (cfg : Config) (ops : List Op)
    (ran : (responses (perform A cfg) (.initial B cfg) ops).toOption.isSome) :
    ∃ outs, responses (perform A cfg) (.initial B cfg) ops =
      .ok (after A cfg ops, outs) := by
  rw [after]
  split
  · rename_i s outs done
    exact ⟨outs, done⟩
  · rename_i failed
    rw [failed] at ran
    cases ran

theorem low_head_served_overdue :
    ∃ s : Session (QueueBackend.impl .BoundedMpscQueue StagingSlot),
      (QueueBackend.alone .BoundedMpscQueue _).front (s.stage.queue .Low) = some lowSlot ∧
      s.stage.batchUsed < DefaultConfig.kBatchSizeMax ∧
      ∃ r, (requests lowBehindHigh)[lowSlot.sub]? = some r ∧
        r.slot DefaultConfig lowSlot.sub = lowSlot ∧ r.cls = .Low ∧
        (r.nowNs + DefaultConfig.kLowMaxWaitMs * 10 ^ 6 ≤ 2 ^ 31 →
          (Serves (QueueBackend.alone .BoundedMpscQueue _) DefaultConfig s (2 ^ 31) lowSlot ↔
            (DefaultConfig.kLowMaxWaitMs * 10 ^ 6 ≤ (2 ^ 31 - r.nowNs) % 2 ^ 32 ∧
              (2 ^ 31 - r.nowNs) % 2 ^ 32 < 2 ^ 31) ∨
            ((QueueBackend.alone .BoundedMpscQueue _).front (s.stage.queue .High) = none ∧
              (QueueBackend.alone .BoundedMpscQueue _).front (s.stage.queue .Normal) = none))) := by
  obtain ⟨outs, ran⟩ := after_ran (QueueBackend.alone .BoundedMpscQueue _)
    DefaultConfig lowBehindHigh (by decide +kernel)
  exact ⟨_, by decide +kernel, by decide +kernel,
    low_head_served .BoundedMpscQueue DefaultConfig ran (by decide +kernel) (by decide +kernel)⟩

/-- Served when it has waited for exactly the limit, passed over when it has waited
for 2^31 nanoseconds. -/
def PassedOver (k : QueueBackend) : Prop :=
  ∃ s outs, responses (perform (k.alone _) DefaultConfig) (.initial _ DefaultConfig)
      lowBehindHigh = .ok (s, outs) ∧
    (k.alone _).front (s.stage.queue .Low) = some lowSlot ∧
    s.stage.batchUsed < DefaultConfig.kBatchSizeMax ∧
    Serves (k.alone _) DefaultConfig s 100000000 lowSlot ∧
    ¬ Serves (k.alone _) DefaultConfig s (2 ^ 31) lowSlot ∧
    Serves (k.alone _) DefaultConfig s (2 ^ 31) highSlot

theorem overdue_low_passed_over :
    PassedOver .SingleCoreCriticalRing ∧ PassedOver .BoundedMpscQueue := by
  constructor
  · obtain ⟨outs, ran⟩ := after_ran (QueueBackend.alone .SingleCoreCriticalRing _)
      DefaultConfig lowBehindHigh (by decide +kernel)
    exact ⟨_, outs, ran, by decide +kernel, by decide +kernel, by decide +kernel,
      by decide +kernel, by decide +kernel⟩
  · obtain ⟨outs, ran⟩ := after_ran (QueueBackend.alone .BoundedMpscQueue _)
      DefaultConfig lowBehindHigh (by decide +kernel)
    exact ⟨_, outs, ran, by decide +kernel, by decide +kernel, by decide +kernel,
      by decide +kernel, by decide +kernel⟩

end Coact.Staging
