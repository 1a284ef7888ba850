import Coact.Foundation.Refinement
import Coact.Queue.Kinds
import Coact.Queue.Sequential
import Coact.Staging.System

/-! `enqueue`, `begin_batch` and `dequeue_one` as functions: what each call does when
nothing interferes. A call of the concurrent system that runs alone computes
exactly these functions, so a sequence of calls is one of its runs. -/
namespace Coact.Staging
open Foundation Dispatch Function Relation
variable {B : Backend StagingSlot} (A : B.Alone) (cfg : Config)

namespace Stage

def tryClaim (s : Stage B) (c : ReservationClaim) : Option (Stage B) :=
  if c = .None then some s
  else if s.claims c < claimLimit cfg c then some (s.setClaims c (s.claims c + 1))
  else none

def releaseClaim (s : Stage B) (c : ReservationClaim) : Except Assertion (Stage B) :=
  if c = .None then .ok s else (releaseClaimCounter (s.claims c)).map (s.setClaims c)

/-- `try_push`, and the release of the claim if it fails. -/
def pushInto (s : Stage B) (r : Request) (i : Nat) : Except Assertion (Stage B × Bool) :=
  match A.tryPush (s.queue r.part) (r.slot cfg i) with
  | (q, true) => .ok (s.setQueue r.part q, true)
  | (q, false) => ((s.setQueue r.part q).releaseClaim (r.claim cfg)).map (·, false)

def enqueue (s : Stage B) (r : Request) (i : Nat) : Except Assertion (Stage B × Bool) :=
  if r.valid cfg then
    match s.tryClaim cfg (r.claim cfg) with
    | none => .ok (s, false)
    | some s' => s'.pushInto A cfg r i
  else .ok (s, false)

def beginBatch (s : Stage B) : Stage B := { s with batchUsed := 0 }

def ready (s : Stage B) (p : Partition) : Bool := A.hasReady (s.queue p)

def anyReady (s : Stage B) : Bool := s.ready A .High || s.ready A .Normal || s.ready A .Low

def agingExpired (s : Stage B) : Bool :=
  match s.nowNs, A.front (s.queue .Low) with
  | some now, some v => aged cfg now v.enqueueNs
  | _, _ => false

/-- The partition `dequeue_one` decides to serve. -/
def selected (s : Stage B) : Option Partition :=
  select (s.ready A .High) (s.ready A .Normal) (s.ready A .Low) (s.agingExpired A cfg) s.batchUsed
    cfg.kBatchSizeMax

/-- `try_pop` of the chosen partition, and the release of the claim. -/
def popFrom (s : Stage B) (p : Partition) : Except Assertion (Stage B × Option StagingSlot) :=
  match A.tryPop (s.queue p) with
  | (q, none) => .ok (s.setQueue p q, none)
  | (q, some v) => ((s.setQueue p q).releaseClaim v.claim).map fun s => (s.draw, some v)

def dequeueOne (s : Stage B) (nowNs : Nat) : Except Assertion (Stage B × Option StagingSlot) :=
  let s := { s with nowNs := some nowNs }
  if s.anyReady A then
    match s.selected A cfg with
    | some p => s.popFrom A p
    | none => .ok (s, none)
  else .ok (s, none)

theorem setQueue_setQueue (s : Stage B) (p : Partition) (q q' : B.Q) :
    (s.setQueue p q).setQueue p q' = s.setQueue p q' := by
  simp only [setQueue, update_idem]

variable {cfg}

theorem tryClaim_same {s claimed : Stage B} (taken : s.tryClaim cfg c = some claimed) :
    claimed.queue = s.queue ∧ claimed.batchUsed = s.batchUsed := by
  rw [tryClaim] at taken
  split at taken
  · cases taken
    exact ⟨rfl, rfl⟩
  · split at taken <;> cases taken
    exact ⟨rfl, rfl⟩

theorem releaseClaim_queue {s released : Stage B}
    (done : s.releaseClaim c = .ok released) : released.queue = s.queue := by
  rw [releaseClaim] at done
  split at done
  · cases done
    rfl
  · obtain ⟨count, -, rfl⟩ := map_ok done
    rfl

end Stage

inductive Op where
  | enqueue (r : Request)
  | beginBatch
  | dequeueOne (nowNs : Nat)

inductive Response where
  | queued (accepted : Bool)
  | opened
  | dequeued (out : Option StagingSlot)
  deriving DecidableEq, Repr

/-- A `Staging` used by one caller; `calls` numbers the calls of `enqueue`. -/
structure Session (B : Backend StagingSlot) where
  stage : Stage B
  calls : Nat

namespace Session

def initial (B : Backend StagingSlot) (cfg : Config) : Session B := ⟨Stage.initial B cfg, 0⟩

def perform (s : Session B) : Op → Except Assertion (Session B × Response)
  | .enqueue r =>
    (s.stage.enqueue A cfg r s.calls).map fun (stage, accepted) =>
      (⟨stage, s.calls + 1⟩, .queued accepted)
  | .beginBatch => .ok ({ s with stage := s.stage.beginBatch }, .opened)
  | .dequeueOne nowNs =>
    (s.stage.dequeueOne A cfg nowNs).map fun (stage, out) =>
      ({ s with stage := stage }, .dequeued out)

end Session

def Response.accepted : Response → Option Bool
  | .queued accepted => some accepted
  | _ => none

def Response.slot : Response → Option StagingSlot
  | .dequeued out => out
  | _ => none

variable {A cfg}

/-- An access of call `i` of `enqueue`. -/
def Calls (cfg : Config) (i : Nat) (a b : Stage B × Call B) : Prop :=
  ∃ r pc, a.2 = .running r pc ∧ pc.step cfg r i false a.1 = .ok b

/-- An access of `dequeue_one`. -/
def Draws (cfg : Config) (a b : Stage B × Outcome B) : Prop :=
  ∃ pc, a.2 = .inl pc ∧ pc.step cfg a.1 = .ok b

section
variable {s : Stage B} {r : Request} {i : Nat}

theorem push_calls {out : B.Q × Bool} (ends : Finishes (B.pushStep (r.slot cfg i)) q x out)
    (s : Stage B) (queue : s.queue r.part = q) :
    ReflTransGen (Calls cfg i) (s, .running r (.push x)) (s.setQueue r.part out.1,
      if out.2 then .returned r true
      else if r.claim cfg = .None then .returned r false else .running r .releaseClaim) := by
  induction ends generalizing s with
  | @last _ _ out ended =>
    refine .single ⟨r, _, rfl, ?_⟩
    simp only [Enqueue.step, queue, ended]
    cases out.2 <;> rfl
  | @next _ _ q₁ _ _ moved _ ih =>
    subst queue
    have rest := ih (s.setQueue r.part q₁) (update_self ..)
    rw [Stage.setQueue_setQueue] at rest
    exact .head ⟨r, _, rfl, by simp only [Enqueue.step, moved]⟩ rest

theorem pushInto_calls {out : Stage B × Bool} (done : s.pushInto A cfg r i = .ok out) :
    ReflTransGen (Calls cfg i) (s, .running r (.push B.tryPush)) (out.1, .returned r out.2) := by
  have run := push_calls (A.push_alone (s.queue r.part) (r.slot cfg i)) s rfl
  rw [Stage.pushInto] at done
  split at done
  · rename_i q pushed
    rw [pushed] at run
    cases done
    exact run
  · rename_i q pushed
    rw [pushed] at run
    obtain ⟨s', released, rfl⟩ := map_ok done
    rw [Stage.releaseClaim] at released
    split at released
    · rename_i unclaimed
      cases released
      simpa only [Bool.false_eq_true, if_false, if_pos unclaimed] using run
    · rename_i claimed
      simp only [Bool.false_eq_true, if_false, if_neg claimed] at run
      obtain ⟨count, checked, rfl⟩ := map_ok released
      exact run.tail ⟨r, _, rfl, by simp only [Enqueue.step, checked, asserted]⟩

theorem enqueue_calls {out : Stage B × Bool} (done : s.enqueue A cfg r i = .ok out) :
    ReflTransGen (Calls cfg i) (s, Call.enter B cfg r) (out.1, .returned r out.2) := by
  rw [Stage.enqueue] at done
  rw [Call.enter]
  split at done
  · rename_i valid
    rw [if_pos valid]
    rw [Stage.tryClaim] at done
    by_cases unclaimed : r.claim cfg = .None
    · rw [if_pos unclaimed] at done ⊢
      exact pushInto_calls done
    · rw [if_neg unclaimed] at done ⊢
      -- The load of the counter, then the compare-exchange on the value read.
      refine .head ⟨r, _, rfl, rfl⟩ ?_
      by_cases below : s.claims (r.claim cfg) < claimLimit cfg (r.claim cfg)
      · rw [if_pos below] at done
        refine .head ⟨r, _, rfl, ?_⟩ (pushInto_calls done)
        simp [Enqueue.step, Request.limit, Nat.not_le_of_lt below]
      · rw [if_neg below] at done
        cases done
        refine .single ⟨r, _, rfl, ?_⟩
        simp [Enqueue.step, Request.limit, not_lt.mp below]
  · rename_i invalid
    cases done
    rw [if_neg invalid]

end

section
variable {s : Stage B}

theorem reads_draw {P R : Type} {read : B.Q → P → P ⊕ R} {x : P} {out : B.Q × R}
    (ends : Finishes (fun q x => (q, read q x)) q x out) (point : P → Dequeue B)
    (onward : ∀ x x', read q x = .inl x' → (point x).step cfg s = .ok (s, .inl (point x')))
    (returns : ∀ x, read q x = .inr out.2 → (point x).step cfg s = .ok (s, onto)) :
    ReflTransGen (Draws cfg) (s, .inl (point x)) (s, onto) := by
  induction ends with
  | last ended => exact .single ⟨_, rfl, returns _ (Prod.mk.inj ended).2⟩
  | next moved _ ih =>
    obtain ⟨rfl, further⟩ := Prod.mk.inj moved
    exact .head ⟨_, rfl, onward _ _ further⟩ (ih onward returns)

theorem ready_draws (A : B.Alone) (cfg : Config) (s : Stage B) (order : List Operand)
    (p : Partition) :
    ReflTransGen (Draws cfg) (s, .inl (.ready order p B.hasReady))
      (s, if s.ready A p then .inl (.select order {}) else
        match Dispatch.next p with
        | some p' => .inl (.ready order p' B.hasReady)
        | none => .inr none) := by
  refine reads_draw (A.ready_alone (s.queue p)) (.ready order p)
    (fun x x' further => by simp only [Dequeue.step, further]) fun x ended => ?_
  have seen : B.readyStep (s.queue p) x = .inr (s.ready A p) := ended
  cases ready : s.ready A p <;> rw [ready] at seen <;> simp only [Dequeue.step, seen]
  · cases Dispatch.next p <;> rfl
  · rfl

theorem anyReady_draws (A : B.Alone) (cfg : Config) (s : Stage B) (order : List Operand) :
    ReflTransGen (Draws cfg) (s, .inl (.ready order .High B.hasReady))
      (s, if s.anyReady A then .inl (.select order {}) else .inr none) := by
  have high := ready_draws A cfg s order .High
  have normal := ready_draws A cfg s order .Normal
  have low := ready_draws A cfg s order .Low
  rw [Stage.anyReady]
  cases seen : s.ready A .High <;> rw [seen] at high
  · refine high.trans ?_
    cases seen : s.ready A .Normal <;> rw [seen] at normal
    · exact normal.trans low
    · exact normal
  · exact high

/-- What one operand of `select` adds to those already read. -/
def operand (A : B.Alone) (cfg : Config) (s : Stage B) (ops : Operands) : Operand → Operands
  | .count p => ops.setCount p (s.ready A p)
  | .aging => { ops with aged := s.agingExpired A cfg }

theorem operand_settled (A : B.Alone) (cfg : Config) (s : Stage B) (ops : Operands)
    (o o' : Operand) (settled : operand A cfg s ops o = ops) :
    operand A cfg s (operand A cfg s ops o') o = operand A cfg s ops o' := by
  obtain ⟨high, normal, low, aged⟩ := ops
  cases o with
  | aging =>
    cases o' with
    | aging => rfl
    | count p' => cases p' <;> simp_all [operand, Operands.setCount]
  | count p =>
    cases o' with
    | aging => cases p <;> simp_all [operand, Operands.setCount]
    | count p' => cases p <;> cases p' <;> simp_all [operand, Operands.setCount]

theorem operand_self (A : B.Alone) (cfg : Config) (s : Stage B) (ops : Operands) (o : Operand) :
    operand A cfg s (operand A cfg s ops o) o = operand A cfg s ops o := by
  cases o with
  | aging => rfl
  | count p => cases p <;> rfl

/-- Once every operand has been read, in whatever order, all have their values. -/
theorem operands_read (A : B.Alone) (cfg : Config) (s : Stage B) (todo : List Operand)
    (ops : Operands) (settled : ∀ o, o ∈ todo ∨ operand A cfg s ops o = ops) :
    todo.foldl (operand A cfg s) ops =
      ⟨s.ready A .High, s.ready A .Normal, s.ready A .Low, s.agingExpired A cfg⟩ := by
  induction todo generalizing ops with
  | nil =>
    have read (o : Operand) : operand A cfg s ops o = ops := (settled o).resolve_left List.not_mem_nil
    rw [List.foldl_nil, ← read (.count .High), ← read (.count .Normal), ← read (.count .Low),
      ← read .aging]
    rfl
  | cons o todo ih =>
    refine ih (operand A cfg s ops o) fun o' => ?_
    rcases settled o' with listed | held
    · rcases List.mem_cons.1 listed with rfl | later
      · exact .inr (operand_self A cfg s ops o')
      · exact .inl later
    · exact .inr (operand_settled A cfg s ops o' o held)

theorem operand_draws (A : B.Alone) (s : Stage B) (o : Operand) (todo : List Operand)
    (ops : Operands) : ReflTransGen (Draws cfg) (s, .inl (.select (o :: todo) ops))
      (s, .inl (.select todo (operand A cfg s ops o))) := by
  cases o with
  | count p =>
    refine .head ⟨_, rfl, rfl⟩ (reads_draw (A.ready_alone (s.queue p)) (.count todo ops p) ?_ ?_)
    · intro x x' further
      simp only [Dequeue.step, further]
    · intro x ended
      simp only [Dequeue.step, ended]
      rfl
  | aging =>
    refine .head ⟨_, rfl, rfl⟩ (reads_draw (A.front_alone (s.queue .Low)) (.aging todo ops) ?_ ?_)
    · intro x x' further
      simp only [Dequeue.step, further]
    · intro x ended
      simp only [Dequeue.step, ended]
      rfl

theorem operands_draw (A : B.Alone) (cfg : Config) (s : Stage B) (todo : List Operand)
    (ops : Operands) : ReflTransGen (Draws cfg) (s, .inl (.select todo ops))
      (s, .inl (.select [] (todo.foldl (operand A cfg s) ops))) := by
  induction todo generalizing ops with
  | nil => exact .refl
  | cons o todo ih => exact (operand_draws A s o todo ops).trans (ih _)

theorem pop_draws {out : B.Q × Option StagingSlot} (cfg : Config)
    (ends : Finishes B.popStep q x out) (s : Stage B) (queue : s.queue p = q) :
    ReflTransGen (Draws cfg) (s, .inl (.pop p x))
      (s.setQueue p out.1, out.2.elim (.inr none) fun v => .inl (.releaseClaim v)) := by
  induction ends generalizing s with
  | @last _ _ out ended =>
    refine .single ⟨_, rfl, ?_⟩
    simp only [Dequeue.step, queue, ended]
    cases out.2 <;> rfl
  | @next _ _ q₁ _ _ moved _ ih =>
    subst queue
    have rest := ih (s.setQueue p q₁) (update_self ..)
    rw [Stage.setQueue_setQueue] at rest
    exact .head ⟨_, rfl, by simp only [Dequeue.step, moved]⟩ rest

variable {out : Stage B × Option StagingSlot}

theorem popFrom_draws (done : s.popFrom A p = .ok out) :
    ReflTransGen (Draws cfg) (s, .inl (.pop p B.tryPop)) (out.1, .inr out.2) := by
  have run := pop_draws cfg (A.pop_alone (s.queue p)) s rfl
  rw [Stage.popFrom] at done
  split at done
  · rename_i q popped
    rw [popped] at run
    cases done
    exact run
  · rename_i q v popped
    rw [popped] at run
    obtain ⟨s', released, rfl⟩ := map_ok done
    refine run.tail ⟨_, rfl, ?_⟩
    rw [Stage.releaseClaim] at released
    split at released
    · rename_i unclaimed
      cases released
      simp only [Dequeue.step, if_pos unclaimed]
    · rename_i claimed
      obtain ⟨count, checked, rfl⟩ := map_ok released
      simp only [Dequeue.step, if_neg claimed, checked, asserted]

/-- A call of `dequeue_one` that runs alone, for every order of evaluation. -/
theorem dequeueOne_draws (order : Order) (done : s.dequeueOne A cfg nowNs = .ok out) :
    ReflTransGen (Draws cfg)
      ({ s with nowNs := some nowNs }, .inl (.ready order.1 .High B.hasReady))
      (out.1, .inr out.2) := by
  simp only [Stage.dequeueOne] at done
  generalize { s with nowNs := some nowNs } = s at done ⊢
  refine (anyReady_draws A cfg s order.1).trans ?_
  by_cases ready : s.anyReady A
  · rw [if_pos ready] at done ⊢
    have read := operands_read A cfg s order.1 {} fun o => .inl (order.2 o)
    have operands := operands_draw A cfg s order.1 {}
    rw [read] at operands
    refine operands.trans ?_
    split at done
    · rename_i p chosen
      rw [Stage.selected] at chosen
      exact .head ⟨_, rfl, by simp only [Dequeue.step, chosen]⟩ (popFrom_draws done)
    · rename_i chosen
      rw [Stage.selected] at chosen
      cases done
      exact .single ⟨_, rfl, by simp only [Dequeue.step, chosen]⟩
  · rw [if_neg ready] at done ⊢
    cases done
    exact .refl

end

namespace World
variable {w : World B} {order : Order}

/-- No call is under way. -/
def Quiet (w : World B) : Prop := w.dequeue = none ∧ ∀ call ∈ w.calls, call.result ≠ none

/-- No calls overlap: a call begins when all others have returned. The selection of every
`dequeue_one` reads its operands in this order. -/
def Separate (order : Order) : Label → World B → Prop
  | .enqueue _, w | .beginBatch, w => w.Quiet
  | .dequeueOne _ read, w => read = order ∧ w.Quiet
  | .call _ _, _ | .consumer, _ => True

theorem called_reaches (w : World B) (run : ReflTransGen (Calls cfg w.calls.length) a b) :
    Reaches (step cfg) (Separate order) { w with stage := a.1, calls := w.calls ++ [a.2] }
      { w with stage := b.1, calls := w.calls ++ [b.2] } := by
  refine run.lift (fun a => { w with stage := a.1, calls := w.calls ++ [a.2] }) ?_
  rintro a b ⟨r, pc, running, stepped⟩
  refine ⟨.call w.calls.length false, trivial, ?_⟩
  simp [step, running, stepped, Except.map, called]

/-- The system after the accesses that lead to `a`. -/
def drawn (w : World B) (a : Stage B × Outcome B) : World B :=
  { w with stage := a.1, dequeue := a.2.getLeft?, served := w.served ++ returnedSlot a.2 }

theorem drawn_reaches (w : World B) (run : ReflTransGen (Draws cfg) a b) :
    Reaches (step cfg) (Separate order) (w.drawn a) (w.drawn b) := by
  refine run.lift w.drawn ?_
  rintro a b ⟨pc, running, stepped⟩
  refine ⟨.consumer, trivial, ?_⟩
  simp [step, drawn, running, stepped, Except.map, consumed, returnedSlot]

/-- The idle system that a session has left behind, with its answers. -/
structure Idle (outs : List Response) (s : Session B) (w : World B) : Prop where
  stage : w.stage = s.stage
  count : w.calls.length = s.calls
  quiet : w.Quiet
  results : w.calls.filterMap Call.result = outs.filterMap Response.accepted
  served : w.served = outs.filterMap Response.slot

theorem Idle.perform {op : Op} (idle : Idle outs s w) (order : Order)
    (done : s.perform A cfg op = .ok (s', response)) :
    ∃ w', Reaches (step cfg) (Separate order) w w' ∧ Idle (outs ++ [response]) s' w' := by
  obtain ⟨stage, count, quiet, results, served⟩ := idle
  have free := quiet.1
  cases op with
  | enqueue r =>
    obtain ⟨out, queued, same⟩ := map_ok done
    cases same
    rw [← stage, ← count] at queued
    refine ⟨_, .head ⟨.enqueue r, quiet, rfl⟩ (called_reaches w (enqueue_calls queued)), rfl,
      ?_, ⟨free, ?_⟩, ?_, ?_⟩
    · rw [List.length_append, count]
      rfl
    · exact List.forall_mem_append.mpr ⟨quiet.2, List.forall_mem_singleton.mpr nofun⟩
    · rw [List.filterMap_append, List.filterMap_append, results]
      rfl
    · simp [served, Response.slot]
  | beginBatch =>
    cases done
    refine ⟨{ w with stage := w.stage.beginBatch }, .single ⟨.beginBatch, quiet, ?_⟩, ?_, count,
      quiet, ?_, ?_⟩
    · simp only [step, free, Stage.beginBatch]
    · rw [stage]
    · simp [results, Response.accepted]
    · simp [served, Response.slot]
  | dequeueOne nowNs =>
    obtain ⟨out, ended, same⟩ := map_ok done
    cases same
    rw [← stage] at ended
    have begun : step cfg (.dequeueOne nowNs order) w = .ok (w.drawn
        ({ w.stage with nowNs := some nowNs }, .inl (.ready order.1 .High B.hasReady))) := by
      simp [step, free, drawn, returnedSlot]
    have separate : Separate order (.dequeueOne nowNs order) w := ⟨rfl, quiet⟩
    refine ⟨_, .head ⟨_, separate, begun⟩ (drawn_reaches w (dequeueOne_draws order ended)), rfl,
      count, ⟨rfl, quiet.2⟩, ?_, ?_⟩
    · simp [drawn, results, Response.accepted]
    · cases out.2 <;> simp [drawn, returnedSlot, served, Response.slot]

/-- A session is a run of the concurrent system in which no calls overlap, for every order in
which the selection reads its operands: the run ends with the session's `Staging`, its
results of `enqueue` and its slots served. -/
theorem session_reachable {ops : List Op} (order : Order)
    (ran : responses (Session.perform A cfg) (.initial B cfg) ops = .ok (s, outs)) :
    ∃ w, Reaches (step cfg) (Separate order) (initial B cfg) w ∧ Idle outs s w := by
  have kept := responses_invariant (P := fun past s => ∃ w,
    Reaches (step cfg) (Separate order) (initial B cfg) w ∧ Idle (past.map Prod.snd) s w) ?_ ?_ ran
  · rwa [List.map_snd_zip (responses_length ran).le] at kept
  · rintro past s t op response ⟨w, reached, idle⟩ done
    obtain ⟨w', ran, idle'⟩ := idle.perform order done
    refine ⟨w', reached.trans ran, ?_⟩
    rw [List.map_append]
    exact idle'
  · exact ⟨initial B cfg, .refl, rfl, rfl, ⟨rfl, fun _ none => nomatch none⟩, rfl, rfl⟩

/-- An event is queued in the Low partition and taken out again. -/
def queuedAndServed : List Op :=
  [.enqueue ⟨⟨1⟩, 7, .Low, 0, false, .Ordinary⟩, .dequeueOne 5]

theorem session_reachable_served :
    ∃ (s : Session (ringBackend StagingSlot)) (w : World (ringBackend StagingSlot)),
      Reaches (step DefaultConfig) (Separate inOrder) (initial _ DefaultConfig) w ∧
      Idle [.queued true, .dequeued (some ⟨⟨1⟩, .None, 7, 0, 0⟩)] s w := by
  have answered : (responses (Session.perform (ringAlone _) DefaultConfig)
      (.initial _ DefaultConfig) queuedAndServed).toOption.map Prod.snd =
        some [.queued true, .dequeued (some ⟨⟨1⟩, .None, 7, 0, 0⟩)] := by decide +kernel
  cases ran : responses (Session.perform (ringAlone _) DefaultConfig)
      (.initial _ DefaultConfig) queuedAndServed with
  | error reason => rw [ran] at answered; cases answered
  | ok final =>
    rw [ran] at answered
    obtain ⟨s, outs⟩ := final
    cases answered
    exact ⟨s, session_reachable inOrder ran⟩

end World

end Coact.Staging
