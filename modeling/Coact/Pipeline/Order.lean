import Coact.Pipeline.Shutdown

/-! The order in which an AO gets its events. Over a first-in, first-out backend
the events of one AO pass from their arrival through its partition and the one
deferred slot to their settlement, a handover or a drop, without overtaking. -/
namespace Coact
open Dispatch Foundation Shared Function

variable {d : Deployment} {B : Backend StagingSlot} {H : Type}

/-- The submission that arrives at `ao` by the act: by its enqueue, or, if direct
dispatches count as arrivals, by its direct handover. -/
def Act.arrival (direct : Bool) (ao : AoId) : Act → Option Nat
  | .published a i => if a = ao then some i else none
  | .handed .call a i => if direct ∧ a = ao then some i else none
  | _ => none

/-- The submission to `ao` that the act settles. -/
def Act.settlement (direct : Bool) (ao : AoId) : Act → Option Nat
  | .handed .dispatcher a i | .dropped a i => if a = ao then some i else none
  | .handed .call a i => if direct ∧ a = ao then some i else none
  | _ => none

/-- The submission whose slot the Dispatcher hands to the HSM of `ao`. -/
def Act.dispatch (ao : AoId) : Act → Option Nat
  | .handed .dispatcher a i => if a = ao then some i else none
  | _ => none

def Act.drop (ao : AoId) : Act → Option Nat
  | .dropped a i => if a = ao then some i else none
  | _ => none

def arrivals (direct : Bool) (ao : AoId) (log : List Act) : List Nat :=
  log.filterMap (Act.arrival direct ao)

def settlements (direct : Bool) (ao : AoId) (log : List Act) : List Nat :=
  log.filterMap (Act.settlement direct ao)

def dispatches (ao : AoId) (log : List Act) : List Nat := log.filterMap (Act.dispatch ao)

def drops (ao : AoId) (log : List Act) : List Nat := log.filterMap (Act.drop ao)

/-- The slot as an undelivered event of `ao`. -/
def StagingSlot.tag (d : Deployment) (ao : AoId) (v : StagingSlot) : List Nat :=
  if d.lookup v.target = some ao then [v.sub] else []

/-- The event of `ao` that the Dispatcher has dequeued and not dispatched. -/
def Custody.deferral (ao : AoId) : Custody d B → List Nat
  | .holding v => v.tag d ao
  | _ => []

/-- The events of `ao` in its partition, oldest first. -/
def Shared.waiting (F : B.Fifo) (d : Deployment) (sh : Shared B H) (ao : AoId) : List Nat :=
  (F.contents (sh.queue (d.partition ao))).flatMap (StagingSlot.tag d ao)

theorem BoundSlot.tag (b : BoundSlot d) (ao : AoId) :
    b.slot.tag d ao = if b.ao = ao then [b.slot.sub] else [] := by
  rw [StagingSlot.tag, b.bound]
  simp

section
variable {F : B.Fifo} {sh : Shared B H} {p : Partition} {q : B.Q} (ao : AoId)

theorem waiting_same (same : F.contents q = F.contents (sh.queue p)) :
    (sh.setQueue p q).waiting F d ao = sh.waiting F d ao := by
  rw [Shared.waiting, Shared.waiting, setQueue_queue, update_apply]
  split
  · rename_i here
    rw [same, here]
  · rfl

theorem waiting_push {b : BoundSlot d}
    (added : F.contents q = F.contents (sh.queue (d.partition b.ao)) ++ [b.slot]) :
    (sh.setQueue (d.partition b.ao) q).waiting F d ao =
      sh.waiting F d ao ++ if b.ao = ao then [b.slot.sub] else [] := by
  rw [Shared.waiting, Shared.waiting, setQueue_queue, update_apply]
  split
  · rename_i here
    rw [added, here, List.flatMap_append, List.flatMap_singleton, b.tag]
  · rename_i away
    rw [if_neg (fun same => away (by rw [same])), List.append_nil]

theorem waiting_pop (taken : F.contents (sh.queue p) = v :: F.contents q)
    (placed : ∃ a, d.lookup v.target = some a ∧ d.partition a = p) :
    sh.waiting F d ao = v.tag d ao ++ (sh.setQueue p q).waiting F d ao := by
  obtain ⟨a, bound, place⟩ := placed
  rw [Shared.waiting, Shared.waiting, setQueue_queue, update_apply]
  split
  · rename_i here
    rw [here, taken, List.flatMap_cons]
  · rename_i away
    have other : ¬ d.lookup v.target = some ao := by
      rw [bound, Option.some.injEq]
      rintro rfl
      exact away place
    rw [StagingSlot.tag, if_neg other, List.nil_append]

end

structure Pipe.InOrder (F : B.Fifo) (direct : Bool) (s : Pipe d B H) : Prop where
  placed : ∀ p, ∀ v ∈ F.contents (s.shared.queue p),
    ∃ ao, d.lookup v.target = some ao ∧ d.partition ao = p
  order : ∀ ao, arrivals direct ao s.shared.log = settlements direct ao s.shared.log ++
    (s.custody.deferral ao ++ s.shared.waiting F d ao)

section
variable {direct : Bool} {ao : AoId} {log : List Act}

theorem arrivals_append (act : Act) : arrivals direct ao (log ++ [act]) =
    arrivals direct ao log ++ (act.arrival direct ao).toList := by
  cases kind : act.arrival direct ao <;> simp [arrivals, kind]

theorem settlements_append (act : Act) : settlements direct ao (log ++ [act]) =
    settlements direct ao log ++ (act.settlement direct ao).toList := by
  cases kind : act.settlement direct ao <;> simp [settlements, kind]

theorem dispatches_append (act : Act) :
    dispatches ao (log ++ [act]) = dispatches ao log ++ (act.dispatch ao).toList := by
  cases kind : act.dispatch ao <;> simp [dispatches, kind]

theorem drops_append (act : Act) :
    drops ao (log ++ [act]) = drops ao log ++ (act.drop ao).toList := by
  cases kind : act.drop ao <;> simp [drops, kind]

theorem toList_ite {c : Prop} [Decidable c] :
    (if c then some i else none : Option Nat).toList = if c then [i] else [] := by
  split <;> rfl

end

section
variable {F : B.Fifo} {direct : Bool} {s t : Pipe d B H} {i : Nat} {ph ph' : Phase d B}
  {sh' : Shared B H}

/-- What an act adds to the arrivals and to the settlements, set against what it
does to the events on their way. -/
theorem Pipe.InOrder.acted (inv : s.InOrder F direct) (log : t.shared.log = s.shared.log ++ [act])
    (placed : ∀ p, ∀ v ∈ F.contents (t.shared.queue p),
      ∃ ao, d.lookup v.target = some ao ∧ d.partition ao = p)
    (passed : ∀ ao, s.custody.deferral ao ++ s.shared.waiting F d ao ++
      (act.arrival direct ao).toList = (act.settlement direct ao).toList ++
        (t.custody.deferral ao ++ t.shared.waiting F d ao)) : t.InOrder F direct := by
  refine ⟨placed, fun ao => ?_⟩
  rw [log, arrivals_append, settlements_append, inv.order ao, List.append_assoc, passed ao,
    List.append_assoc]

theorem Pipe.InOrder.aside (inv : s.InOrder F direct) (log : t.shared.log = s.shared.log)
    (custody : ∀ ao, t.custody.deferral ao = s.custody.deferral ao)
    (queue : t.shared.queue = s.shared.queue) : t.InOrder F direct := by
  refine ⟨queue ▸ inv.placed, fun ao => ?_⟩
  rw [custody, Shared.waiting, queue, log]
  exact inv.order ao

theorem Pipe.InOrder.remarked (inv : s.InOrder F direct) (act : Act)
    (log : t.shared.log = s.shared.log ++ [act])
    (idle : ∀ ao, act.arrival direct ao = none ∧ act.settlement direct ao = none)
    (custody : ∀ ao, t.custody.deferral ao = s.custody.deferral ao)
    (queue : t.shared.queue = s.shared.queue) : t.InOrder F direct := by
  refine inv.acted log (queue ▸ inv.placed) fun ao => ?_
  rw [(idle ao).1, (idle ao).2, custody, Shared.waiting, Shared.waiting, queue,
    Option.toList_none, List.append_nil, List.nil_append]

theorem Pipe.InOrder.kept_queue (inv : s.InOrder F direct)
    (same : F.contents q = F.contents (s.shared.queue p))
    (shared : t.shared = s.shared.setQueue p q)
    (custody : ∀ ao, t.custody.deferral ao = s.custody.deferral ao) : t.InOrder F direct := by
  refine ⟨fun p' v mem => ?_, fun ao => ?_⟩
  · rw [shared, setQueue_queue, update_apply] at mem
    split at mem
    · rename_i here
      subst here
      exact inv.placed p' v (same ▸ mem)
    · exact inv.placed p' v mem
  · rw [shared, waiting_same ao same, custody]
    exact inv.order ao

/-- A direct handover keeps the order if it counts for nothing or finds no event
of its AO undelivered. -/
theorem Moves.inOrder (inv : s.InOrder F direct) (move : Moves d i s.shared ph sh' ph')
    (clear : direct = true → ∀ ao, sh'.log = s.shared.log ++ [.handed .call ao i] →
      s.custody.deferral ao = [] ∧ s.shared.waiting F d ao = []) :
    Pipe.InOrder F direct { s with shared := sh', phases := s.phases.set i ph' } := by
  cases move with
  | take ao idle =>
    refine inv.acted rfl inv.placed fun a => ?_
    simp only [Act.arrival, Act.settlement, toList_ite]
    split
    · rename_i here
      obtain ⟨counts, rfl⟩ := here
      obtain ⟨none, empty⟩ := clear counts _ rfl
      rw [none, empty]
      exact (congrArg ([i] ++ ·) empty).symm
    · exact List.append_nil _
  | pushNext _ _ _ _ ran => exact inv.kept_queue (F.push_next ran) rfl fun _ => rfl
  | pushFail _ _ _ ran => exact inv.kept_queue (F.push_fail ran) rfl fun _ => rfl
  | publish b r q sub ran =>
    have added := F.push_done ran
    refine inv.acted rfl (fun p v mem => ?_) fun a => ?_
    · rw [record_queue, setQueue_queue, update_apply] at mem
      split at mem
      · rename_i here
        subst here
        rw [added, List.mem_append, List.mem_singleton] at mem
        rcases mem with earlier | rfl
        · exact inv.placed _ v earlier
        · exact ⟨b.ao, b.bound, rfl⟩
      · exact inv.placed p v mem
    · have pushed := waiting_push a added
      rw [sub] at pushed
      simp only [Act.arrival, Act.settlement, toList_ite, Option.toList_none, List.nil_append,
        List.append_assoc]
      exact congrArg (s.custody.deferral a ++ ·) pushed.symm
  | refuse | gc | gcDirect =>
    exact inv.remarked (.released .call i) rfl (fun _ => ⟨rfl, rfl⟩) (fun _ => rfl) rfl
  | read | work => exact inv.remarked (.read i) rfl (fun _ => ⟨rfl, rfl⟩) (fun _ => rfl) rfl
  | _ => exact inv.aside rfl (fun _ => rfl) rfl

theorem Serves.inOrder (inv : s.InOrder F direct)
    (move : Serves d s.shared s.custody s.mode sh' cu' m') :
    Pipe.InOrder F direct { s with shared := sh', custody := cu', mode := m' } := by
  obtain ⟨sh, phases, cu, m, stoppers⟩ := s
  have settled {b : BoundSlot d} {act : Act}
      (kind : ∀ ao, act.settlement direct ao = if b.ao = ao then some b.slot.sub else none)
      (idle : ∀ ao, act.arrival direct ao = none) (ao : AoId) (rest : List Nat) :
      b.slot.tag d ao ++ rest ++ (act.arrival direct ao).toList =
        (act.settlement direct ao).toList ++ ([] ++ rest) := by
    rw [b.tag, kind ao, idle ao, toList_ite]
    simp
  cases move with
  | popNext _ _ _ _ _ ran => exact inv.kept_queue (F.pop_next ran) rfl fun _ => rfl
  | popNone _ _ _ _ ran => exact inv.kept_queue (F.pop_none ran) rfl fun _ => rfl
  | popSome m p r q v ran =>
    have taken := F.pop_some ran
    refine inv.acted rfl (fun p' w mem => ?_) fun ao => ?_
    · rw [record_queue, setQueue_queue, update_apply] at mem
      split at mem
      · rename_i here
        subst here
        exact inv.placed p' w (taken ▸ List.mem_cons_of_mem v mem)
      · exact inv.placed p' w mem
    · have popped := waiting_pop ao taken (inv.placed p v (taken ▸ List.mem_cons_self))
      simp only [Act.arrival, Act.settlement, Option.toList_none, List.append_nil, List.nil_append]
      exact popped
  | take | discard =>
    exact inv.acted rfl inv.placed fun ao => settled (fun _ => rfl) (fun _ => rfl) ao _
  | work b =>
    exact inv.remarked (.read b.slot.sub) rfl (fun _ => ⟨rfl, rfl⟩) (fun _ => rfl) rfl
  | release v =>
    exact inv.remarked (.released .dispatcher v.sub) rfl (fun _ => ⟨rfl, rfl⟩) (fun _ => rfl) rfl
  | releaseUnbound v _ _ _ _ unbound =>
    refine inv.remarked (.released .dispatcher v.sub) rfl (fun _ => ⟨rfl, rfl⟩) (fun ao => ?_) rfl
    have no_tag : v.tag d ao = [] := by
      rw [StagingSlot.tag, unbound]
      rfl
    exact no_tag.symm
  | _ => exact inv.aside rfl (fun _ => rfl) rfl

theorem Pipe.InOrder.step (inv : s.InOrder F direct) (ran : Pipe.Step s t)
    (clear : direct = true → ∀ ao i, t.shared.log = s.shared.log ++ [.handed .call ao i] →
      s.custody.deferral ao = [] ∧ s.shared.waiting F d ao = []) : t.InOrder F direct := by
  cases ran with
  | submission i _ _ _ _ move =>
    exact move.inOrder inv fun counts ao handed => clear counts ao i handed
  | service _ _ _ move => exact move.inOrder inv
  | _ => exact inv.aside rfl (fun _ => rfl) rfl

theorem Pipe.inOrder_initial (F : B.Fifo) (direct : Bool) (hsm : AoId → H) :
    (Pipe.initial d B hsm).InOrder F direct where
  placed p v mem := by
    rw [show F.contents ((Pipe.initial d B hsm).shared.queue p) = [] from F.empty _ _] at mem
    cases mem
  order ao := by
    have empty : (Pipe.initial d B hsm).shared.waiting F d ao = [] := by
      rw [Shared.waiting, show F.contents ((Pipe.initial d B hsm).shared.queue (d.partition ao)) = []
        from F.empty _ _, List.flatMap_nil]
    rw [empty]
    rfl

end

end Coact
