import Coact.Foundation.Tally
import Coact.Foundation.Transition
import Coact.Staging

/-! The admission word on its own: any number of submissions that acquire a lease
with a compare-exchange loop and give it back once, and any number of threads that
close admission, one access of the word per step. -/
namespace Coact.Staging
open Foundation

/-- The life of one `SubmissionLease`: its constructor's `acquire_submission`, and the
destructor's `release_submission` if a lease was obtained. -/
inductive Lease where
  | load
  | cas (observed : Nat)
  | rejected
  | held
  | ended (last : Bool)
  deriving DecidableEq, Repr

def Lease.outstanding : Lease → Nat
  | .held => 1
  | _ => 0

/-- What the calls have returned, in the order of their accesses. -/
inductive LeaseEvent where
  | acquired (i : Nat)
  | released (i : Nat) (last : Bool)
  | closed
  deriving DecidableEq, Repr

def LeaseEvent.isAcquired : LeaseEvent → Bool
  | .acquired _ => true
  | _ => false

def LeaseEvent.isReleased : LeaseEvent → Bool
  | .released _ _ => true
  | _ => false

def LeaseEvent.isLast : LeaseEvent → Bool
  | .released _ last => last
  | _ => false

/-- Leases acquired and not yet released. -/
def outstanding (log : List LeaseEvent) : Nat :=
  log.countP LeaseEvent.isAcquired - log.countP LeaseEvent.isReleased

/-- `log` is a ghost. -/
structure Gatehouse where
  word : Nat
  leases : List Lease
  log : List LeaseEvent

namespace Gatehouse

inductive Label where
  | enter
  | acquire (i : Nat) (spurious : Bool)
  | release (i : Nat)
  | close

def initial : Gatehouse := ⟨0, [], []⟩

/-- One access of `acquire_submission`. -/
def acquireStep (g : Gatehouse) (i : Nat) (spurious : Bool) : Lease → Option Gatehouse
  | .load => some { g with leases := g.leases.set i (.cas g.word) }
  | .cas observed =>
    if acquireRefused observed then some { g with leases := g.leases.set i .rejected }
    else if g.word = observed ∧ spurious = false then
      some ⟨acquired observed, g.leases.set i .held, g.log ++ [.acquired i]⟩
    else some { g with leases := g.leases.set i (.cas g.word) }
  | _ => none

def step : Label → Gatehouse → Except Unit Gatehouse
  | .enter, g => .ok { g with leases := g.leases ++ [.load] }
  | .acquire i spurious, g =>
    match g.leases[i]?.bind (g.acquireStep i spurious) with
    | some g' => .ok g'
    | none => .error ()
  | .release i, g =>
    if g.leases[i]? = some .held then
      .ok ⟨releaseSubmission g.word, g.leases.set i (.ended (lastAfterClose g.word)),
        g.log ++ [.released i (lastAfterClose g.word)]⟩
    else .error ()
  | .close, g => .ok { g with word := closeAdmission g.word, log := g.log ++ [.closed] }

def Reachable (g : Gatehouse) : Prop := Reaches step Always initial g

/-- The number of leases that are held. -/
def count (g : Gatehouse) : Nat := tally Lease.outstanding g.leases

def shut (g : Gatehouse) : Bool := .closed ∈ g.log

variable {g : Gatehouse}

/-- Admission was closed while a lease was outstanding. -/
def Awaited (log : List LeaseEvent) : Prop :=
  ∃ before, before ++ [.closed] <+: log ∧ 0 < outstanding before

/-- What every access of the admission word preserves. -/
structure Kept (g : Gatehouse) : Prop where
  word : g.word = packed g.shut g.count
  small : g.count < 2 ^ 31
  balance : g.log.countP LeaseEvent.isAcquired = g.count + g.log.countP LeaseEvent.isReleased
  acquired : ∀ before i, before ++ [.acquired i] <+: g.log → .closed ∉ before
  released : ∀ before i last, before ++ [.released i last] <+: g.log →
    (last = true ↔ .closed ∈ before ∧ outstanding before = 1)
  awaited : .closed ∈ g.log → 0 < g.count → Awaited g.log
  done : Awaited g.log → g.count = 0 → g.log.countP LeaseEvent.isLast = 1
  early : ¬ (Awaited g.log ∧ g.count = 0) → g.log.countP LeaseEvent.isLast = 0

variable {log : List LeaseEvent}

theorem Awaited.later (awaited : Awaited log) (e : LeaseEvent) : Awaited (log ++ [e]) := by
  obtain ⟨before, part, held⟩ := awaited
  exact ⟨before, part.trans (List.prefix_append log [e]), held⟩

theorem awaited_snoc (awaited : Awaited (log ++ [e])) :
    Awaited log ∨ e = .closed ∧ 0 < outstanding log := by
  obtain ⟨before, part, held⟩ := awaited
  rcases snoc_prefix part with ⟨rfl, rfl⟩ | shorter
  · exact .inr ⟨rfl, held⟩
  · exact .inl ⟨before, shorter, held⟩

theorem Awaited.closed (awaited : Awaited log) : .closed ∈ log := by
  obtain ⟨before, part, -⟩ := awaited
  exact part.subset (List.mem_append_right before (List.mem_singleton_self _))

namespace Kept

theorem outstanding_eq (kept : Kept g) : outstanding g.log = g.count := by
  have balance := kept.balance
  rw [outstanding]
  omega

variable {leases : List Lease}

theorem silent (kept : Kept g) (same : tally Lease.outstanding leases = g.count) :
    Kept { g with leases := leases } := by
  have count : count { g with leases := leases } = g.count := same
  refine { kept with word := ?_, small := ?_, balance := ?_, awaited := ?_, done := ?_, early := ?_ }
    <;> rw [count]
  exacts [kept.word, kept.small, kept.balance, kept.awaited, kept.done, kept.early]

theorem acquire (kept : Kept g) (allowed : acquireRefused g.word = false)
    (more : tally Lease.outstanding leases = g.count + 1) :
    Kept ⟨Staging.acquired g.word, leases, g.log ++ [.acquired i]⟩ := by
  have small := kept.small
  rw [kept.word, acquireRefused_packed small, Bool.or_eq_false_iff] at allowed
  have below : g.count ≠ kAdmissionCountMask := of_decide_eq_false allowed.2
  have room : g.count + 1 < 2 ^ 31 := by
    simp only [kAdmissionCountMask] at below
    omega
  have unshut : .closed ∉ g.log := of_decide_eq_false allowed.1
  have unshut' : .closed ∉ g.log ++ [.acquired i] := by simp [unshut]
  constructor
  case word =>
    have shut : Gatehouse.shut ⟨Staging.acquired g.word, leases, g.log ++ [.acquired i]⟩ = g.shut :=
      (decide_eq_false unshut').trans (decide_eq_false unshut).symm
    rw [shut]
    change Staging.acquired g.word = packed g.shut (tally Lease.outstanding leases)
    rw [kept.word, acquired_packed room, more]
  case small =>
    change tally Lease.outstanding leases < 2 ^ 31
    rw [more]
    exact room
  case balance =>
    change List.countP _ (g.log ++ [.acquired i]) = tally Lease.outstanding leases + _
    rw [more, List.countP_append, List.countP_append, kept.balance]
    simp [LeaseEvent.isAcquired, LeaseEvent.isReleased]
    omega
  case acquired =>
    intro before j part mem
    exact unshut' (part.subset (List.mem_append_left _ mem))
  case released =>
    intro before j last part
    rcases snoc_prefix part with ⟨-, other⟩ | shorter
    · cases other
    · exact kept.released before j last shorter
  case awaited => exact fun closed => (unshut' closed).elim
  case done => exact fun awaited => (unshut' awaited.closed).elim
  case early =>
    intro _
    rw [List.countP_append, kept.early fun both => unshut both.1.closed]
    rfl

theorem release (kept : Kept g) (less : tally Lease.outstanding leases + 1 = g.count) :
    Kept ⟨releaseSubmission g.word, leases, g.log ++ [.released i (lastAfterClose g.word)]⟩ := by
  have small := kept.small
  have last : lastAfterClose g.word = true ↔ .closed ∈ g.log ∧ outstanding g.log = 1 := by
    rw [kept.word, lastAfterClose_packed small, kept.outstanding_eq, Bool.and_eq_true,
      decide_eq_true_eq]
    exact and_congr_left fun _ => decide_eq_true_iff
  have awaited_same : Awaited (g.log ++ [.released i (lastAfterClose g.word)]) ↔ Awaited g.log := by
    constructor
    · intro awaited
      rcases awaited_snoc awaited with before | ⟨other, -⟩
      · exact before
      · cases other
    · exact fun awaited => awaited.later _
  have earlier : g.log.countP LeaseEvent.isLast = 0 :=
    kept.early fun both => by omega
  constructor
  case word =>
    have shut : Gatehouse.shut ⟨releaseSubmission g.word, leases,
        g.log ++ [.released i (lastAfterClose g.word)]⟩ = g.shut := by
      simp [Gatehouse.shut]
    rw [shut]
    change releaseSubmission g.word = packed g.shut (tally Lease.outstanding leases)
    rw [kept.word, releaseSubmission_packed small (by omega), ← less, Nat.add_sub_cancel]
  case small =>
    change tally Lease.outstanding leases < 2 ^ 31
    omega
  case balance =>
    change List.countP _ (g.log ++ [.released i (lastAfterClose g.word)]) =
      tally Lease.outstanding leases + _
    rw [List.countP_append, List.countP_append, kept.balance, ← less]
    simp [LeaseEvent.isAcquired, LeaseEvent.isReleased]
    omega
  case acquired =>
    intro before j part
    rcases snoc_prefix part with ⟨-, other⟩ | shorter
    · cases other
    · exact kept.acquired before j shorter
  case released =>
    intro before j flag part
    rcases snoc_prefix part with ⟨rfl, same⟩ | shorter
    · cases same
      exact last
    · exact kept.released before j flag shorter
  case awaited =>
    intro closed _
    have there : .closed ∈ g.log := by simpa using closed
    exact awaited_same.mpr (kept.awaited there (by omega))
  case done =>
    intro awaited none
    have empty : tally Lease.outstanding leases = 0 := none
    have one : lastAfterClose g.word = true :=
      last.mpr ⟨(awaited_same.mp awaited).closed, by rw [kept.outstanding_eq]; omega⟩
    rw [List.countP_append, earlier, one]
    rfl
  case early =>
    intro pending
    have more : lastAfterClose g.word = false := by
      rw [Bool.eq_false_iff]
      intro ended
      obtain ⟨closed, one⟩ := last.mp ended
      rw [kept.outstanding_eq] at one
      refine pending ⟨awaited_same.mpr (kept.awaited closed (by omega)), ?_⟩
      change tally Lease.outstanding leases = 0
      omega
    rw [List.countP_append, earlier, more]
    rfl

theorem close (kept : Kept g) : Kept ⟨closeAdmission g.word, g.leases, g.log ++ [.closed]⟩ := by
  have same : Gatehouse.count ⟨closeAdmission g.word, g.leases, g.log ++ [.closed]⟩ = g.count := rfl
  have lasts : (g.log ++ [LeaseEvent.closed]).countP LeaseEvent.isLast = g.log.countP LeaseEvent.isLast := by
    rw [List.countP_append]
    rfl
  constructor
  case word =>
    have shut : Gatehouse.shut ⟨closeAdmission g.word, g.leases, g.log ++ [.closed]⟩ = true := by
      simp [Gatehouse.shut]
    rw [shut, same]
    rw [kept.word, closeAdmission_packed kept.small]
  case small => exact kept.small
  case balance =>
    rw [same, List.countP_append, List.countP_append]
    exact kept.balance
  case acquired =>
    intro before j part
    rcases snoc_prefix part with ⟨-, other⟩ | shorter
    · cases other
    · exact kept.acquired before j shorter
  case released =>
    intro before j last part
    rcases snoc_prefix part with ⟨-, other⟩ | shorter
    · cases other
    · exact kept.released before j last shorter
  case awaited =>
    intro _ held
    exact ⟨g.log, List.prefix_rfl, by rw [kept.outstanding_eq]; exact held⟩
  case done =>
    intro awaited none
    rw [lasts]
    rcases awaited_snoc awaited with before | ⟨-, held⟩
    · exact kept.done before none
    · rw [kept.outstanding_eq] at held
      omega
  case early =>
    intro pending
    rw [lasts]
    exact kept.early fun both => pending ⟨both.1.later _, both.2⟩

theorem acquireStep (kept : Kept g) (found : g.leases[i]? = some lease)
    (ran : g.acquireStep i spurious lease = some g') : Kept g' := by
  have idle {after : Lease} (same : after.outstanding = lease.outstanding) :
      Kept { g with leases := g.leases.set i after } := by
    have exchanged := tally_set (w := Lease.outstanding) found after
    rw [same] at exchanged
    exact kept.silent (Nat.add_right_cancel exchanged)
  unfold Gatehouse.acquireStep at ran
  (repeat' split at ran) <;> cases ran
  · exact idle rfl
  · exact idle rfl
  · rename_i allowed current
    obtain ⟨rfl, -⟩ := current
    refine kept.acquire (Bool.eq_false_iff.mpr allowed) ?_
    exact tally_set (w := Lease.outstanding) found .held
  · exact idle rfl

theorem step (kept : Kept g) (ran : Gatehouse.step label g = .ok g') : Kept g' := by
  cases label with
  | enter =>
    cases ran
    exact kept.silent (tally_append ..)
  | acquire =>
    simp only [Gatehouse.step] at ran
    split at ran <;> cases ran
    obtain ⟨lease, found, moved⟩ := Option.bind_eq_some_iff.mp ‹_›
    exact kept.acquireStep found moved
  | release =>
    simp only [Gatehouse.step] at ran
    split at ran <;> cases ran
    exact kept.release (tally_set (w := Lease.outstanding) ‹_› _)
  | close =>
    cases ran
    exact kept.close

end Kept

theorem kept_initial : Kept initial where
  word := rfl
  small := by decide
  balance := rfl
  acquired := by
    intro before i part
    simp [initial] at part
  released := by
    intro before i last part
    simp [initial] at part
  awaited := fun never => by cases never
  done := fun awaited => by cases awaited.closed
  early := fun _ => rfl

theorem Reachable.kept (run : Reachable g) : Kept g :=
  run.invariant kept_initial fun _ _ _ kept _ ran => kept.step ran

/-- The submission lease protocol over a whole run. -/
structure Protocol (g : Gatehouse) : Prop where
  /-- The low 31 bits count the outstanding leases, and no borrow or carry reaches the
  closed bit. -/
  word : leaseCount g.word = g.count ∧ g.count < 2 ^ 31 ∧ (closed g.word = true ↔ .closed ∈ g.log)
  outstanding : g.count = Staging.outstanding g.log
  refused : ∀ before i, before ++ [.acquired i] <+: g.log → .closed ∉ before
  once : g.log.countP LeaseEvent.isLast ≤ 1
  last : ∀ before i flag, before ++ [.released i flag] <+: g.log →
    (flag = true ↔ .closed ∈ before ∧ Staging.outstanding before = 1)
  signalled : ∀ before, before ++ [.closed] <+: g.log → 0 < Staging.outstanding before →
    g.count = 0 → g.log.countP LeaseEvent.isLast = 1

theorem lease_protocol (run : Reachable g) : Protocol g := by
  have kept := run.kept
  constructor
  case word =>
    rw [kept.word, leaseCount_packed kept.small, closed_packed kept.small]
    exact ⟨rfl, kept.small, decide_eq_true_iff⟩
  case outstanding => exact kept.outstanding_eq.symm
  case refused => exact kept.acquired
  case once =>
    by_cases settled : Awaited g.log ∧ g.count = 0
    · rw [kept.done settled.1 settled.2]
    · rw [kept.early settled]
      exact Nat.zero_le 1
  case last => exact kept.released
  case signalled => exact fun before part held => kept.done ⟨before, part, held⟩

/-- Two submissions hold leases when admission closes; a third comes too late. -/
def closedOnTwo : List Label :=
  [.enter, .enter, .acquire 0 false, .acquire 1 false, .acquire 0 false, .acquire 1 true,
    .acquire 1 false, .enter, .acquire 2 false, .close, .acquire 2 false, .acquire 2 false,
    .release 1, .release 0]

theorem lease_protocol_two :
    (outcome step closedOnTwo initial).log = [.acquired 0, .acquired 1, .closed,
        .released 1 false, .released 0 true] ∧
      Protocol (outcome step closedOnTwo initial) :=
  ⟨by decide +kernel, lease_protocol (reaches_outcome (by decide +kernel))⟩

end Gatehouse

end Coact.Staging
