import Mathlib.Data.List.FinRange
import Mathlib.Data.Nat.Bitwise
import Coact.Foundation.Transition

/-! `StackfulExecutor`, its coroutines and `CoroSem` (`coro/posix.hpp`). The bodies are
arbitrary: what a body does next is chosen by the run, except inside `CoroSem::take`,
which is a program of its own. This is what happens under `state_mutex_`: a pass of
`run_once` holds it from its first step to its last, across the bodies it runs, so the
other functions run between passes. The mutex itself is in `Executor/Locking`. The failures
of the context functions are not modelled. -/
namespace Coact.Executor
open Function

structure ResumeArg where
  taskSucceeded : Bool
  taskId : UInt16
  deriving DecidableEq, Repr

/-- `ResumeArg{}` -/
def ResumeArg.zero : ResumeArg := ⟨false, 0⟩

inductive WaitReason where
  | kNone | kSleep | kWaitTask | kDone
  deriving DecidableEq, Repr

/-- `waiter` is the semaphore whose sequence a sleeper waits on, if it is not the global one. -/
structure YieldRequest (σ : Type) where
  reason : WaitReason
  paramNs : Nat
  paramTask : UInt16
  seqSnapshot : Nat
  waiter : Option σ

structure Coroutine where
  pendingArg : ResumeArg
  armed : Bool
  running : Bool
  started : Bool

inductive SlotState where
  | kFree | kRun | kSleep | kWaitTask
  deriving DecidableEq, Repr

structure Slot (σ : Type) where
  co : Coroutine
  state : SlotState
  deadlineNs : Nat
  pendingArg : ResumeArg
  parkSeq : Nat
  waiter : Option σ

def Slot.empty {σ : Type} : Slot σ :=
  ⟨⟨.zero, false, false, false⟩, .kFree, 0, .zero, 0, none⟩

namespace Coroutine

def arm (_ : Coroutine) (arg : ResumeArg) : Coroutine := ⟨arg, true, false, false⟩

/-- The coroutine as its body is entered; `none` if it is not, which counts as done. -/
def start (co : Coroutine) (arg : ResumeArg) : Option Coroutine :=
  if !co.armed || co.running then none
  else some { co with running := true, started := true, pendingArg := arg }

def resume (co : Coroutine) (arg : ResumeArg) : Option Coroutine :=
  if !co.armed || !co.running then none else some { co with pendingArg := arg }

def enter (co : Coroutine) (arg : ResumeArg) : Option Coroutine :=
  if co.started then co.resume arg else co.start arg

end Coroutine

/-- The slot stays occupied. -/
def WaitReason.lives : WaitReason → Bool
  | .kSleep | .kWaitTask => true
  | .kNone | .kDone => false

/-- How a body gives control back. -/
inductive Leave (σ : Type) where
  | yield (request : YieldRequest σ)
  | finish

/-- The reason that the executor gets; a return counts as done. -/
def Leave.reason {σ : Type} : Leave σ → WaitReason
  | .yield request => request.reason
  | .finish => .kDone

def Leave.returned {σ : Type} : Leave σ → Bool
  | .yield _ => false
  | .finish => true

/-- `running_` is cleared by a return and by a yield that is done. -/
def Coroutine.left {σ : Type} (co : Coroutine) (leave : Leave σ) : Coroutine :=
  if leave.reason = .kDone then { co with running := false } else co

namespace Slot
variable {σ : Type}

/-- The switch of `run_once`. -/
def settle (slot : Slot σ) : Leave σ → Slot σ
  | .finish => { slot with pendingArg := .zero, state := .kFree }
  | .yield y =>
    match y.reason with
    | .kDone | .kNone => { slot with pendingArg := .zero, state := .kFree }
    | .kSleep => { slot with
        pendingArg := .zero
        state := .kSleep
        deadlineNs := y.paramNs
        parkSeq := y.seqSnapshot
        waiter := y.waiter }
    | .kWaitTask => { slot with pendingArg := .zero, state := .kWaitTask }

/-- A sleeper that is made runnable. -/
def rouse (slot : Slot σ) : Slot σ := { slot with state := .kRun, pendingArg := .zero }

/-- Whether a pass that started at `now` wakes the sleeper. -/
def wakes (slot : Slot σ) (now notifySeq : Nat) (sequence : σ → Nat) : Bool :=
  if now < slot.deadlineNs then
    !(decide (slot.parkSeq = 0) || decide (slot.parkSeq = slot.waiter.elim notifySeq sequence))
  else true

end Slot

structure CoroSem where
  permits : Nat
  seq : Nat
  binary : Bool

def CoroSem.create (initialPermits : Nat) (binary : Bool) : CoroSem := ⟨initialPermits, 1, binary⟩

/-- The compare-and-swap of `release`. -/
def CoroSem.publish (sem : CoroSem) : CoroSem :=
  { sem with permits := if sem.binary then 1 else (sem.permits + 1) % 2 ^ 32 }

def CoroSem.bump (sem : CoroSem) : CoroSem := { sem with seq := (sem.seq + 1) % 2 ^ 32 }

/-- `try_consume` by its last access: the one that sees no permit, or the successful
compare-and-swap. -/
def CoroSem.tryConsume (sem : CoroSem) : Option CoroSem :=
  if sem.permits = 0 then none else some { sem with permits := sem.permits - 1 }

def kWaitForever : Nat := 0xFFFFFFFF

def takeDeadline (timeoutUs now : Nat) : Nat :=
  if timeoutUs = kWaitForever then 0xFFFFFFFFFFFFFFFF else (now + timeoutUs * 1000) % 2 ^ 64

/-- Where `take` is: at one of its three checks, at the snapshot, at the yield, or at the
comparison with the deadline. -/
inductive TakePc where
  | first | snapshot | second | park | third | timeout
  deriving DecidableEq, Repr

/-- A call of `take`. For the proofs it keeps how often the sequence had been bumped at the
snapshot, and how many releases had published their permit at the last failed check. -/
structure Take (σ : Type) where
  sem : σ
  deadline : Nat
  pc : TakePc
  seq : Nat
  bumpsAt : Nat
  checkedAt : Nat
  deriving DecidableEq, Repr

inductive ReleasePc where
  | bump | notify | returned
  deriving DecidableEq, Repr

/-- A call of `release` that has published its permit. -/
structure Releaser (σ : Type) where
  sem : σ
  pc : ReleasePc
  deriving DecidableEq, Repr

/-- What `run_once` is at: the next slot, or the body of the slot. -/
inductive Stage where
  | scan | body
  deriving DecidableEq, Repr

structure Pass where
  now : Nat
  notifySeq : Nat
  index : Nat
  live : Nat
  stage : Stage
  deriving DecidableEq, Repr

inductive Event (n : Nat) where
  | armed (i : Fin n) (arg : ResumeArg)
  | woken (i : Fin n) (arg : ResumeArg)
  | entered (i : Fin n) (seen : ResumeArg)
  | left (i : Fin n) (returned : Bool) (reason : WaitReason)
  deriving DecidableEq, Repr

/-- `takes` is the call of `take` that the body of a slot is in, if it is. `bumps` and `log`
are kept for the proofs. -/
structure Machine (n : Nat) (σ : Type) where
  slots : Fin n → Slot σ
  notifySeq : Nat
  sems : σ → CoroSem
  pass : Option Pass
  takes : Fin n → Option (Take σ)
  releasers : List (Releaser σ)
  bumps : σ → Nat
  log : List (Event n)

/-- The functions that run between passes. -/
inductive Call (n : Nat) where
  | arm (initialArg : ResumeArg)
  | wake (i : Fin n) (arg : ResumeArg)
  | liveCount
  deriving DecidableEq, Repr

inductive Label (n : Nat) (σ : Type) where
  | call (call : Call n)
  | begin (now : Nat)
  | visit
  | finish
  | leave (how : Leave σ)
  | take (sem : σ) (timeoutUs now : Nat)
  | takeStep (now : Nat)
  | publish (sem : σ)
  | bump (k : Nat)
  | notify (k : Nat)

inductive Stuck where
  | mutex | disabled

variable {n : Nat} {σ : Type}

namespace Machine

def initial (n : Nat) (permits : σ → Nat) (binary : σ → Bool) : Machine n σ where
  slots _ := .empty
  notifySeq := 1
  sems sem := .create (permits sem) (binary sem)
  pass := none
  takes _ := none
  releasers := []
  bumps _ := 0
  log := []

def firstFree (m : Machine n σ) : Option (Fin n) :=
  (List.finRange n).find? fun i => (m.slots i).state = .kFree

def armSlot (m : Machine n σ) (i : Fin n) (arg : ResumeArg) : Machine n σ :=
  { m with
    slots := update m.slots i
      { m.slots i with co := (m.slots i).co.arm arg, state := .kRun, deadlineNs := 0 }
    takes := update m.takes i none
    log := m.log ++ [.armed i arg] }

def arm (m : Machine n σ) (arg : ResumeArg) : Machine n σ :=
  match m.firstFree with
  | none => m
  | some i => m.armSlot i arg

def wakeSlot (m : Machine n σ) (i : Fin n) (arg : ResumeArg) : Machine n σ :=
  { m with
    slots := update m.slots i { m.slots i with state := .kRun, pendingArg := arg }
    log := m.log ++ [.woken i arg] }

def wake (m : Machine n σ) (i : Fin n) (arg : ResumeArg) : Machine n σ :=
  if (m.slots i).state = .kWaitTask then m.wakeSlot i arg else m

def execute (m : Machine n σ) : Call n → Machine n σ
  | .arm arg => m.arm arg
  | .wake i arg => m.wake i arg
  | .liveCount => m

/-- `run_once` goes on to the next slot. -/
def advance (m : Machine n σ) (pass : Pass) (live : Bool) : Machine n σ :=
  { m with pass := some { pass with
      index := pass.index + 1, live := pass.live + live.toNat, stage := .scan } }

/-- A slot that is runnable: its body is entered. -/
def enter (m : Machine n σ) (pass : Pass) (i : Fin n) (slot : Slot σ) : Machine n σ :=
  match slot.co.enter slot.pendingArg with
  | some co => { m with
      slots := update m.slots i { slot with co := co }
      pass := some { pass with stage := .body }
      log := m.log ++ [.entered i co.pendingArg] }
  | none =>
    { m with slots := update m.slots i (slot.settle .finish) }.advance pass false

def visit (m : Machine n σ) (pass : Pass) (i : Fin n) : Machine n σ :=
  match (m.slots i).state with
  | .kFree => m.advance pass false
  | .kWaitTask => m.advance pass true
  | .kRun => m.enter pass i (m.slots i)
  | .kSleep =>
    if (m.slots i).wakes pass.now pass.notifySeq fun sem => (m.sems sem).seq then
      m.enter pass i (m.slots i).rouse
    else m.advance pass true

/-- The body of slot `i` gives control back. -/
def leave (m : Machine n σ) (pass : Pass) (i : Fin n) (how : Leave σ) : Machine n σ :=
  { m with
    slots := update m.slots i
      ({ m.slots i with co := (m.slots i).co.left how }.settle how)
    log := m.log ++ [Event.left i how.returned how.reason] }.advance pass how.reason.lives

def setTake (m : Machine n σ) (i : Fin n) (take : Option (Take σ)) : Machine n σ :=
  { m with takes := update m.takes i take }

def setSem [DecidableEq σ] (m : Machine n σ) (sem : σ) (value : CoroSem) : Machine n σ :=
  { m with sems := update m.sems sem value }

/-- A check for a permit in `take`, which goes on at `next` if there is none. -/
def check [DecidableEq σ] (m : Machine n σ) (i : Fin n) (take : Take σ) (next : TakePc) :
    Machine n σ :=
  match (m.sems take.sem).tryConsume with
  | some sem => (m.setSem take.sem sem).setTake i none
  | none => m.setTake i (some { take with pc := next, checkedAt := m.releasers.length })

/-- One step of `take` in the body of slot `i`. -/
def takeStep [DecidableEq σ] (m : Machine n σ) (pass : Pass) (i : Fin n) (take : Take σ)
    (now : Nat) : Machine n σ :=
  match take.pc with
  | .first => m.check i take .snapshot
  | .snapshot => m.setTake i (some { take with
      pc := .second, seq := (m.sems take.sem).seq, bumpsAt := m.bumps take.sem })
  | .second => m.check i take .park
  | .park => (m.setTake i (some { take with pc := .third })).leave pass i
      (.yield ⟨.kSleep, take.deadline, 0, take.seq, some take.sem⟩)
  | .third => m.check i take .timeout
  | .timeout =>
    if take.deadline ≤ now then m.setTake i none
    else m.setTake i (some { take with pc := .first })

/-- The pass, if it is at this stage of a slot, and the slot. -/
def slotAt (m : Machine n σ) (stage : Stage) : Option (Pass × Fin n) :=
  m.pass.bind fun pass =>
    if below : pass.index < n then
      if pass.stage = stage then some (pass, ⟨pass.index, below⟩) else none
    else none

def step [DecidableEq σ] : Label n σ → Machine n σ → Except Stuck (Machine n σ)
  | .call call, m => if m.pass.isNone then .ok (m.execute call) else .error .mutex
  | .begin now, m =>
    if m.pass.isNone then .ok { m with pass := some ⟨now, m.notifySeq, 0, 0, .scan⟩ }
    else .error .disabled
  | .visit, m =>
    match m.slotAt .scan with
    | some (pass, i) => .ok (m.visit pass i)
    | none => .error .disabled
  | .finish, m =>
    match m.pass with
    | some pass =>
      if n ≤ pass.index ∧ pass.stage = .scan then .ok { m with pass := none }
      else .error .disabled
    | none => .error .disabled
  | .leave how, m =>
    match m.slotAt .body with
    | some (pass, i) =>
      if (m.takes i).isNone then .ok (m.leave pass i how) else .error .disabled
    | none => .error .disabled
  | .take sem timeoutUs now, m =>
    match m.slotAt .body with
    | some (_, i) =>
      if (m.takes i).isNone then
        .ok (m.setTake i (some ⟨sem, takeDeadline timeoutUs now, .first, 0, 0, 0⟩))
      else .error .disabled
    | none => .error .disabled
  | .takeStep now, m =>
    match m.slotAt .body with
    | some (pass, i) =>
      match m.takes i with
      | some take => .ok (m.takeStep pass i take now)
      | none => .error .disabled
    | none => .error .disabled
  | .publish sem, m => .ok { m.setSem sem (m.sems sem).publish with
      releasers := m.releasers ++ [⟨sem, .bump⟩] }
  | .bump k, m =>
    match m.releasers[k]? with
    | some ⟨sem, .bump⟩ => .ok { m.setSem sem (m.sems sem).bump with
        releasers := m.releasers.set k ⟨sem, .notify⟩
        bumps := update m.bumps sem (m.bumps sem + 1) }
    | _ => .error .disabled
  | .notify k, m =>
    match m.releasers[k]? with
    | some ⟨sem, .notify⟩ => .ok { m with
        notifySeq := (m.notifySeq + 1) % 2 ^ 32
        releasers := m.releasers.set k ⟨sem, .returned⟩ }
    | _ => .error .disabled

end Machine

/-- The steps there are. -/
inductive Moves [DecidableEq σ] (m : Machine n σ) : Label n σ → Machine n σ → Prop where
  | call {call : Call n} : m.pass = none → Moves m (.call call) (m.execute call)
  | began {now : Nat} : m.pass = none →
      Moves m (.begin now) { m with pass := some ⟨now, m.notifySeq, 0, 0, .scan⟩ }
  | visited {pass : Pass} {i : Fin n} : m.slotAt .scan = some (pass, i) →
      Moves m .visit (m.visit pass i)
  | finished {pass : Pass} : m.pass = some pass → n ≤ pass.index → pass.stage = .scan →
      Moves m .finish { m with pass := none }
  | left {pass : Pass} {i : Fin n} {how : Leave σ} : m.slotAt .body = some (pass, i) →
      m.takes i = none → Moves m (.leave how) (m.leave pass i how)
  | taking {pass : Pass} {i : Fin n} {sem : σ} {timeoutUs now : Nat} :
      m.slotAt .body = some (pass, i) → Moves m (.take sem timeoutUs now)
        (m.setTake i (some ⟨sem, takeDeadline timeoutUs now, .first, 0, 0, 0⟩))
  | took {pass : Pass} {i : Fin n} {take : Take σ} {now : Nat} :
      m.slotAt .body = some (pass, i) → m.takes i = some take →
      Moves m (.takeStep now) (m.takeStep pass i take now)
  | published {sem : σ} : Moves m (.publish sem) { m.setSem sem (m.sems sem).publish with
      releasers := m.releasers ++ [⟨sem, .bump⟩] }
  | bumped {k : Nat} {sem : σ} : m.releasers[k]? = some ⟨sem, .bump⟩ →
      Moves m (.bump k) { m.setSem sem (m.sems sem).bump with
        releasers := m.releasers.set k ⟨sem, .notify⟩
        bumps := update m.bumps sem (m.bumps sem + 1) }
  | notified {k : Nat} {sem : σ} : m.releasers[k]? = some ⟨sem, .notify⟩ →
      Moves m (.notify k) { m with
        notifySeq := (m.notifySeq + 1) % 2 ^ 32
        releasers := m.releasers.set k ⟨sem, .returned⟩ }

/-- What a step does to the slots, the pass and the history; semaphores and the calls of
`take` are left open. -/
inductive Effect (m : Machine n σ) : Label n σ → Machine n σ → Prop where
  | idle {label : Label n σ} {m' : Machine n σ} : m'.slots = m.slots → m'.pass = m.pass →
      m'.log = m.log → Effect m label m'
  | armed {arg : ResumeArg} {i : Fin n} : m.pass = none → (m.slots i).state = .kFree →
      Effect m (.call (.arm arg)) (m.armSlot i arg)
  | woken {arg : ResumeArg} {i : Fin n} : m.pass = none → (m.slots i).state = .kWaitTask →
      Effect m (.call (.wake i arg)) (m.wakeSlot i arg)
  | began {now : Nat} : m.pass = none →
      Effect m (.begin now) { m with pass := some ⟨now, m.notifySeq, 0, 0, .scan⟩ }
  | skipped {pass : Pass} {i : Fin n} {live : Bool} : m.slotAt .scan = some (pass, i) →
      (m.slots i).state ≠ .kRun → Effect m .visit (m.advance pass live)
  | entered {pass : Pass} {i : Fin n} {slot : Slot σ} {co : Coroutine} :
      m.slotAt .scan = some (pass, i) →
      ((m.slots i).state = .kRun ∧ slot = m.slots i ∨
        (m.slots i).state = .kSleep ∧ slot = (m.slots i).rouse) →
      slot.co.enter slot.pendingArg = some co →
      Effect m .visit { m with
        slots := update m.slots i { slot with co := co }
        pass := some { pass with stage := .body }
        log := m.log ++ [.entered i co.pendingArg] }
  | refused {pass : Pass} {i : Fin n} {slot : Slot σ} : m.slotAt .scan = some (pass, i) →
      ((m.slots i).state = .kRun ∧ slot = m.slots i ∨
        (m.slots i).state = .kSleep ∧ slot = (m.slots i).rouse) →
      slot.co.enter slot.pendingArg = none →
      Effect m .visit
        ({ m with slots := update m.slots i (slot.settle .finish) }.advance pass false)
  | finished {pass : Pass} : m.pass = some pass → n ≤ pass.index → pass.stage = .scan →
      Effect m .finish { m with pass := none }
  | left {label : Label n σ} {pass : Pass} {i : Fin n} {how : Leave σ} {m' : Machine n σ} :
      m.slotAt .body = some (pass, i) → m'.slots = (m.leave pass i how).slots →
      m'.pass = (m.leave pass i how).pass → m'.log = (m.leave pass i how).log →
      Effect m label m'

namespace Machine
variable {m m' : Machine n σ} {pass : Pass} {i : Fin n} {label : Label n σ}

theorem slotAt_eq_some {stage : Stage} : m.slotAt stage = some (pass, i) ↔
    m.pass = some pass ∧ pass.index = i ∧ pass.stage = stage := by
  unfold slotAt
  cases m.pass with
  | none => simp
  | some p =>
    simp only [Option.bind_some, Option.some.injEq]
    split
    · split
      · rename_i below there
        simp only [Option.some.injEq, Prod.mk.injEq, Fin.ext_iff]
        constructor
        · rintro ⟨rfl, same⟩
          exact ⟨rfl, same, there⟩
        · rintro ⟨rfl, same, -⟩
          exact ⟨rfl, same⟩
      · rename_i below elsewhere
        simp only [reduceCtorEq, false_iff]
        rintro ⟨rfl, -, there⟩
        exact elsewhere there
    · rename_i beyond
      simp only [reduceCtorEq, false_iff]
      rintro ⟨rfl, same, -⟩
      exact beyond (same ▸ i.isLt)

theorem visit_effect (visited : m.slotAt .scan = some (pass, i)) :
    Effect m .visit (m.visit pass i) := by
  have entering : ∀ {slot : Slot σ}, ((m.slots i).state = .kRun ∧ slot = m.slots i ∨
      (m.slots i).state = .kSleep ∧ slot = (m.slots i).rouse) →
      Effect m .visit (m.enter pass i slot) := by
    intro slot from_
    unfold enter
    cases entered : slot.co.enter slot.pendingArg with
    | some => exact .entered visited from_ entered
    | none => exact .refused visited from_ entered
  unfold visit
  cases place : (m.slots i).state with
  | kFree | kWaitTask => exact .skipped visited (by simp [place])
  | kRun => exact entering (.inl ⟨place, rfl⟩)
  | kSleep =>
    dsimp only
    split
    · exact entering (.inr ⟨place, rfl⟩)
    · exact .skipped visited (by simp [place])

theorem call_effect {call : Call n} (free : m.pass = none) :
    Effect m (.call call) (m.execute call) := by
  cases call with
  | arm arg =>
    rw [execute, arm]
    cases first : m.firstFree with
    | none => exact .idle rfl rfl rfl
    | some i =>
      have test := List.find?_some first
      exact .armed free (of_decide_eq_true test)
  | wake i arg =>
    rw [execute, wake]
    split
    · rename_i waiting
      exact .woken free waiting
    · exact .idle rfl rfl rfl
  | liveCount => exact .idle rfl rfl rfl

variable [DecidableEq σ]

theorem check_idle {take : Take σ} {next : TakePc} {now : Nat} :
    Effect m (.takeStep now) (m.check i take next) := by
  unfold check
  split <;> exact .idle rfl rfl rfl

theorem takeStep_effect {take : Take σ} {now : Nat} (running : m.slotAt .body = some (pass, i)) :
    Effect m (.takeStep now) (m.takeStep pass i take now) := by
  unfold takeStep
  cases take.pc with
  | first | second | third => exact check_idle
  | snapshot => exact .idle rfl rfl rfl
  | park => exact .left running rfl rfl rfl
  | timeout =>
    dsimp only
    split <;> exact .idle rfl rfl rfl

theorem step_moves (ran : step label m = .ok m') : Moves m label m' := by
  cases label <;> simp only [step] at ran <;> (repeat' split at ran) <;> cases ran
  · exact .call (Option.isNone_iff_eq_none.mp ‹_›)
  · exact .began (Option.isNone_iff_eq_none.mp ‹_›)
  · exact .visited ‹_›
  · rename_i running last
    exact .finished running last.1 last.2
  · exact .left ‹_› (Option.isNone_iff_eq_none.mp ‹_›)
  · exact .taking ‹_›
  · exact .took ‹_› ‹_›
  · exact .published
  · exact .bumped ‹_›
  · exact .notified ‹_›

theorem step_effect (ran : step label m = .ok m') : Effect m label m' := by
  cases step_moves ran with
  | call free => exact call_effect free
  | began free => exact .began free
  | visited visited => exact visit_effect visited
  | finished running last scan => exact .finished running last scan
  | left running => exact .left running rfl rfl rfl
  | took running => exact takeStep_effect running
  | _ => exact .idle rfl rfl rfl

end Machine

end Coact.Executor
