import Coact.FreeRtos.Lifecycle

/-! What `start_dispatcher` reports. Its failure exits return the cached `last_error_`, which a
refusal by the initialisation guard does not set. -/
namespace Coact.FreeRtos
open Foundation Layer Function

variable {η : Type}

/-- `initialize` turns the start away without storing an error. -/
def Pc.refused (sh : Shared η) : Pc → Bool
  | .ensure .start .readStarted => sh.state = .kStarted
  | .ensure .start .readStopped => sh.state = .kStopped
  | .ensure .start .testAndSet => sh.guard.isSome
  | _ => false

/-- A start that `initialize` turns away finds an earlier error in `last_error_`. -/
def ErrorKnown : LayerLabel η → Layer η → Prop
  | .advance t _, s => (s.pc t).refused s.shared = true → s.shared.lastError ≠ .kOk
  | _, _ => True

instance (l : LayerLabel η) (s : Layer η) : Decidable (ErrorKnown l s) :=
  match l with
  | .advance t _ =>
    inferInstanceAs (Decidable ((s.pc t).refused s.shared = true → s.shared.lastError ≠ .kOk))
  | .register _ _ | .start _ | .join _ => inferInstanceAs (Decidable True)

/-- `initialize` turns no start away. -/
def Admitted : LayerLabel η → Layer η → Prop
  | .advance t _, s => (s.pc t).refused s.shared = false
  | _, _ => True

theorem errorKnown_of_admitted [DecidableEq η] {res : Resources} {s s' : Layer η}
    (run : Reaches (step res) Admitted s s') : Reaches (step res) ErrorKnown s s' := by
  refine Relation.ReflTransGen.mono ?_ _ _ run
  rintro s s' ⟨label, admitted, ran⟩
  refine ⟨label, ?_, ran⟩
  cases label with
  | advance t ok => exact fun refused => (Bool.false_ne_true (admitted.symm.trans refused)).elim
  | _ => trivial

/-- Where a task in `ensure_initialized` must find an error in `last_error_`, or is about to
store one. -/
def EnsurePc.Blames (g : Goal) (lastError : InitError) : EnsurePc → Prop
  | .setError e => e ≠ .kOk
  | .setInitFailed | .loadError | .loadLast => lastError ≠ .kOk
  | .clearGuard result => result ≠ .kOk → lastError ≠ .kOk
  | .returned result => g = .start → result ≠ .kOk → lastError ≠ .kOk
  | _ => True

def StartPc.Blames (lastError : InitError) : StartPc → Prop
  | .setError e => e ≠ .kOk
  | .setInitFailed | .loadLast => lastError ≠ .kOk
  | _ => True

def Pc.Blames (lastError : InitError) : Pc → Prop
  | .ensure g pc => pc.Blames g lastError
  | .start pc => pc.Blames lastError
  | _ => True

/-- A start returns `kOk` exactly if it created the dispatcher's task, and then in `kStarted`. -/
def Return.Truthful : Return η → Prop
  | .register _ _ => True
  | .start _ status created state => (status = .kOk ↔ created = true) ∧
      (created = true → state = .kStarted)

structure Layer.Truthful (s : Layer η) : Prop where
  failed : s.shared.state = .kInitFailed → s.shared.lastError ≠ .kOk
  blames : ∀ t, (s.pc t).Blames s.shared.lastError
  returns : ∀ r ∈ s.returns, r.Truthful

theorem Pc.Blames.mono {before after : InitError} {pc : Pc} (blames : pc.Blames before)
    (kept : before ≠ .kOk → after ≠ .kOk) : pc.Blames after := by
  cases pc with
  | ensure g pc =>
    cases pc with
    | setError => exact blames
    | setInitFailed | loadError | loadLast => exact kept blames
    | clearGuard => exact fun bad => kept (blames bad)
    | returned => exact fun start bad => kept (blames start bad)
    | _ => trivial
  | start pc =>
    cases pc with
    | setError => exact blames
    | setInitFailed | loadLast => exact kept blames
    | _ => trivial
  | idle | register _ _ | stop _ => trivial

/-- What one access of a task keeps: an error that is known, and the truth of the returns. -/
structure Honest (sh : Shared η) (done : Shared η × Pc × List (Return η)) : Prop where
  kept : sh.lastError ≠ .kOk → done.1.lastError ≠ .kOk
  failed : done.1.state = .kInitFailed → done.1.lastError ≠ .kOk
  blames : done.2.1.Blames done.1.lastError
  returns : ∀ r ∈ done.2.2, r.Truthful

section
variable {res : Resources} {sh : Shared η} {t : η} {ok : Bool} {returns : List (Return η)}

theorem Honest.quiet (failed : sh.state = .kInitFailed → sh.lastError ≠ .kOk)
    (state : sh'.state = sh.state) (lastError : sh'.lastError = sh.lastError)
    (blames : pc'.Blames sh.lastError) (truthful : ∀ r ∈ returns, r.Truthful) :
    Honest sh (sh', pc', returns) := by
  constructor
  · exact fun known => lastError ▸ known
  · exact fun there => lastError ▸ failed (state ▸ there)
  · exact lastError ▸ blames
  · exact truthful

theorem no_returns : ∀ r ∈ ([] : List (Return η)), r.Truthful := by
  intro r listed
  cases listed

section
variable (failed : sh.state = .kInitFailed → sh.lastError ≠ .kOk)
include failed

theorem ensure_honest {pc : EnsurePc} (blames : pc.Blames g sh.lastError)
    (known : (Pc.ensure g pc).refused sh = true → sh.lastError ≠ .kOk) :
    Honest sh ((ensure res sh t ok pc).1, .ensure g (ensure res sh t ok pc).2, []) := by
  cases pc with
  | isUninitialized | createWorkerJoin k started =>
    refine .quiet failed rfl rfl ?_ no_returns
    simp only [ensure]
    split <;> trivial
  | isInitFailed =>
    refine .quiet failed rfl rfl ?_ no_returns
    simp only [ensure]
    split
    · exact failed ‹_›
    · exact fun _ bad => absurd rfl bad
  | readReady =>
    refine .quiet failed rfl rfl ?_ no_returns
    simp only [ensure]
    split
    · exact fun _ bad => absurd rfl bad
    · trivial
  | readInitFailed =>
    refine .quiet failed rfl rfl ?_ no_returns
    simp only [ensure]
    split
    · exact failed ‹_›
    · trivial
  | readStarted | readStopped =>
    refine .quiet failed rfl rfl ?_ no_returns
    simp only [ensure]
    split
    · rintro rfl -
      exact known (decide_eq_true ‹_›)
    · trivial
  | testAndSet =>
    simp only [ensure]
    split
    · refine .quiet failed rfl rfl ?_ no_returns
      rintro rfl -
      exact known ‹_›
    · exact .quiet failed rfl rfl trivial no_returns
  | clampStack =>
    simp only [ensure]
    split
    · exact .quiet failed rfl rfl (by simp [Pc.Blames, EnsurePc.Blames]) no_returns
    · exact .quiet failed rfl rfl trivial no_returns
  | wipeSlots | createWorkerStart k => exact .quiet failed rfl rfl trivial no_returns
  | createWake =>
    refine .quiet failed rfl rfl ?_ no_returns
    cases ok <;> simp [ensure, Pc.Blames, EnsurePc.Blames]
  | createJoin =>
    simp only [ensure]
    split
    · refine .quiet failed rfl rfl ?_ no_returns
      split <;> trivial
    · exact .quiet failed rfl rfl (by simp [Pc.Blames, EnsurePc.Blames]) no_returns
  | createWorkerTask k =>
    refine .quiet failed rfl rfl ?_ no_returns
    simp only [ensure]
    split
    · split <;> trivial
    · trivial
  | rollback =>
    exact .quiet failed rfl rfl (by simp [ensure, Pc.Blames, EnsurePc.Blames]) no_returns
  | setError => exact ⟨fun _ => blames, fun _ => blames, blames, no_returns⟩
  | setInitFailed => exact ⟨id, fun _ => blames, blames, no_returns⟩
  | loadError => exact .quiet failed rfl rfl id no_returns
  | setReady =>
    refine ⟨id, ?_, fun bad => absurd rfl bad, no_returns⟩
    intro other
    cases other
  | clearGuard => exact .quiet failed rfl rfl (fun _ => blames) no_returns
  | loadLast => exact .quiet failed rfl rfl (fun _ => id) no_returns
  | returned => exact .quiet failed rfl rfl blames no_returns

theorem start_honest {pc : StartPc}
    (blames : pc.Blames sh.lastError) : Honest sh (start res sh t ok pc) := by
  have exits : ∀ status : InitError, status ≠ .kOk →
      ∀ r ∈ [Return.start t status false sh.state], r.Truthful := by
    intro status bad r listed
    cases List.mem_singleton.mp listed
    simp [Return.Truthful, bad]
  cases pc with
  | readStarted | readStopped =>
    simp only [start]
    split
    · exact .quiet failed rfl rfl trivial (exits _ (by decide))
    · exact .quiet failed rfl rfl trivial no_returns
  | scheduler =>
    simp only [start]
    split
    · exact .quiet failed rfl rfl trivial no_returns
    · exact .quiet failed rfl rfl (by simp [Pc.Blames, StartPc.Blames]) no_returns
  | stackWords =>
    simp only [start]
    split
    · exact .quiet failed rfl rfl (by simp [Pc.Blames, StartPc.Blames]) no_returns
    · exact .quiet failed rfl rfl trivial no_returns
  | createDispatcher =>
    refine .quiet failed rfl rfl ?_ no_returns
    cases ok <;> simp [Pc.Blames, StartPc.Blames]
  | setStarted =>
    refine ⟨id, ?_, trivial, ?_⟩
    · intro other
      cases other
    · intro r listed
      cases List.mem_singleton.mp listed
      simp [Return.Truthful]
  | setError => exact ⟨fun _ => blames, fun _ => blames, blames, no_returns⟩
  | setInitFailed => exact ⟨id, fun _ => blames, blames, no_returns⟩
  | loadLast => exact .quiet failed rfl rfl trivial (exits _ blames)

theorem proceed_honest {result : InitError}
    (blames : g = .start → result ≠ .kOk → sh.lastError ≠ .kOk) :
    Honest sh (sh, proceed t g result) := by
  cases g with
  | register prio =>
    cases result with
    | kOk => exact .quiet failed rfl rfl trivial no_returns
    | _ =>
      refine .quiet failed rfl rfl trivial ?_
      intro r listed
      cases List.mem_singleton.mp listed
      trivial
  | start =>
    cases result with
    | kOk => exact .quiet failed rfl rfl trivial no_returns
    | _ => exact .quiet failed rfl rfl (blames rfl (by decide)) no_returns

theorem register_honest [DecidableEq η] {pc : RegisterPc} {prio : Nat} :
    Honest sh (register sh t ok prio pc) := by
  have exits : ∀ accepted, ∀ r ∈ [Return.register t accepted], r.Truthful := by
    intro accepted r listed
    cases List.mem_singleton.mp listed
    trivial
  cases pc with
  | currentTask | claimSlot =>
    simp only [register]
    split
    · exact .quiet failed rfl rfl trivial no_returns
    · exact .quiet failed rfl rfl trivial (exits _)
  | storeContext i => exact .quiet failed rfl rfl trivial (exits _)

theorem stop_honest {pc : StopPc} : Honest sh (stop sh pc) := by
  cases pc with
  | readStarted =>
    refine .quiet failed rfl rfl ?_ no_returns
    split <;> trivial
  | take => exact .quiet failed rfl rfl trivial no_returns
  | setStopped =>
    refine ⟨id, ?_, trivial, no_returns⟩
    intro other
    cases other

end

theorem access_honest [DecidableEq η] (res : Resources) (t : η) (ok : Bool) {pc : Pc}
    (failed : sh.state = .kInitFailed → sh.lastError ≠ .kOk) (blames : pc.Blames sh.lastError)
    (known : pc.refused sh = true → sh.lastError ≠ .kOk) : Honest sh (access res sh t ok pc) := by
  cases pc with
  | idle => exact .quiet failed rfl rfl trivial no_returns
  | ensure _ pc =>
    cases pc with
    | returned => exact proceed_honest failed blames
    | _ => exact ensure_honest failed blames known
  | register => exact register_honest failed
  | start => exact start_honest failed blames
  | stop => exact stop_honest failed

end

namespace Layer.Truthful
variable {res : Resources} {s s' : Layer η}

theorem init : Truthful (init res stackBytes : Layer η) := by
  constructor
  · intro other
    cases other
  · intro t
    trivial
  · intro r listed
    cases listed

variable [DecidableEq η]

theorem call (truthful : s.Truthful) (t : η) {pc : Pc} (blames : pc.Blames s.shared.lastError) :
    Truthful { s with pc := update s.pc t pc } := by
  refine { truthful with blames := ?_ }
  intro u
  rcases eq_or_ne u t with rfl | other
  · simpa using blames
  · simpa only [update_of_ne other] using truthful.blames u

theorem next (truthful : s.Truthful) (known : ErrorKnown l s)
    (ran : step res l s = .ok s') : s'.Truthful := by
  cases l with
  | register t prio =>
    simp only [step] at ran
    split at ran
    · cases ran
    · split at ran <;> cases ran
      · refine { truthful with returns := ?_ }
        intro r listed
        rcases List.mem_append.mp listed with earlier | new
        · exact truthful.returns r earlier
        · cases List.mem_singleton.mp new
          trivial
      · exact truthful.call t trivial
  | start t | join t =>
    simp only [step] at ran
    split at ran <;> cases ran
    exact truthful.call t trivial
  | advance t ok =>
    simp only [step] at ran
    split at ran <;> cases ran
    obtain ⟨kept, failed, blames, returns⟩ :=
      access_honest res t ok truthful.failed (truthful.blames t) known
    constructor
    · exact failed
    · intro u
      rcases eq_or_ne u t with rfl | other
      · simpa using blames
      · simpa only [update_of_ne other] using (truthful.blames u).mono kept
    · intro r listed
      rcases List.mem_append.mp listed with earlier | new
      · exact truthful.returns r earlier
      · exact returns r new

end Layer.Truthful

end Coact.FreeRtos
