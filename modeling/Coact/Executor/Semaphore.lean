import Coact.Executor.Tale
import Coact.Foundation.Tally

/-! Wake-ups through `CoroSem`. A taker parks with the sequence of its semaphore, read before
its last check, and a pass wakes it if the sequence has changed. A release that publishes
its permit after that check bumps the sequence after the snapshot, so the taker is woken,
unless the 32 bits of the sequence hide it: the value 0 is taken for a sleep without a
condition, and 2 ^ 32 bumps bring the old value back. -/
namespace Coact.Executor
open Foundation Function

variable {n : Nat} {σ : Type}

/-- The snapshot has been taken, and no check has failed since the yield. -/
def TakePc.holdsSeq : TakePc → Bool
  | .second | .park | .third => true
  | .first | .snapshot | .timeout => false

/-- The last check was the one after the snapshot. -/
def TakePc.checked : TakePc → Bool
  | .park | .third => true
  | .first | .snapshot | .second | .timeout => false

/-- A call of `take` and the releases: those that published after its last check and have
bumped the sequence show in it. -/
structure Take.Sound (bumps : σ → Nat) (releasers : List (Releaser σ)) (t : Take σ) : Prop where
  seq : t.pc.holdsSeq = true → t.seq = (1 + t.bumpsAt) % 2 ^ 32 ∧ t.bumpsAt ≤ bumps t.sem
  since : t.pc.checked = true → ∀ k r, t.checkedAt ≤ k → releasers[k]? = some r →
    r.sem = t.sem → r.pc ≠ .bump → t.bumpsAt < bumps t.sem

/-- The slot sleeps as the call of `take` has asked. -/
structure Parked (slot : Slot σ) (t : Take σ) : Prop where
  parkSeq : slot.parkSeq = t.seq
  waiter : slot.waiter = some t.sem
  deadline : slot.deadlineNs = t.deadline

structure Watched (m : Machine n σ) : Prop where
  seq : ∀ sem, (m.sems sem).seq = (1 + m.bumps sem) % 2 ^ 32
  sound : ∀ i t, m.takes i = some t → t.Sound m.bumps m.releasers
  parked : ∀ i t, m.takes i = some t → t.pc = .third → (m.slots i).state = .kSleep →
    Parked (m.slots i) t

/-- Sequences only grow, and a release that is past its bump was so before or has just made
it. -/
structure Progress (bumps bumps' : σ → Nat) (releasers releasers' : List (Releaser σ)) : Prop where
  grows : ∀ sem, bumps sem ≤ bumps' sem
  past : ∀ (k : Nat) (r : Releaser σ), releasers'[k]? = some r → r.pc ≠ .bump →
    (∃ r' : Releaser σ, releasers[k]? = some r' ∧ r'.sem = r.sem ∧ r'.pc ≠ .bump) ∨
    bumps r.sem < bumps' r.sem

section
variable {bumps : σ → Nat} {releasers : List (Releaser σ)} {sem : σ}

theorem Progress.publish : Progress bumps bumps releasers (releasers ++ [⟨sem, .bump⟩]) where
  grows _ := le_rfl
  past k r found bumped := by
    rcases getElem?_of_append found with ⟨rfl, -⟩ | before
    · exact (bumped rfl).elim
    · exact .inl ⟨r, before, rfl, bumped⟩

theorem Progress.bump [DecidableEq σ] :
    Progress bumps (update bumps sem (bumps sem + 1)) releasers
      (releasers.set k ⟨sem, .notify⟩) where
  grows sem' := by
    by_cases here : sem' = sem
    · subst here
      rw [update_self]
      exact Nat.le_succ _
    · rw [update_of_ne here]
  past k r found bumped := by
    rcases getElem?_of_set found with rfl | before
    · right
      rw [update_self]
      exact Nat.lt_succ_self _
    · exact .inl ⟨r, before, rfl, bumped⟩

theorem Progress.notify (found : releasers[k]? = some ⟨sem, .notify⟩) :
    Progress bumps bumps releasers (releasers.set k ⟨sem, .returned⟩) where
  grows _ := le_rfl
  past k r found' bumped := by
    rcases getElem?_set_cases found' with ⟨rfl, rfl⟩ | ⟨-, before⟩
    · exact .inl ⟨_, found, rfl, by simp⟩
    · exact .inl ⟨r, before, rfl, bumped⟩

end

theorem TakePc.holdsSeq_of_checked {pc : TakePc} (checked : pc.checked = true) :
    pc.holdsSeq = true := by
  cases pc with
  | park | third => rfl
  | _ => cases checked

section
variable {t : Take σ} {bumps bumps' : σ → Nat} {releasers releasers' : List (Releaser σ)}

theorem Take.Sound.mono (sound : t.Sound bumps releasers)
    (progress : Progress bumps bumps' releasers releasers') : t.Sound bumps' releasers' := by
  constructor
  · intro holds
    obtain ⟨same, below⟩ := sound.seq holds
    exact ⟨same, below.trans (progress.grows t.sem)⟩
  · intro checked k r later found same bumped
    rcases progress.past k r found bumped with ⟨r', found', same', bumped'⟩ | grown
    · exact Nat.lt_of_lt_of_le (sound.since checked k r' later found' (same'.trans same) bumped')
        (progress.grows t.sem)
    · rw [same] at grown
      exact Nat.lt_of_le_of_lt (sound.seq (TakePc.holdsSeq_of_checked checked)).2 grown

end

namespace Watched
variable {m m' : Machine n σ} {i : Fin n} {t : Take σ}

theorem initial {permits : σ → Nat} {binary : σ → Bool} : Watched (.initial n permits binary) where
  seq _ := rfl
  sound i t never := by cases never
  parked i t never := by cases never

/-- Steps that leave the sequences and the releases alone. A call of `take` goes on as it was,
with its slot if that sleeps, or is sound where it is now. -/
theorem next (watched : Watched m) (seq : ∀ sem, (m'.sems sem).seq = (m.sems sem).seq)
    (bumps : m'.bumps = m.bumps) (releasers : m'.releasers = m.releasers)
    (takes : ∀ i t, m'.takes i = some t →
      (m.takes i = some t ∧ ((m'.slots i).state = .kSleep → m'.slots i = m.slots i)) ∨
      t.Sound m.bumps m.releasers ∧ (t.pc = .third → Parked (m'.slots i) t)) : Watched m' where
  seq sem := by
    rw [seq, bumps]
    exact watched.seq sem
  sound i t taking := by
    rw [bumps, releasers]
    rcases takes i t taking with ⟨before, -⟩ | ⟨sound, -⟩
    · exact watched.sound i t before
    · exact sound
  parked i t taking third asleep := by
    rcases takes i t taking with ⟨before, same⟩ | ⟨-, parked⟩
    · have kept := same asleep
      rw [kept] at asleep ⊢
      exact watched.parked i t before third asleep
    · exact parked third

theorem release (watched : Watched m) (slots : m'.slots = m.slots) (takes : m'.takes = m.takes)
    (seq : ∀ sem, (m'.sems sem).seq = (1 + m'.bumps sem) % 2 ^ 32)
    (progress : Progress m.bumps m'.bumps m.releasers m'.releasers) : Watched m' where
  seq := seq
  sound i t taking := by
    rw [takes] at taking
    exact (watched.sound i t taking).mono progress
  parked i t taking := by
    rw [takes] at taking
    rw [slots]
    exact watched.parked i t taking

theorem retake (watched : Watched m) {take : Option (Take σ)}
    (sound : ∀ t, take = some t → t.Sound m.bumps m.releasers ∧ t.pc ≠ .third)
    (seq : ∀ sem, (m'.sems sem).seq = (m.sems sem).seq) (bumps : m'.bumps = m.bumps)
    (releasers : m'.releasers = m.releasers) (slots : m'.slots = m.slots)
    (takes : m'.takes = update m.takes i take) : Watched m' := by
  refine watched.next seq bumps releasers fun j t taking => ?_
  rw [takes] at taking
  by_cases here : j = i
  · subst here
    rw [update_self] at taking
    exact .inr ⟨(sound t taking).1, fun third => ((sound t taking).2 third).elim⟩
  · rw [update_of_ne here] at taking
    exact .inl ⟨taking, fun _ => congrFun slots j⟩

variable [DecidableEq σ]

theorem setSem_seq {sem sem' : σ} {value : CoroSem} (same : value.seq = (m.sems sem).seq) :
    ((m.setSem sem value).sems sem').seq = (m.sems sem').seq := by
  by_cases here : sem' = sem
  · subst here
    exact (congrArg CoroSem.seq (update_self ..)).trans same
  · exact congrArg CoroSem.seq (update_of_ne here ..)

theorem check (watched : Watched m) (taking : m.takes i = some t) {next : TakePc}
    (other : next ≠ .third) (held : next.holdsSeq = true → t.pc.holdsSeq = true) :
    Watched (m.check i t next) := by
  unfold Machine.check
  cases consumed : (m.sems t.sem).tryConsume with
  | some sem =>
    have same : sem.seq = (m.sems t.sem).seq := by
      unfold CoroSem.tryConsume at consumed
      split at consumed <;> cases consumed
      rfl
    have ended : ∀ t, (none : Option (Take σ)) = some t →
        t.Sound m.bumps m.releasers ∧ t.pc ≠ .third := by
      intro t never
      cases never
    exact watched.retake ended (fun _ => setSem_seq same) rfl rfl rfl rfl
  | none =>
    refine watched.retake ?_ (fun _ => rfl) rfl rfl rfl rfl
    rintro t' ⟨⟩
    refine ⟨⟨fun holds => (watched.sound i t taking).seq (held holds), ?_⟩, other⟩
    intro checked k r later found
    rw [List.getElem?_eq_none later] at found
    cases found

omit [DecidableEq σ] in
theorem park (watched : Watched m) (taking : m.takes i = some t) (place : t.pc = .park)
    {slot : Slot σ} (sems : m'.sems = m.sems) (bumps : m'.bumps = m.bumps)
    (releasers : m'.releasers = m.releasers)
    (takes : m'.takes = update m.takes i (some { t with pc := .third }))
    (slots : m'.slots = update m.slots i slot) (parked : Parked slot t) : Watched m' := by
  have checked : t.pc.checked = true := by
    rw [place]
    rfl
  have sound := watched.sound i t taking
  refine watched.next (fun _ => by rw [sems]) bumps releasers fun j t' taking' => ?_
  rw [takes] at taking'
  rw [slots]
  by_cases here : j = i
  · subst here
    rw [update_self] at taking' ⊢
    cases taking'
    exact .inr ⟨⟨fun _ => sound.seq (TakePc.holdsSeq_of_checked checked),
      fun _ => sound.since checked⟩, fun _ => ⟨parked.parkSeq, parked.waiter, parked.deadline⟩⟩
  · rw [update_of_ne here] at taking' ⊢
    exact .inl ⟨taking', fun _ => rfl⟩

theorem takeStep (watched : Watched m) (taking : m.takes i = some t) {pass : Pass} {now : Nat} :
    Watched (m.takeStep pass i t now) := by
  unfold Machine.takeStep
  cases place : t.pc with
  | first | third =>
    refine watched.check taking (by simp) fun never => ?_
    cases never
  | snapshot =>
    refine watched.retake ?_ (fun _ => rfl) rfl rfl rfl rfl
    rintro t' ⟨⟩
    refine ⟨⟨fun _ => ⟨watched.seq t.sem, le_rfl⟩, fun never => ?_⟩, by simp⟩
    cases never
  | second =>
    refine watched.check taking (by simp) fun _ => ?_
    rw [place]
    rfl
  | park => exact watched.park taking place rfl rfl rfl rfl rfl ⟨rfl, rfl, rfl⟩
  | timeout =>
    dsimp only
    split
    · refine watched.retake ?_ (fun _ => rfl) rfl rfl rfl rfl
      intro t' never
      cases never
    · refine watched.retake ?_ (fun _ => rfl) rfl rfl rfl rfl
      rintro t' ⟨⟩
      refine ⟨⟨fun never => ?_, fun never => ?_⟩, by simp⟩ <;> cases never

omit [DecidableEq σ] in
/-- A slot changes that does not sleep, or whose body is in no call of `take`. -/
theorem aside_slot (watched : Watched m) {slot : Slot σ} (sems : m'.sems = m.sems)
    (bumps : m'.bumps = m.bumps) (releasers : m'.releasers = m.releasers)
    (slots : m'.slots = update m.slots i slot)
    (takes : ∀ j t, m'.takes j = some t → m.takes j = some t)
    (awake : slot.state = .kSleep → m'.takes i = none) : Watched m' := by
  refine watched.next (fun _ => by rw [sems]) bumps releasers fun j t taking => ?_
  refine .inl ⟨takes j t taking, fun asleep => ?_⟩
  rw [slots] at asleep ⊢
  by_cases here : j = i
  · subst here
    rw [update_self] at asleep
    rw [awake asleep] at taking
    cases taking
  · exact update_of_ne here ..

omit [DecidableEq σ] in
theorem execute (watched : Watched m) (call : Call n) : Watched (m.execute call) := by
  cases call with
  | arm arg =>
    rw [Machine.execute, Machine.arm]
    cases m.firstFree with
    | none => exact watched
    | some i =>
      refine watched.aside_slot rfl rfl rfl rfl (fun j t taking => ?_) fun never => by cases never
      by_cases here : j = i
      · subst here
        have ended : (m.armSlot j arg).takes j = none := update_self ..
        rw [ended] at taking
        cases taking
      · exact (update_of_ne here ..).symm.trans taking
  | wake =>
    rw [Machine.execute, Machine.wake]
    split
    · exact watched.aside_slot rfl rfl rfl rfl (fun _ _ taking => taking) fun never => by cases never
    · exact watched
  | liveCount => exact watched

omit [DecidableEq σ] in
theorem enter (watched : Watched m) {pass : Pass} {slot : Slot σ} (runnable : slot.state = .kRun) :
    Watched (m.enter pass i slot) := by
  unfold Machine.enter
  split
  · refine watched.aside_slot rfl rfl rfl rfl (fun _ _ taking => taking) fun asleep => ?_
    rw [runnable] at asleep
    cases asleep
  · exact watched.aside_slot rfl rfl rfl rfl (fun _ _ taking => taking) fun never => by cases never

omit [DecidableEq σ] in
theorem visit (watched : Watched m) {pass : Pass} : Watched (m.visit pass i) := by
  have skips {live : Bool} : Watched (m.advance pass live) :=
    watched.next (fun _ => rfl) rfl rfl fun _ _ taking => .inl ⟨taking, fun _ => rfl⟩
  unfold Machine.visit
  cases place : (m.slots i).state with
  | kFree => exact skips
  | kWaitTask => exact skips
  | kRun => exact watched.enter place
  | kSleep =>
    dsimp only
    split
    · exact watched.enter rfl
    · exact skips

theorem step (watched : Watched m) (moves : Moves m label m') : Watched m' := by
  cases moves with
  | call => exact watched.execute _
  | visited => exact watched.visit
  | began | finished =>
    exact watched.next (fun _ => rfl) rfl rfl fun _ _ taking => .inl ⟨taking, fun _ => rfl⟩
  | left _ plain =>
    exact watched.aside_slot rfl rfl rfl rfl (fun _ _ taking => taking) fun _ => plain
  | taking =>
    refine watched.retake ?_ (fun _ => rfl) rfl rfl rfl rfl
    rintro t' ⟨⟩
    refine ⟨⟨fun never => ?_, fun never => ?_⟩, by simp⟩ <;> cases never
  | took _ taking => exact watched.takeStep taking
  | @published sem =>
    refine watched.release rfl rfl (fun sem' => ?_) .publish
    have same : ((m.setSem sem (m.sems sem).publish).sems sem').seq = (m.sems sem').seq :=
      setSem_seq rfl
    exact same.trans (watched.seq sem')
  | @bumped _ sem =>
    refine watched.release rfl rfl (fun sem' => ?_) .bump
    by_cases here : sem' = sem
    · subst here
      have bumped : (m.setSem sem' (m.sems sem').bump).sems sem' = (m.sems sem').bump :=
        update_self ..
      dsimp only
      rw [bumped, update_self, CoroSem.bump, watched.seq, Nat.mod_add_mod, Nat.add_assoc]
    · have same : (m.setSem sem (m.sems sem).bump).sems sem' = m.sems sem' :=
        update_of_ne here ..
      dsimp only
      rw [same, update_of_ne here]
      exact watched.seq sem'
  | notified found => exact watched.release rfl rfl watched.seq (.notify found)

theorem reached {permits : σ → Nat} {binary : σ → Bool}
    (reached : Reaches Machine.step Always (.initial n permits binary) m) : Watched m :=
  reached.invariant (P := Watched) initial fun _ _ _ watched _ ran =>
    watched.step (Machine.step_moves ran)

end Watched

section
variable {m m' : Machine n σ} {i : Fin n} {pass : Pass}

/-- The slot and the call of `take` of its body are as before. -/
def SameSlot (m m' : Machine n σ) (i : Fin n) : Prop :=
  m'.takes i = m.takes i ∧ m'.slots i = m.slots i

theorem SameSlot.update {slot : Slot σ} (other : i ≠ j) (takes : m'.takes i = m.takes i)
    (slots : m'.slots = update m.slots j slot) : SameSlot m m' i := by
  refine ⟨takes, ?_⟩
  rw [slots]
  exact update_of_ne other ..

theorem sameSlot_visit (other : i ≠ j) : SameSlot m (m.visit pass j) i := by
  have enters {slot : Slot σ} : SameSlot m (m.enter pass j slot) i := by
    unfold Machine.enter
    split <;> exact .update other rfl rfl
  unfold Machine.visit
  split
  · exact ⟨rfl, rfl⟩
  · exact ⟨rfl, rfl⟩
  · exact enters
  · split
    · exact enters
    · exact ⟨rfl, rfl⟩

theorem sameSlot_call {call : Call n} (asleep : (m.slots i).state = .kSleep) :
    SameSlot m (m.execute call) i := by
  cases call with
  | arm arg =>
    rw [Machine.execute, Machine.arm]
    cases first : m.firstFree with
    | none => exact ⟨rfl, rfl⟩
    | some j =>
      have test := List.find?_some first
      have free : (m.slots j).state = .kFree := of_decide_eq_true test
      have other : i ≠ j := by
        rintro rfl
        rw [asleep] at free
        cases free
      exact .update other (update_of_ne other ..) rfl
  | wake j arg =>
    rw [Machine.execute, Machine.wake]
    split
    · rename_i waiting
      have other : i ≠ j := by
        rintro rfl
        rw [asleep] at waiting
        cases waiting
      exact .update other rfl rfl
    · exact ⟨rfl, rfl⟩
  | liveCount => exact ⟨rfl, rfl⟩

theorem sameSlot_takeStep [DecidableEq σ] {now : Nat} (other : i ≠ j) :
    SameSlot m (m.takeStep pass j t now) i := by
  have sets {m₀ : Machine n σ} {take : Option (Take σ)} (takes : m₀.takes = m.takes)
      (slots : m₀.slots = m.slots) : SameSlot m (m₀.setTake j take) i := by
    refine ⟨(update_of_ne other ..).trans (congrFun takes i), congrFun slots i⟩
  have checks {next : TakePc} : SameSlot m (m.check j t next) i := by
    unfold Machine.check
    split <;> exact sets rfl rfl
  unfold Machine.takeStep
  split
  · exact checks
  · exact sets rfl rfl
  · exact checks
  · exact .update other (update_of_ne other ..) rfl
  · exact checks
  · split <;> exact sets rfl rfl

theorem Agrees.kept [DecidableEq σ] (agrees : Agrees m)
    (asleep : (m.slots i).state = .kSleep) (ran : Machine.step label m = .ok m') :
    (label = .visit ∧ ∃ pass, m.slotAt .scan = some (pass, i)) ∨ SameSlot m m' i := by
  have outside : ¬ m.InBody i := by
    intro inside
    have fits := agrees.fits i
    rw [(agrees.running i).mpr inside] at fits
    have runs := fits.1
    rw [asleep] at runs
    cases runs
  have elsewhere {pass : Pass} {j : Fin n} (current : m.slotAt .body = some (pass, j)) : i ≠ j := by
    rintro rfl
    obtain ⟨running, here, body⟩ := Machine.slotAt_eq_some.mp current
    exact outside ⟨pass, running, here, by simp [body]⟩
  cases Machine.step_moves ran with
  | @visited pass j visited =>
    by_cases here : i = j
    · subst here
      exact .inl ⟨rfl, pass, visited⟩
    · exact .inr (sameSlot_visit here)
  | call => exact .inr (sameSlot_call asleep)
  | left current => exact .inr (.update (elsewhere current) rfl rfl)
  | taking current => exact .inr ⟨update_of_ne (elsewhere current) .., rfl⟩
  | took current => exact .inr (sameSlot_takeStep (elsewhere current))
  | _ => exact .inr ⟨rfl, rfl⟩

theorem Agrees.visit_enters [DecidableEq σ] (agrees : Agrees m)
    (asleep : (m.slots i).state = .kSleep) (visited : m.slotAt .scan = some (pass, i)) :
    (∃ m' seen, Machine.step .visit m = .ok m' ∧ m'.log = m.log ++ [.entered i seen]) ↔
      (m.slots i).wakes pass.now pass.notifySeq (fun sem => (m.sems sem).seq) = true := by
  obtain ⟨co, enters, -⟩ := agrees.entry visited (.inr ⟨asleep, rfl⟩)
  have ran : Machine.step .visit m = .ok (m.visit pass i) := by
    simp only [Machine.step, visited]
  rw [ran]
  unfold Machine.visit
  rw [asleep]
  dsimp only
  by_cases wakes : (m.slots i).wakes pass.now pass.notifySeq (fun sem => (m.sems sem).seq) = true
  · rw [if_pos wakes, Machine.enter, enters]
    exact ⟨fun _ => wakes, fun _ => ⟨_, co.pendingArg, rfl, rfl⟩⟩
  · rw [if_neg wakes]
    constructor
    · rintro ⟨m', seen, same, entry⟩
      cases same
      cases List.self_eq_append_right.mp entry
    · exact fun never => (wakes never).elim

end

section
variable {m : Machine n σ} {i : Fin n} {t : Take σ}

/-- A sleeper in `take` wakes at its deadline, and before it if the sequence of its
semaphore is not the one it parked with, which must not be 0. -/
theorem Watched.wakes_iff (watched : Watched m) (taking : m.takes i = some t)
    (third : t.pc = .third) (asleep : (m.slots i).state = .kSleep) {now notifySeq : Nat} :
    (m.slots i).wakes now notifySeq (fun sem => (m.sems sem).seq) = true ↔
      t.deadline ≤ now ∨ t.seq ≠ 0 ∧ ¬ 2 ^ 32 ∣ m.bumps t.sem - t.bumpsAt := by
  have parked := watched.parked i t taking third asleep
  obtain ⟨snapshot, below⟩ := (watched.sound i t taking).seq (by rw [third]; rfl)
  have current := watched.seq t.sem
  rw [Slot.wakes, parked.deadline, parked.parkSeq, parked.waiter, Option.elim_some]
  by_cases early : now < t.deadline
  · rw [if_pos early, current]
    simp only [Bool.not_eq_true', Bool.or_eq_false_iff, decide_eq_false_iff_not]
    have hidden : t.seq = (1 + m.bumps t.sem) % 2 ^ 32 ↔ 2 ^ 32 ∣ m.bumps t.sem - t.bumpsAt := by
      omega
    rw [hidden]
    constructor
    · exact .inr
    · intro either
      exact either.resolve_left (Nat.not_le_of_lt early)
  · rw [if_neg early]
    exact ⟨fun _ => .inl (not_lt.mp early), fun _ => rfl⟩

/-- A taker that is parked stays so until a pass comes to its slot. If a release has
published its permit after the taker's last check and has returned, the pass resumes it
exactly if its deadline has come, or the sequence it parked with is not 0 and was not
bumped a multiple of 2 ^ 32 times since. This is so while fewer than 2 ^ 32 - 1 releases
of the semaphore have bumped it. -/
theorem parked_taker_resumed_iff [DecidableEq σ] {permits : σ → Nat} {binary : σ → Bool}
    (reached : Reaches Machine.step Always (.initial n permits binary) m)
    (taking : m.takes i = some t) (third : t.pc = .third) (asleep : (m.slots i).state = .kSleep) :
    (∀ label m', Machine.step label m = .ok m' →
      (label = .visit ∧ ∃ pass, m.slotAt .scan = some (pass, i)) ∨
      m'.takes i = m.takes i ∧ m'.slots i = m.slots i) ∧
    ∀ k r, t.checkedAt ≤ k → m.releasers[k]? = some r → r.sem = t.sem → r.pc = .returned →
      (∀ pass, m.slotAt .scan = some (pass, i) →
        ((∃ m' seen, Machine.step .visit m = .ok m' ∧ m'.log = m.log ++ [.entered i seen]) ↔
          t.deadline ≤ pass.now ∨ t.seq ≠ 0 ∧ ¬ 2 ^ 32 ∣ m.bumps t.sem - t.bumpsAt)) ∧
      (m.bumps t.sem + 1 < 2 ^ 32 → t.seq ≠ 0 ∧ ¬ 2 ^ 32 ∣ m.bumps t.sem - t.bumpsAt) := by
  have agrees := Agrees.reached reached
  have watched := Watched.reached reached
  refine ⟨fun label m' ran => agrees.kept asleep ran, ?_⟩
  intro k r later found same returned
  refine ⟨fun pass visited => ?_, fun few => ?_⟩
  · exact (agrees.visit_enters asleep visited).trans (watched.wakes_iff taking third asleep)
  · have sound := watched.sound i t taking
    obtain ⟨snapshot, -⟩ := sound.seq (by rw [third]; rfl)
    have grown := sound.since (by rw [third]; rfl) k r later found same (by simp [returned])
    omega

end

/-- A body takes a permit that is not there and parks. -/
def parking : List (Label 1 Unit) :=
  [.call (.arm .zero), .begin 0, .visit, .take () kWaitForever 0, .takeStep 0, .takeStep 0,
    .takeStep 0, .takeStep 0, .finish]

/-- A release follows, and the next pass begins. -/
def parkedThenReleased : List (Label 1 Unit) :=
  parking ++ [Label.publish (), .bump 0, .notify 0, .begin 1]

theorem parked_taker_resumed_iff_released : ∃ m' seen,
    Machine.step .visit (outcome Machine.step parkedThenReleased single) = .ok m' ∧
    m'.log = (outcome Machine.step parkedThenReleased single).log ++ [.entered 0 seen] := by
  have reached : Reaches Machine.step Always single
      (outcome Machine.step parkedThenReleased single) := reaches_outcome (by decide +kernel)
  have taking : (outcome Machine.step parkedThenReleased single).takes 0 =
      some ⟨(), 0xFFFFFFFFFFFFFFFF, .third, 1, 0, 0⟩ := by decide +kernel
  have asleep : ((outcome Machine.step parkedThenReleased single).slots 0).state = .kSleep := by
    decide +kernel
  obtain ⟨-, wakes⟩ := parked_taker_resumed_iff reached taking rfl asleep
  obtain ⟨resumed, few⟩ := wakes 0 ⟨(), .returned⟩ le_rfl (by decide +kernel) rfl rfl
  refine (resumed ⟨1, 2, 0, 0, .scan⟩ ?_).mpr (.inr (few ?_))
  · exact Machine.slotAt_eq_some.mpr ⟨by decide +kernel, rfl, rfl⟩
  · decide +kernel

/-! A run through all values of the sequence, up to 0. -/
/-- A whole call of `release` on the semaphore, and nothing else. -/
structure Released (m m' : Machine 1 Unit) : Prop where
  reached : Reaches Machine.step Always m m'
  slots : m'.slots = m.slots
  pass : m'.pass = m.pass
  takes : m'.takes = m.takes
  sem : m'.sems () = (m.sems ()).publish.bump
  releasers : m'.releasers = m.releasers ++ [⟨(), .returned⟩]

theorem exists_released (m : Machine 1 Unit) : ∃ m', Released m m' := by
  have last {pc : ReleasePc} : (m.releasers ++ [⟨(), pc⟩])[m.releasers.length]? = some ⟨(), pc⟩ :=
    List.getElem?_concat_length
  have sets {pc pc' : ReleasePc} : (m.releasers ++ [(⟨(), pc⟩ : Releaser Unit)]).set
      m.releasers.length ⟨(), pc'⟩ = m.releasers ++ [⟨(), pc'⟩] := by
    simp
  have first : Machine.step (.publish ()) m = .ok { m.setSem () (m.sems ()).publish with
      releasers := m.releasers ++ [⟨(), .bump⟩] } := rfl
  have second : Machine.step (.bump m.releasers.length) { m.setSem () (m.sems ()).publish with
      releasers := m.releasers ++ [⟨(), .bump⟩] } = .ok { (m.setSem () (m.sems ()).publish).setSem
        () (m.sems ()).publish.bump with
        releasers := m.releasers ++ [⟨(), .notify⟩]
        bumps := update m.bumps () (m.bumps () + 1) } := by
    simp only [Machine.step, last, sets]
    rfl
  have third : Machine.step (.notify m.releasers.length)
      { (m.setSem () (m.sems ()).publish).setSem () (m.sems ()).publish.bump with
        releasers := m.releasers ++ [⟨(), .notify⟩]
        bumps := update m.bumps () (m.bumps () + 1) } =
      .ok { (m.setSem () (m.sems ()).publish).setSem () (m.sems ()).publish.bump with
        notifySeq := (m.notifySeq + 1) % 2 ^ 32
        releasers := m.releasers ++ [⟨(), .returned⟩]
        bumps := update m.bumps () (m.bumps () + 1) } := by
    simp only [Machine.step, last, sets]
    rfl
  have run : Reaches Machine.step Always m _ :=
    ((Relation.ReflTransGen.single ⟨_, trivial, first⟩).tail ⟨_, trivial, second⟩).tail
      ⟨_, trivial, third⟩
  exact ⟨_, run, rfl, rfl, rfl, rfl, rfl⟩

theorem exists_churned_sem (k : Nat) : ∃ m : Machine 1 Unit,
    Reaches Machine.step Always single m ∧ m.slots = single.slots ∧ m.pass = none ∧
    m.takes = single.takes ∧ m.sems () = ⟨1, (k + 2) % 2 ^ 32, true⟩ := by
  induction k with
  | zero =>
    obtain ⟨m, released⟩ := exists_released single
    exact ⟨m, released.reached, released.slots, released.pass, released.takes, released.sem⟩
  | succ _ ih =>
    obtain ⟨m, reached, slots, pass, takes, sem⟩ := ih
    obtain ⟨m', released⟩ := exists_released m
    refine ⟨m', reached.trans released.reached, released.slots.trans slots,
      released.pass.trans pass, released.takes.trans takes, released.sem.trans ?_⟩
    rw [sem]
    simp [CoroSem.publish, CoroSem.bump]

/-- The body consumes the permit that is left, and then parks. -/
def consumeAndPark : List (Label 1 Unit) :=
  [.call (.arm .zero), .begin 0, .visit, .take () kWaitForever 0, .takeStep 0,
    .take () kWaitForever 0, .takeStep 0, .takeStep 0, .takeStep 0, .takeStep 0, .finish]

theorem exists_parked_zero : ∃ (m : Machine 1 Unit) (t : Take Unit),
    Reaches Machine.step Always single m ∧ m.pass = none ∧
    (m.slots 0).state = .kSleep ∧ m.takes 0 = some t ∧ t.pc = .third ∧ t.seq = 0 ∧
    t.deadline = 0xFFFFFFFFFFFFFFFF ∧ t.checkedAt ≤ m.releasers.length := by
  obtain ⟨m, reached, slots, pass, takes, sem⟩ := exists_churned_sem (2 ^ 32 - 2)
  obtain ⟨slots', notifySeq, sems, pass', takes', releasers, bumps, log⟩ := m
  have zero : sems = fun _ => ⟨1, 0, true⟩ := funext fun _ => sem
  obtain rfl : slots' = single.slots := slots
  obtain rfl : pass' = none := pass
  obtain rfl : takes' = single.takes := takes
  subst zero
  have parks : (replay Machine.step consumeAndPark ⟨single.slots, notifySeq, fun _ => ⟨1, 0, true⟩,
      none, single.takes, releasers, bumps, log⟩).isSome = true := rfl
  have run := reached.trans (reaches_outcome parks)
  refine ⟨_, ⟨(), 0xFFFFFFFFFFFFFFFF, .third, 0, bumps (), releasers.length⟩, run, ?_, ?_, ?_, rfl,
    rfl, rfl, ?_⟩
  · rfl
  · rfl
  · rfl
  · exact Nat.le_refl releasers.length

/-- After 2 ^ 32 - 1 releases a taker parks with the snapshot 0, and the pass that follows the
next release does not resume it. -/
theorem parked_taker_missed : ∃ (m : Machine 1 Unit) (t : Take Unit) (k : Nat) (r : Releaser Unit)
    (pass : Pass), Reaches Machine.step Always single m ∧ m.takes 0 = some t ∧ t.pc = .third ∧
    (m.slots 0).state = .kSleep ∧ t.checkedAt ≤ k ∧ m.releasers[k]? = some r ∧ r.sem = t.sem ∧
    r.pc = .returned ∧ m.slotAt .scan = some (pass, 0) ∧
    ¬ ∃ m' seen, Machine.step .visit m = .ok m' ∧ m'.log = m.log ++ [.entered 0 seen] := by
  obtain ⟨m, t, reached, idle, asleep, taking, third, zero, deadline, checked⟩ := exists_parked_zero
  obtain ⟨m₁, released⟩ := exists_released m
  have idle₁ : m₁.pass = none := released.pass.trans idle
  have begins : Machine.step (.begin 1) m₁ =
      .ok { m₁ with pass := some ⟨1, m₁.notifySeq, 0, 0, .scan⟩ } := by
    simp only [Machine.step, idle₁]
    rfl
  have run : Reaches Machine.step Always single
      { m₁ with pass := some ⟨1, m₁.notifySeq, 0, 0, .scan⟩ } :=
    (reached.trans released.reached).tail ⟨_, trivial, begins⟩
  have asleep₁ : (m₁.slots 0).state = .kSleep := by
    rw [released.slots]
    exact asleep
  have taking₁ : m₁.takes 0 = some t := by
    rw [released.takes]
    exact taking
  have found : m₁.releasers[m.releasers.length]? = some ⟨(), .returned⟩ := by
    rw [released.releasers]
    exact List.getElem?_concat_length
  have scanned : Machine.slotAt { m₁ with pass := some ⟨1, m₁.notifySeq, 0, 0, .scan⟩ } .scan =
      some (⟨1, m₁.notifySeq, 0, 0, .scan⟩, 0) :=
    Machine.slotAt_eq_some.mpr ⟨rfl, rfl, rfl⟩
  refine ⟨_, t, m.releasers.length, ⟨(), .returned⟩, ⟨1, m₁.notifySeq, 0, 0, .scan⟩, run, taking₁,
    third, asleep₁, checked, found, rfl, rfl, scanned, ?_⟩
  intro resumed
  have wakes := ((Agrees.reached run).visit_enters asleep₁ scanned).mp resumed
  rcases ((Watched.reached run).wakes_iff taking₁ third asleep₁).mp wakes with due | ⟨shown, -⟩
  · rw [deadline] at due
    simp at due
  · exact shown zero

end Coact.Executor
