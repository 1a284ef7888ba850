import Coact.Foundation.Sequence
import Coact.Foundation.Tally
import Coact.Foundation.Transition
import Mathlib.Algebra.Order.Group.Multiset

/-! The SoftIrq channel of the FreeRTOS layer (`pal_freertos.cpp`): a payload ring with 32-bit
indices beside a counting semaphore. Tasks and interrupt handlers raise, one access at a time;
the critical section keeps raises apart from each other, and the consumer goes on beside it. -/
namespace Coact.FreeRtos
open Foundation Function

def kFreeRtosSoftIrqSlots : Nat := 8

def kWaitForever : UInt32 := 0xFFFFFFFF

/-- How many values a 32-bit word has. -/
def word32 : Nat := 2 ^ 32

/-- What a `softirq_raise` has ahead of it: `irq_save`, the loads, the store of the payload,
the store of `head`, `irq_restore`, and the give from a task or from an interrupt handler. -/
inductive RaisePc where
  | save
  | loadHead
  | loadTail (head : Nat)
  | insert (head : Nat)
  | publish (head : Nat)
  | restore (accepted : Bool)
  | give
  | returned (accepted : Bool)

structure Raise where
  payload : Int32
  pc : RaisePc

/-- What the `softirq_take` has ahead of it: the wait for a token, the loads of `head` and of
`tail`, the read of the payload, the store of `tail`. -/
inductive TakePc where
  | idle
  | wait (timeoutMs : UInt32)
  | loadHead
  | loadTail (head : Nat)
  | read (tail : Nat)
  | storeTail (tail : Nat) (payload : Int32)

/-- How `softirq_take` ends; it returns -1 for the first two. -/
inductive TakeReturn where
  | timedOut
  | noPayload
  | payload (value : Int32)
  deriving DecidableEq

/-- `critical` is the raise that has interrupts masked, `count` the semaphore's. Kept for the
proofs: the gives that found the semaphore at its maximum, the payloads in the order in which
`head` went past them, and those `tail` went past. -/
structure SoftIrq where
  head : Nat
  tail : Nat
  ring : Nat → Int32
  count : Nat
  critical : Option Nat
  raises : List Raise
  take : TakePc
  lost : Nat
  published : List Int32
  taken : List Int32
  returns : List TakeReturn

inductive SoftIrqLabel where
  | raise (payload : Int32)
  | raiser (i : Nat)
  | take (timeoutMs : UInt32)
  | timeout
  | taker

inductive SoftIrqRefusal where
  | noSuchRaise | returned | masked | busy | idle | noToken | waitsForever

namespace SoftIrq

/-- After `softirq_init`. -/
def init : SoftIrq := ⟨0, 0, fun _ => 0, 0, none, [], .idle, 0, [], [], []⟩

def advance (s : SoftIrq) (i : Nat) (r : Raise) (pc : RaisePc) : List Raise :=
  s.raises.set i { r with pc := pc }

/-- One access of a raise. -/
def raiser (s : SoftIrq) (i : Nat) (r : Raise) : Except SoftIrqRefusal SoftIrq :=
  match r.pc with
  | .save =>
    if s.critical.isSome then .error .masked
    else .ok { s with critical := some i, raises := s.advance i r .loadHead }
  | .loadHead => .ok { s with raises := s.advance i r (.loadTail s.head) }
  | .loadTail head => .ok { s with
      raises := s.advance i r
        (if kFreeRtosSoftIrqSlots ≤ subWord word32 head s.tail then .restore false
          else .insert head) }
  | .insert head => .ok { s with
      ring := update s.ring (head % kFreeRtosSoftIrqSlots) r.payload
      raises := s.advance i r (.publish head) }
  | .publish head => .ok { s with
      head := (head + 1) % word32
      published := s.published ++ [r.payload]
      raises := s.advance i r (.restore true) }
  | .restore accepted => .ok { s with
      critical := none
      raises := s.advance i r (if accepted then .give else .returned false) }
  | .give =>
    -- The result of the give is not looked at.
    if s.count < kFreeRtosSoftIrqSlots then
      .ok { s with count := s.count + 1, raises := s.advance i r (.returned true) }
    else .ok { s with lost := s.lost + 1, raises := s.advance i r (.returned true) }
  | .returned _ => .error .returned

/-- One access of the take. -/
def taker (s : SoftIrq) : Except SoftIrqRefusal SoftIrq :=
  match s.take with
  | .idle => .error .idle
  | .wait _ =>
    if s.count = 0 then .error .noToken
    else .ok { s with count := s.count - 1, take := .loadHead }
  | .loadHead => .ok { s with take := .loadTail s.head }
  | .loadTail head =>
    if s.tail = head then
      .ok { s with take := .idle, returns := s.returns ++ [TakeReturn.noPayload] }
    else .ok { s with take := .read s.tail }
  | .read tail =>
    .ok { s with take := .storeTail tail (s.ring (tail % kFreeRtosSoftIrqSlots)) }
  | .storeTail tail payload => .ok { s with
      tail := (tail + 1) % word32
      take := .idle
      taken := s.taken ++ [payload]
      returns := s.returns ++ [TakeReturn.payload payload] }

/-- `wait_ticks` of 0 and of `kWaitForever` is forever. -/
def timeout (s : SoftIrq) : Except SoftIrqRefusal SoftIrq :=
  match s.take with
  | .wait timeoutMs =>
    if timeoutMs = 0 ∨ timeoutMs = kWaitForever then .error .waitsForever
    else .ok { s with take := .idle, returns := s.returns ++ [TakeReturn.timedOut] }
  | _ => .error .idle

def step : SoftIrqLabel → SoftIrq → Except SoftIrqRefusal SoftIrq
  | .raise payload, s => .ok { s with raises := s.raises ++ [⟨payload, .save⟩] }
  | .raiser i, s =>
    match s.raises[i]? with
    | some r => s.raiser i r
    | none => .error .noSuchRaise
  | .take timeoutMs, s =>
    match s.take with
    | .idle => .ok { s with take := .wait timeoutMs }
    | _ => .error .busy
  | .timeout, s => s.timeout
  | .taker, s => s.taker

end SoftIrq

/-- The raise is between its store of `head` and its give. -/
def RaisePc.owes : RaisePc → Bool
  | .restore accepted => accepted
  | .give => true
  | _ => false

def RaisePc.inside : RaisePc → Bool
  | .save | .give | .returned _ => false
  | _ => true

/-- The raise has published its payload, and returns true. -/
def RaisePc.accepted : RaisePc → Bool
  | .restore accepted | .returned accepted => accepted
  | .give => true
  | _ => false

def Raise.delivery (r : Raise) : Multiset Int32 :=
  if r.pc.accepted then {r.payload} else 0

/-- The take is between its token and its store of `tail`. -/
def TakePc.taking : TakePc → Nat
  | .idle | .wait _ => 0
  | _ => 1

def SoftIrq.giving (s : SoftIrq) : Nat := tally (fun r => r.pc.owes.toNat) s.raises

/-- What a raise inside the critical section knows. The consumer may free cells meanwhile, so
what was room stays room. -/
def Raise.Knows (s : SoftIrq) (r : Raise) : Prop :=
  match r.pc with
  | .loadTail head => head = s.head
  | .insert head => head = s.head ∧ s.published.length < s.taken.length + kFreeRtosSoftIrqSlots
  | .publish head =>
    head = s.head ∧ s.published.length < s.taken.length + kFreeRtosSoftIrqSlots ∧
      s.ring (head % kFreeRtosSoftIrqSlots) = r.payload
  | _ => True

/-- What the take knows. Its load of `head` may be old, but it was made with a token in hand. -/
def TakePc.Knows (s : SoftIrq) : TakePc → Prop
  | .loadTail head => ∃ k, head = k % word32 ∧ s.taken.length < k ∧ k ≤ s.published.length
  | .read tail => tail = s.tail
  | .storeTail tail payload => tail = s.tail ∧ s.published[s.taken.length]? = some payload
  | _ => True

/-- Only the raise that has interrupts masked is inside the critical section. -/
def SoftIrq.Masked (s : SoftIrq) : Prop :=
  ∀ i r, s.raises[i]? = some r → (r.pc.inside → s.critical = some i) ∧ r.Knows s

structure SoftIrq.Sound (s : SoftIrq) : Prop where
  order : s.taken = s.published.take s.taken.length
  head : s.head = s.published.length % word32
  tail : s.tail = s.taken.length % word32
  balance : s.published.length = s.taken.length + (s.count + s.giving + s.take.taking)
  room : s.published.length ≤ s.taken.length + kFreeRtosSoftIrqSlots
  masked : s.Masked
  taker : s.take.Knows s
  cells : Covers s.ring kFreeRtosSoftIrqSlots s.taken.length s.published.length
    fun q => s.published.getD q 0

section
variable {s s' : SoftIrq} {i : Nat} {r after : Raise}

theorem Raise.knows_outside (outside : ¬ r.pc.inside) : r.Knows s := by
  unfold Raise.Knows
  cases place : r.pc <;> simp_all [RaisePc.inside]

theorem Raise.Knows.frame (knows : r.Knows s) (head : s'.head = s.head) (ring : s'.ring = s.ring)
    (published : s'.published = s.published) (taken : s.taken.length ≤ s'.taken.length) :
    r.Knows s' := by
  unfold Raise.Knows at *
  cases place : r.pc with
  | insert h =>
    simp only [place, head, published] at knows ⊢
    exact ⟨knows.1, by omega⟩
  | publish h =>
    simp only [place, head, published, ring] at knows ⊢
    exact ⟨knows.1, by omega, knows.2.2⟩
  | loadTail =>
    simp only [place, head] at knows ⊢
    exact knows
  | _ => trivial

/-- The others are outside while this raise has interrupts masked or is about to mask them. -/
theorem SoftIrq.Masked.alone (masked : s.Masked)
    (mine : s.critical = some i ∨ s.critical = none) (raises : s'.raises = s.raises.set i after)
    (inside : after.pc.inside → s'.critical = some i) (knows : after.Knows s') : s'.Masked := by
  intro j q there
  rw [raises] at there
  rcases getElem?_set_cases there with ⟨rfl, rfl⟩ | ⟨apart, there⟩
  · exact ⟨inside, knows⟩
  · have outside : ¬ q.pc.inside := by
      intro within
      have other := (masked j q there).1 within
      rcases mine with mine | none
      · exact apart (Option.some.inj (other.symm.trans mine))
      · cases other.symm.trans none
    exact ⟨fun within => absurd within outside, Raise.knows_outside outside⟩

theorem SoftIrq.Masked.frame (masked : s.Masked) (critical : s'.critical = s.critical)
    (head : s'.head = s.head) (ring : s'.ring = s.ring) (published : s'.published = s.published)
    (taken : s.taken.length ≤ s'.taken.length)
    (raises : ∀ (j : Nat) (q : Raise), s'.raises[j]? = some q → q.pc.inside → s.raises[j]? = some q) :
    s'.Masked := by
  intro j q there
  by_cases within : q.pc.inside
  · obtain ⟨inside, knows⟩ := masked j q (raises j q there within)
    exact ⟨fun within => critical.trans (inside within), knows.frame head ring published taken⟩
  · exact ⟨fun yes => absurd yes within, Raise.knows_outside within⟩

theorem SoftIrq.giving_set {t : SoftIrq} (found : s.raises[i]? = some r)
    (raises : t.raises = s.raises.set i after) :
    t.giving + r.pc.owes.toNat = s.giving + after.pc.owes.toNat := by
  rw [giving, raises]
  exact tally_set found after

end

namespace SoftIrq.Sound
variable {s : SoftIrq} {i : Nat} {r : Raise}

theorem init : Sound init := by
  constructor
  case order | head | tail | balance => rfl
  case room => exact Nat.zero_le _
  case masked =>
    intro i r found
    cases found
  case taker => trivial
  case cells =>
    intro q first below
    cases below

section
variable (sound : Sound s)
include sound

theorem subWord_eq : subWord word32 s.head s.tail = s.published.length - s.taken.length := by
  have room := sound.room
  rw [sound.head, sound.tail]
  apply subWord_mod
  · have balance := sound.balance
    omega
  · unfold kFreeRtosSoftIrqSlots at room
    unfold word32
    omega

theorem head_cell :
    s.head % kFreeRtosSoftIrqSlots = s.published.length % kFreeRtosSoftIrqSlots := by
  rw [sound.head]
  exact Nat.mod_mod_of_dvd _ (by decide)

section
variable (found : s.raises[i]? = some r)
include found

theorem give_below (place : r.pc = .give) : ¬ kFreeRtosSoftIrqSlots ≤ s.count := by
  have owed : r.pc.owes.toNat ≤ s.giving :=
    weight_le_tally (w := fun r : Raise => r.pc.owes.toNat) (List.mem_of_getElem? found)
  simp only [place, RaisePc.owes, Bool.toNat_true] at owed
  have balance := sound.balance
  have room := sound.room
  omega

theorem place {critical : Option Nat}
    {count : Nat} {pc : RaisePc} (tokens : count + pc.owes.toNat = s.count + r.pc.owes.toNat)
    (masked : Masked { s with critical, count, raises := s.advance i r pc }) :
    Sound { s with critical, count, raises := s.advance i r pc } := by
  have moved := giving_set (t := { s with critical, count, raises := s.advance i r pc }) found rfl
  have balance := sound.balance
  refine { sound with balance := ?_, masked, taker := sound.taker }
  simp only at moved ⊢
  omega

theorem insert {head : Nat} (place : r.pc = .insert head) :
    Sound { s with
      ring := update s.ring (head % kFreeRtosSoftIrqSlots) r.payload
      raises := s.advance i r (.publish head) } := by
  obtain ⟨within, knows⟩ := sound.masked i r found
  simp only [Raise.Knows, place] at knows
  obtain ⟨rfl, free⟩ := knows
  have moved := giving_set (t := { s with
    ring := update s.ring (s.head % kFreeRtosSoftIrqSlots) r.payload
    raises := s.advance i r (.publish s.head) }) found rfl
  simp only [place, RaisePc.owes, Bool.toNat_false, Nat.add_zero] at moved
  refine { sound with balance := ?_, masked := ?_, taker := ?_, cells := ?_ }
  · exact moved.symm ▸ sound.balance
  · apply sound.masked.alone (.inl (within (by rw [place]; rfl))) rfl
    · intro inside
      exact within (by rw [place]; rfl)
    · exact ⟨rfl, free, update_self ..⟩
  · exact sound.taker
  · simp only [sound.head_cell]
    exact sound.cells.beside free

theorem publish {head : Nat} (place : r.pc = .publish head) :
    Sound { s with
      head := (head + 1) % word32
      published := s.published ++ [r.payload]
      raises := s.advance i r (.restore true) } := by
  obtain ⟨within, knows⟩ := sound.masked i r found
  simp only [Raise.Knows, place] at knows
  obtain ⟨rfl, free, stored⟩ := knows
  have balance := sound.balance
  have behind : s.taken.length ≤ s.published.length := by omega
  have moved := giving_set (t := { s with
    head := (s.head + 1) % word32
    published := s.published ++ [r.payload]
    raises := s.advance i r (.restore true) }) found rfl
  simp only [place, RaisePc.owes, Bool.toNat_false, Bool.toNat_true] at moved
  constructor
  case order =>
    simp only [List.take_append_of_le_length behind]
    exact sound.order
  case head => simp [sound.head, succ_mod]
  case tail => exact sound.tail
  case balance =>
    simp only [List.length_append, List.length_singleton]
    omega
  case room =>
    simp only [List.length_append, List.length_singleton]
    exact free
  case masked =>
    refine sound.masked.alone (.inl (within (by rw [place]; rfl))) rfl ?_ trivial
    intro inside
    exact within (by rw [place]; rfl)
  case taker =>
    have taker := sound.taker
    cases here : s.take with
    | loadTail h =>
      rw [here] at taker
      obtain ⟨k, loaded, later, known⟩ := taker
      refine ⟨k, loaded, later, ?_⟩
      simp only [List.length_append]
      omega
    | storeTail =>
      rw [here] at taker
      have inside := (List.getElem?_eq_some_iff.mp taker.2).1
      exact ⟨taker.1, (List.getElem?_append_left inside).trans taker.2⟩
    | read =>
      rw [here] at taker
      exact taker
    | idle | wait _ | loadHead => trivial
  case cells =>
    simp only [List.length_append, List.length_singleton]
    apply sound.cells.grow
    · intro q first below
      simp [List.getElem?_append_left below]
    · rw [← sound.head_cell, stored]
      simp

end

/-- The defensive branch is dead: the token stands for a payload behind `tail`. -/
theorem found_payload {head : Nat} (place : s.take = .loadTail head) : s.tail ≠ head := by
  have taker := sound.taker
  rw [place] at taker
  obtain ⟨k, rfl, later, known⟩ := taker
  rw [sound.tail]
  have room := sound.room
  have wide : kFreeRtosSoftIrqSlots < word32 := by decide
  exact cell_ne le_rfl (by omega) later.le (by omega) later.ne

theorem unread (taking : s.take.taking = 1) : s.taken.length < s.published.length := by
  have balance := sound.balance
  omega

theorem wait {count : Nat} {take : TakePc} {returns : List TakeReturn}
    (tokens : count + take.taking = s.count + s.take.taking)
    (knows : take.Knows { s with count, take, returns }) : Sound { s with count, take, returns } := by
  have balance := sound.balance
  refine { sound with balance := ?_, masked := ?_, taker := knows }
  · show s.published.length = s.taken.length + (count + s.giving + take.taking)
    omega
  · exact sound.masked.frame rfl rfl rfl rfl le_rfl fun _ _ there _ => there

theorem storeTail {tail : Nat} {payload : Int32}
    (place : s.take = .storeTail tail payload) (returns : List TakeReturn) :
    Sound { s with
      tail := (tail + 1) % word32
      take := .idle
      taken := s.taken ++ [payload]
      returns } := by
  have taker := sound.taker
  rw [place] at taker
  obtain ⟨rfl, value⟩ := taker
  have balance := sound.balance
  have room := sound.room
  simp only [place, TakePc.taking] at balance
  constructor
  case order =>
    simp only [List.length_append, List.length_singleton]
    rw [List.take_add_one, ← sound.order, value]
    rfl
  case head => exact sound.head
  case tail => simp [sound.tail, succ_mod]
  case balance =>
    simp only [List.length_append, List.length_singleton, TakePc.taking]
    show _ = _ + (s.count + s.giving + 0)
    omega
  case room =>
    simp only [List.length_append, List.length_singleton]
    omega
  case masked =>
    refine sound.masked.frame rfl rfl rfl rfl ?_ fun _ _ there _ => there
    simp only [List.length_append]
    omega
  case taker => trivial
  case cells =>
    simp only [List.length_append, List.length_singleton]
    exact sound.cells.drop

end

end SoftIrq.Sound

/-- The value of a return that is not a failure. -/
def TakeReturn.taken : TakeReturn → Option Int32
  | .payload value => some value
  | _ => none

/-- No give was lost, no token was without a payload, the published payloads are those of the
raises that return true, and the taken ones those that were returned. -/
structure SoftIrq.Books (s : SoftIrq) : Prop where
  lost : s.lost = 0
  served : TakeReturn.noPayload ∉ s.returns
  delivered : tally Raise.delivery s.raises = (s.published : Multiset Int32)
  returned : s.returns.filterMap TakeReturn.taken = s.taken

namespace SoftIrq.Books
variable {s s' : SoftIrq} {i : Nat} {r : Raise}

theorem init : Books init where
  lost := rfl
  served := List.not_mem_nil
  delivered := rfl
  returned := rfl

theorem delivered_set (books : Books s) (found : s.raises[i]? = some r) (pc : RaisePc)
    (same : pc.accepted = r.pc.accepted) :
    tally Raise.delivery (s.advance i r pc) = (s.published : Multiset Int32) := by
  have moved := tally_set (w := Raise.delivery) found { r with pc := pc }
  have equal : Raise.delivery { r with pc := pc } = r.delivery := by
    simp only [Raise.delivery, same]
  rw [equal] at moved
  rw [advance, add_right_cancel moved]
  exact books.delivered

theorem raiser (sound : Sound s) (books : Books s) (found : s.raises[i]? = some r)
    (ran : s.raiser i r = .ok s') : Sound s' ∧ Books s' := by
  obtain ⟨within, knows⟩ := sound.masked i r found
  have same {pc : RaisePc} (accepted : pc.accepted = r.pc.accepted) :=
    books.delivered_set found pc accepted
  unfold SoftIrq.raiser at ran
  cases place : r.pc with
  | save =>
    simp only [place] at ran
    split at ran <;> cases ran
    rename_i free
    refine ⟨sound.place found (by rw [place]; rfl) ?_, { books with delivered := ?_ }⟩
    · rw [Option.not_isSome_iff_eq_none] at free
      exact sound.masked.alone (.inr free) rfl (fun _ => rfl) trivial
    · exact same (by rw [place]; rfl)
  | loadHead =>
    simp only [place, Except.ok.injEq] at ran
    subst ran
    have mine := within (by rw [place]; rfl)
    refine ⟨sound.place found (by rw [place]; rfl) ?_, { books with delivered := ?_ }⟩
    · exact sound.masked.alone (.inl mine) rfl (fun _ => mine) rfl
    · exact same (by rw [place]; rfl)
  | loadTail head =>
    simp only [place, Except.ok.injEq] at ran
    subst ran
    have mine := within (by rw [place]; rfl)
    split
    · refine ⟨sound.place found (by rw [place]; rfl) ?_, { books with delivered := ?_ }⟩
      · exact sound.masked.alone (.inl mine) rfl (fun _ => mine) trivial
      · exact same (by rw [place]; rfl)
    · rename_i room
      refine ⟨sound.place found (by rw [place]; rfl) ?_, { books with delivered := ?_ }⟩
      · simp only [Raise.Knows, place] at knows
        subst knows
        rw [sound.subWord_eq] at room
        have free : s.published.length < s.taken.length + kFreeRtosSoftIrqSlots := by omega
        exact sound.masked.alone (.inl mine) rfl (fun _ => mine) ⟨rfl, free⟩
      · exact same (by rw [place]; rfl)
  | insert head =>
    simp only [place, Except.ok.injEq] at ran
    subst ran
    exact ⟨sound.insert found place, { books with delivered := same (by rw [place]; rfl) }⟩
  | publish head =>
    simp only [place, Except.ok.injEq] at ran
    subst ran
    refine ⟨sound.publish found place, { books with delivered := ?_ }⟩
    have moved := tally_set (w := Raise.delivery) found { r with pc := .restore true }
    have before : r.delivery = 0 := by simp [Raise.delivery, place, RaisePc.accepted]
    rw [before, add_zero, books.delivered] at moved
    simp only [advance, moved, Raise.delivery, RaisePc.accepted, if_true]
    rfl
  | restore accepted =>
    simp only [place, Except.ok.injEq] at ran
    subst ran
    have mine := within (by rw [place]; rfl)
    cases accepted with
    | false | true =>
      refine ⟨sound.place found (by rw [place]; rfl) ?_, { books with delivered := ?_ }⟩
      · exact sound.masked.alone (.inl mine) rfl (fun inside => by cases inside) trivial
      · exact same (by rw [place]; rfl)
  | give =>
    rw [place] at ran
    simp only [if_pos (not_le.mp (sound.give_below found place)), Except.ok.injEq] at ran
    subst ran
    refine ⟨sound.place found (by rw [place]; rfl) ?_, { books with delivered := ?_ }⟩
    · refine sound.masked.frame rfl rfl rfl rfl le_rfl ?_
      intro j q there inside
      rcases getElem?_of_set there with rfl | there
      · cases inside
      · exact there
    · exact same (by rw [place]; rfl)
  | returned => simp only [place, reduceCtorEq] at ran

theorem taker (sound : Sound s) (books : Books s) (ran : s.taker = .ok s') :
    Sound s' ∧ Books s' := by
  have taker := sound.taker
  unfold SoftIrq.taker at ran
  split at ran
  case h_1 => cases ran
  case h_2 place =>
    split at ran <;> cases ran
    refine ⟨sound.wait ?_ trivial, { books with }⟩
    rw [place]
    exact Nat.succ_pred_eq_of_ne_zero ‹_›
  case h_3 place =>
    cases ran
    refine ⟨sound.wait (by rw [place]; rfl) ?_, { books with }⟩
    exact ⟨_, sound.head, sound.unread (by rw [place]; rfl), le_rfl⟩
  case h_4 place =>
    rw [if_neg (sound.found_payload place)] at ran
    cases ran
    exact ⟨sound.wait (by rw [place]; rfl) rfl, { books with }⟩
  case h_5 tail place =>
    cases ran
    have unread := sound.unread (by rw [place]; rfl)
    rw [place] at taker
    refine ⟨sound.wait (by rw [place]; rfl) ⟨taker, ?_⟩, { books with }⟩
    have cell : tail % kFreeRtosSoftIrqSlots = s.taken.length % kFreeRtosSoftIrqSlots := by
      rw [taker, sound.tail]
      exact Nat.mod_mod_of_dvd _ (by decide)
    rw [cell, sound.cells _ le_rfl unread]
    simp [unread]
  case h_6 place =>
    cases ran
    refine ⟨sound.storeTail place _, { books with served := ?_, returned := ?_ }⟩
    · simp [books.served]
    · simp [books.returned, TakeReturn.taken]

theorem step (sound : Sound s) (books : Books s) (ran : step label s = .ok s') :
    Sound s' ∧ Books s' := by
  unfold SoftIrq.step at ran
  split at ran
  case h_1 =>
    cases ran
    refine ⟨{ sound with balance := ?_, masked := ?_, taker := sound.taker },
      { books with delivered := ?_ }⟩
    · simpa [giving, RaisePc.owes] using sound.balance
    · refine sound.masked.frame rfl rfl rfl rfl le_rfl ?_
      intro j q there inside
      rcases getElem?_of_append there with ⟨rfl, -⟩ | there
      · cases inside
      · exact there
    · rw [tally_append, books.delivered]
      simp [Raise.delivery, RaisePc.accepted]
  case h_2 =>
    split at ran
    · exact raiser sound books ‹_› ran
    · cases ran
  case h_3 =>
    split at ran <;> cases ran
    rename_i ready
    exact ⟨sound.wait (by rw [ready]; rfl) trivial, { books with }⟩
  case h_4 =>
    unfold timeout at ran
    split at ran
    case h_1 place =>
      split at ran <;> cases ran
      refine ⟨sound.wait (by rw [place]; rfl) trivial, { books with served := ?_, returned := ?_ }⟩
      · simp [books.served]
      · simp [books.returned, TakeReturn.taken]
    case h_2 => cases ran
  case h_5 => exact taker sound books ran

end SoftIrq.Books

theorem SoftIrq.sound_reached (run : Reaches step Always init s) : Sound s ∧ Books s := by
  apply run.invariant (P := fun s => Sound s ∧ Books s)
  · exact ⟨.init, .init⟩
  · rintro label s s' ⟨sound, books⟩ - ran
    exact books.step sound ran

/-- Tokens and payloads stay in step: every payload in the ring has a token in the semaphore,
on its way there or in the hand of the take. So no give is lost, no take with a token comes
away empty, and what was raised is taken once and in order. -/
theorem softirq_tokens_match_payloads {s : SoftIrq}
    (run : Reaches SoftIrq.step Always SoftIrq.init s) :
    s.count + s.giving + s.take.taking = subWord word32 s.head s.tail ∧
    subWord word32 s.head s.tail ≤ kFreeRtosSoftIrqSlots ∧
    s.lost = 0 ∧ TakeReturn.noPayload ∉ s.returns ∧
    (∀ head, s.take = .loadTail head → s.tail ≠ head) ∧
    s.returns.filterMap TakeReturn.taken <+: s.published ∧
    tally Raise.delivery s.raises = (s.published : Multiset Int32) := by
  obtain ⟨sound, books⟩ := SoftIrq.sound_reached run
  have balance := sound.balance
  have room := sound.room
  rw [sound.subWord_eq]
  refine ⟨by omega, by omega, books.lost, books.served, ?_, ?_, books.delivered⟩
  · intro head place
    exact sound.found_payload place
  · rw [books.returned, sound.order]
    exact List.take_prefix _ _

/-- A raise publishes, is overtaken by an interrupt's raise, and both give; one is taken. -/
def overtaken : SoftIrq :=
  outcome SoftIrq.step
    [.raise 5, .raiser 0, .raiser 0, .raiser 0, .raiser 0, .raiser 0, .raiser 0, .raise 6,
      .raiser 1, .raiser 1, .raiser 1, .raiser 1, .raiser 1, .raiser 1, .raiser 1, .take 0, .taker,
      .raiser 0, .taker, .taker, .taker, .taker] SoftIrq.init

theorem softirq_tokens_match_payloads_overtaken :
    overtaken.returns = [TakeReturn.payload 5] ∧ overtaken.published = [5, 6] ∧
    overtaken.count + overtaken.giving + overtaken.take.taking = 1 ∧
    tally Raise.delivery overtaken.raises = (([5, 6] : List Int32) : Multiset Int32) := by
  have published : overtaken.published = [5, 6] := by decide +kernel
  have inside : subWord word32 overtaken.head overtaken.tail = 1 := by decide +kernel
  obtain ⟨tokens, -, -, -, -, -, delivered⟩ :=
    softirq_tokens_match_payloads (s := overtaken) (reaches_outcome (by decide +kernel))
  exact ⟨by decide +kernel, published, tokens.trans inside, published ▸ delivered⟩

end Coact.FreeRtos
