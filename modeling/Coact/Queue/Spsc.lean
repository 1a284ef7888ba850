import Coact.Foundation.Sequence
import Coact.Foundation.Transition

/-! `SpscRing` (`spsc_ring.hpp`): one producer and one consumer, one access at a time. `head`
and `tail` are 16-bit words; a cell is raw storage until a value is constructed in it and
again once the value in it, moved from by then, is destroyed. -/
namespace Coact.Spsc
open Foundation Function

/-- `is_spsc_ring_config`, as far as the capacity goes. -/
structure RingConfig where
  capacity : Nat
  two_le : 2 ≤ capacity
  power : capacity &&& (capacity - 1) = 0
  capacity_le : capacity ≤ 0x7FFF

structure SpscRing (α : Type) where
  head : Nat
  tail : Nat
  cells : Nat → Option α

/-- How many values a 16-bit word has. -/
def word : Nat := 2 ^ 16

/-- `slot_at` -/
def RingConfig.slotAt (cfg : RingConfig) (seq : Nat) : Nat := seq &&& (cfg.capacity - 1)

/-- A call of `try_push` or of `try_push_observed`; `move` tells the overload. -/
structure PushCall (α : Type) where
  value : α
  observed : Bool
  move : Bool
  deriving DecidableEq, Repr

/-- The `size_after` of a `QueueResult`; `try_push` returns no size. -/
def PushCall.report {α : Type} (call : PushCall α) (n : Nat) : Option Nat :=
  if call.observed then some n else none

/-- What the producer has ahead of it, with its loads: the load of `tail`, the construction in
the cell, the store of `head`. -/
inductive ProducerPc (α : Type) where
  | idle
  | loadTail (call : PushCall α) (h : Nat)
  | construct (call : PushCall α) (h n : Nat)
  | storeHead (call : PushCall α) (h n : Nat)

/-- What the consumer has ahead of it: in `try_pop` the load of `head`, the move out of the
cell, the destruction of what is left there and the store of `tail`; in `size` the load of
`tail`. `before` is what the caller's variable held at the call. -/
inductive ConsumerPc (α : Type) where
  | idle
  | loadHead (before : Option α) (t : Nat)
  | moveOut (t : Nat)
  | destroy (t : Nat)
  | storeTail (t : Nat)
  | sizeTail (h : Nat)

/-- How a call returned, with what the caller's variable then held. `occupancy` is the number
of unread values: right after the store of `head`, at the load of `tail`, at the end of
`size`. -/
inductive Return (α : Type) where
  | pushed (call : PushCall α) (source : Option α) (sizeAfter : Option Nat) (occupancy : Nat)
  | refused (call : PushCall α) (source : Option α) (sizeAfter : Option Nat) (occupancy : Nat)
  | popped (out : Option α)
  | empty (before out : Option α)
  | size (n occupancy : Nat)
  deriving DecidableEq, Repr

/-- `source` is the caller's variable of a push, `none` once it is moved from, and `out` that
of a pop. Kept for the proofs: the values whose push has stored `head`, those whose pop has
stored `tail`, and the returns. -/
structure Channel (α : Type) where
  ring : SpscRing α
  producer : ProducerPc α
  consumer : ConsumerPc α
  source : Option α
  out : Option α
  pushed : List α
  popped : List α
  returns : List (Return α)

inductive Label (α : Type) where
  | push (call : PushCall α)
  | produce
  | pop (out : Option α)
  | size
  | consume

inductive Refusal where
  | busy | idle

variable {α : Type}

namespace Channel

def initial : Channel α := ⟨⟨0, 0, fun _ => none⟩, .idle, .idle, none, none, [], [], []⟩

/-- The unread values, oldest first. -/
def contents (s : Channel α) : List α := s.pushed.drop s.popped.length

def occupancy (s : Channel α) : Nat := s.contents.length

/-- One access of the producer. -/
def produce (cfg : RingConfig) (s : Channel α) : Except Refusal (Channel α) :=
  match s.producer with
  | .idle => .error .idle
  | .loadTail call h =>
    let n := subWord word h s.ring.tail
    if cfg.capacity ≤ n then
      .ok { s with
        producer := .idle
        returns := s.returns ++ [Return.refused call s.source (call.report n) s.occupancy] }
    else .ok { s with producer := .construct call h n }
  | .construct call h n => .ok { s with
      ring := { s.ring with
        cells := update s.ring.cells (cfg.slotAt h) (some call.value) }
      source := if call.move then none else s.source
      producer := .storeHead call h n }
  | .storeHead call h n => .ok { s with
      ring := { s.ring with head := (h + 1) % word }
      producer := .idle
      pushed := s.pushed ++ [call.value]
      returns := s.returns ++
        [Return.pushed call s.source (call.report ((n + 1) % word)) (s.occupancy + 1)] }

/-- One access of the consumer. -/
def consume (cfg : RingConfig) (s : Channel α) : Except Refusal (Channel α) :=
  match s.consumer with
  | .idle => .error .idle
  | .loadHead before t =>
    if t = s.ring.head then
      .ok { s with consumer := .idle, returns := s.returns ++ [Return.empty before s.out] }
    else .ok { s with consumer := .moveOut t }
  | .moveOut t => .ok { s with out := s.ring.cells (cfg.slotAt t), consumer := .destroy t }
  | .destroy t => .ok { s with
      ring := { s.ring with cells := update s.ring.cells (cfg.slotAt t) none }
      consumer := .storeTail t }
  | .storeTail t => .ok { s with
      ring := { s.ring with tail := (t + 1) % word }
      consumer := .idle
      popped := s.popped ++ s.out.toList
      returns := s.returns ++ [Return.popped s.out] }
  | .sizeTail h =>
    let n := subWord word h s.ring.tail
    .ok { s with
      consumer := .idle
      returns := s.returns ++
        [Return.size (if cfg.capacity < n then cfg.capacity else n) s.occupancy] }

def step (cfg : RingConfig) : Label α → Channel α → Except Refusal (Channel α)
  | .push call, s =>
    match s.producer with
    | .idle => .ok { s with source := some call.value, producer := .loadTail call s.ring.head }
    | _ => .error .busy
  | .produce, s => s.produce cfg
  | .pop out, s =>
    match s.consumer with
    | .idle => .ok { s with out := out, consumer := .loadHead out s.ring.tail }
    | _ => .error .busy
  | .size, s =>
    match s.consumer with
    | .idle => .ok { s with consumer := .sizeTail s.ring.head }
    | _ => .error .busy
  | .consume, s => s.consume cfg

end Channel

namespace RingConfig
variable (cfg : RingConfig)

theorem exists_power : ∃ k, cfg.capacity = 2 ^ k := by
  have positive : cfg.capacity ≠ 0 := by
    have := cfg.two_le
    omega
  exact (Nat.and_sub_one_eq_zero_iff_isPowerOfTwo positive).mp cfg.power

/-- The capacity divides the range of the words, so a word finds the cell of its number. -/
theorem slotAt_word (q : Nat) : cfg.slotAt (q % word) = q % cfg.capacity := by
  obtain ⟨k, power⟩ := cfg.exists_power
  have small : k ≤ 16 := by
    by_contra large
    have huge : 2 ^ 17 ≤ 2 ^ k := Nat.pow_le_pow_right (by decide) (by omega)
    have bound := cfg.capacity_le
    omega
  rw [slotAt, power, Nat.and_two_pow_sub_one_eq_mod]
  apply Nat.mod_mod_of_dvd
  exact Nat.pow_dvd_pow 2 small

theorem capacity_lt_word : cfg.capacity < word := by
  have bound := cfg.capacity_le
  unfold word
  omega

end RingConfig

/-! A bounded FIFO, and the operation of it that a return stands for. -/

inductive Outcome (α : Type) where
  | pushed (value : α)
  | full
  | popped (value : α)
  | empty

/-- The FIFO of the given capacity can answer so, starting empty, and then holds `queue`. -/
inductive Fifo (capacity : Nat) : List (Outcome α) → List α → Prop where
  | start : Fifo capacity [] []
  | push {answers : List (Outcome α)} {queue : List α} (value : α)
      (before : Fifo capacity answers queue) (room : queue.length < capacity) :
      Fifo capacity (answers ++ [Outcome.pushed value]) (queue ++ [value])
  | full {answers : List (Outcome α)} {queue : List α}
      (before : Fifo capacity answers queue) (filled : queue.length = capacity) :
      Fifo capacity (answers ++ [Outcome.full]) queue
  | pop {answers : List (Outcome α)} {queue : List α} (value : α)
      (before : Fifo capacity answers (value :: queue)) :
      Fifo capacity (answers ++ [Outcome.popped value]) queue
  | empty {answers : List (Outcome α)} (before : Fifo capacity answers []) :
      Fifo capacity (answers ++ [Outcome.empty]) []

/-- A `size` is no operation of the FIFO. -/
def Return.outcome : Return α → Option (Outcome α)
  | .pushed call _ _ _ => some (.pushed call.value)
  | .refused .. => some .full
  | .popped out => out.map .popped
  | .empty .. => some .empty
  | .size .. => none

/-- A return tells the truth: about the caller's variable, which a push consumes only by a
successful move, and about how full the ring was. -/
def Return.Right (cfg : RingConfig) : Return α → Prop
  | .pushed call source sizeAfter occupancy =>
    source = (if call.move then none else some call.value) ∧
      ∀ n ∈ sizeAfter, 1 ≤ n ∧ n ≤ cfg.capacity ∧ occupancy ≤ n
  | .refused call source sizeAfter occupancy =>
    source = some call.value ∧ occupancy = cfg.capacity ∧ ∀ n ∈ sizeAfter, n = cfg.capacity
  | .popped out => out.isSome
  | .empty before out => out = before
  | .size n occupancy => n ≤ occupancy

/-- The value that is constructed in its cell and not yet behind `head`. -/
def ProducerPc.constructed : ProducerPc α → Option α
  | .storeHead call _ _ => some call.value
  | _ => none

def ConsumerPc.destroyed : ConsumerPc α → Bool
  | .storeTail _ => true
  | _ => false

/-- What the cell of number `q` holds, for the numbers that have a cell. -/
def Channel.occupant (s : Channel α) (q : Nat) : Option α :=
  if s.consumer.destroyed ∧ q = s.popped.length then none
  else (s.pushed ++ s.producer.constructed.toList)[q]?

/-- What the producer knows between two accesses. The consumer may have taken values since
`n` was computed, so `n` is an upper bound. -/
def ProducerPc.Knows (cfg : RingConfig) (s : Channel α) : ProducerPc α → Prop
  | .idle => True
  | .loadTail call h => h = s.ring.head ∧ s.source = some call.value
  | .construct call h n =>
    h = s.ring.head ∧ n < cfg.capacity ∧ s.occupancy ≤ n ∧ s.source = some call.value
  | .storeHead call h n =>
    h = s.ring.head ∧ n < cfg.capacity ∧ s.occupancy ≤ n ∧
      s.source = if call.move then none else some call.value

/-- What the consumer knows between two accesses. -/
def ConsumerPc.Knows (s : Channel α) : ConsumerPc α → Prop
  | .idle => True
  | .loadHead before t => t = s.ring.tail ∧ s.out = before
  | .moveOut t => t = s.ring.tail ∧ s.popped.length < s.pushed.length
  | .destroy t | .storeTail t =>
    t = s.ring.tail ∧ s.popped.length < s.pushed.length ∧ s.out = s.pushed[s.popped.length]?
  | .sizeTail h => ∃ k, h = k % word ∧ s.popped.length ≤ k ∧ k ≤ s.pushed.length

structure Sound (cfg : RingConfig) (s : Channel α) : Prop where
  order : s.popped = s.pushed.take s.popped.length
  le : s.popped.length ≤ s.pushed.length
  room : s.pushed.length ≤ s.popped.length + cfg.capacity
  head : s.ring.head = s.pushed.length % word
  tail : s.ring.tail = s.popped.length % word
  producer : s.producer.Knows cfg s
  consumer : s.consumer.Knows s
  cells : Covers s.ring.cells cfg.capacity s.popped.length (s.popped.length + cfg.capacity)
    s.occupant

namespace Channel
variable {cfg : RingConfig} {s : Channel α}

theorem occupancy_eq : s.occupancy = s.pushed.length - s.popped.length := List.length_drop

theorem occupant_eq {t : Channel α} (popped : t.popped = s.popped)
    (destroyed : t.consumer.destroyed = s.consumer.destroyed)
    (values : t.pushed ++ t.producer.constructed.toList =
      s.pushed ++ s.producer.constructed.toList) : t.occupant = s.occupant := by
  funext q
  simp only [occupant, popped, destroyed, values]

end Channel

section
variable {cfg : RingConfig}

theorem ProducerPc.Knows.frame {p : ProducerPc α} (knows : p.Knows cfg s)
    (head : s'.ring.head = s.ring.head) (source : s'.source = s.source)
    (fewer : s'.occupancy ≤ s.occupancy) : p.Knows cfg s' := by
  cases p with
  | idle => trivial
  | loadTail =>
    obtain ⟨loaded, kept⟩ := knows
    exact ⟨loaded.trans head.symm, source.trans kept⟩
  | construct | storeHead =>
    obtain ⟨loaded, room, bound, kept⟩ := knows
    exact ⟨loaded.trans head.symm, room, fewer.trans bound, source.trans kept⟩

theorem ConsumerPc.Knows.frame {c : ConsumerPc α} (knows : c.Knows s)
    (tail : s'.ring.tail = s.ring.tail) (out : s'.out = s.out) (popped : s'.popped = s.popped)
    (pushed : s.pushed <+: s'.pushed) : c.Knows s' := by
  have more := pushed.length_le
  cases c with
  | idle => trivial
  | loadHead =>
    obtain ⟨loaded, kept⟩ := knows
    exact ⟨loaded.trans tail.symm, out.trans kept⟩
  | moveOut =>
    obtain ⟨loaded, unread⟩ := knows
    exact ⟨loaded.trans tail.symm, popped ▸ unread.trans_le more⟩
  | destroy | storeTail =>
    obtain ⟨loaded, unread, value⟩ := knows
    refine ⟨loaded.trans tail.symm, popped ▸ unread.trans_le more, ?_⟩
    obtain ⟨rest, pushed⟩ := pushed
    rw [out, value, popped, ← pushed, List.getElem?_append_left unread]
  | sizeTail =>
    obtain ⟨k, loaded, first, last⟩ := knows
    exact ⟨k, loaded, popped ▸ first, last.trans more⟩

end

namespace Sound
variable {cfg : RingConfig} {s s' : Channel α}

theorem initial : Sound cfg (Channel.initial : Channel α) := by
  constructor
  case order | le | head | tail => rfl
  case room => exact Nat.zero_le _
  case producer | consumer => trivial
  case cells =>
    intro q first below
    rfl

theorem subWord_eq (sound : Sound cfg s) (first : s.popped.length ≤ k)
    (last : k ≤ s.pushed.length) : subWord word (k % word) s.ring.tail = k - s.popped.length := by
  rw [sound.tail]
  apply subWord_mod first
  have room := sound.room
  have bound := cfg.capacity_lt_word
  omega

theorem subWord_head (sound : Sound cfg s) : subWord word s.ring.head s.ring.tail = s.occupancy := by
  rw [sound.head, sound.subWord_eq sound.le le_rfl, Channel.occupancy_eq]

theorem occupancy_le (sound : Sound cfg s) : s.occupancy ≤ cfg.capacity := by
  have room := sound.room
  rw [Channel.occupancy_eq]
  omega

theorem unread (sound : Sound cfg s) (other : s.ring.tail ≠ s.ring.head) :
    s.popped.length < s.pushed.length := by
  apply Nat.lt_of_le_of_ne sound.le
  intro same
  exact other (by rw [sound.tail, sound.head, same])

theorem empty (sound : Sound cfg s) (same : s.ring.tail = s.ring.head) : s.contents = [] := by
  have none : s.occupancy = 0 := by
    rw [← sound.subWord_head, same]
    simp [subWord]
  exact List.eq_nil_of_length_eq_zero none

open ProducerPc

variable {call : PushCall α}

section
variable (sound : Sound cfg s)
include sound

theorem raw {h n : Nat} (here : s.producer = .construct call h n) :
    s.ring.cells (cfg.slotAt h) = none := by
  have knows := sound.producer
  rw [here] at knows
  obtain ⟨rfl, room, bound, -⟩ := knows
  rw [Channel.occupancy_eq] at bound
  have le := sound.le
  rw [sound.head, cfg.slotAt_word, sound.cells _ le (by omega), Channel.occupant, here]
  simp [constructed]

theorem value (here : s.consumer = .moveOut t) :
    s.ring.cells (cfg.slotAt t) = s.pushed[s.popped.length]? := by
  have knows := sound.consumer
  rw [here] at knows
  obtain ⟨rfl, unread⟩ := knows
  have two := cfg.two_le
  rw [sound.tail, cfg.slotAt_word, sound.cells _ le_rfl (by omega), Channel.occupant, here]
  simp [ConsumerPc.destroyed, List.getElem?_append_left unread]

theorem destroyed_lt (destroyed : s.consumer.destroyed) : s.popped.length < s.pushed.length := by
  have knows := sound.consumer
  cases here : s.consumer with
  | storeTail =>
    rw [here] at knows
    exact knows.2.1
  | _ =>
    simp only [here, ConsumerPc.destroyed, Bool.false_eq_true] at destroyed

theorem constructed_le :
    (s.pushed ++ s.producer.constructed.toList).length ≤ s.popped.length + cfg.capacity := by
  have knows := sound.producer
  cases here : s.producer with
  | storeHead call h n =>
    rw [here] at knows
    obtain ⟨-, room, bound, -⟩ := knows
    rw [Channel.occupancy_eq] at bound
    simp only [constructed, List.length_append, Option.toList_some,
      List.length_singleton]
    omega
  | idle | loadTail | construct =>
    simpa [constructed] using sound.room

theorem construct {h n : Nat} (here : s.producer = .construct call h n) :
    Sound cfg { s with
      ring := { s.ring with
        cells := update s.ring.cells (cfg.slotAt h) (some call.value) }
      source := if call.move then none else s.source
      producer := .storeHead call h n } := by
  have knows := sound.producer
  rw [here] at knows
  obtain ⟨loaded, room, bound, kept⟩ := knows
  have unread : s.pushed.length < s.popped.length + cfg.capacity := by
    rw [Channel.occupancy_eq] at bound
    omega
  refine { sound with producer := ?_, consumer := ?_, cells := ?_ }
  · refine ⟨loaded, room, bound, ?_⟩
    simp only [kept]
  · exact sound.consumer.frame rfl rfl rfl (List.prefix_refl _)
  · rw [loaded, sound.head, cfg.slotAt_word]
    apply sound.cells.write le_rfl sound.le unread
    · intro q first below other
      simp only [Channel.occupant, here, constructed, Option.toList_none,
        List.append_nil, Option.toList_some]
      grind
    · simp only [Channel.occupant, constructed, Option.toList_some]
      rw [if_neg, List.getElem?_concat_length]
      intro both
      exact Nat.ne_of_gt (sound.destroyed_lt both.1) both.2

theorem storeHead {h n : Nat} (here : s.producer = .storeHead call h n)
    (returns : List (Return α)) : Sound cfg { s with
      ring := { s.ring with head := (h + 1) % word }
      producer := .idle
      pushed := s.pushed ++ [call.value]
      returns := returns } := by
  have knows := sound.producer
  rw [here] at knows
  obtain ⟨loaded, room, bound, -⟩ := knows
  rw [Channel.occupancy_eq] at bound
  have le := sound.le
  constructor
  case order =>
    simp only [List.take_append_of_le_length le]
    exact sound.order
  case le =>
    rw [List.length_append]
    exact Nat.le_add_right_of_le le
  case room =>
    rw [List.length_append, List.length_singleton]
    show s.pushed.length + 1 ≤ s.popped.length + cfg.capacity
    omega
  case head =>
    simp [loaded, sound.head, succ_mod]
  case tail => exact sound.tail
  case producer => trivial
  case consumer => exact sound.consumer.frame rfl rfl rfl (List.prefix_append ..)
  case cells =>
    have same := Channel.occupant_eq (s := s) (t := { s with
      ring := { s.ring with head := (h + 1) % word }
      producer := .idle
      pushed := s.pushed ++ [call.value]
      returns := returns }) rfl rfl (by simp [here, constructed])
    rw [same]
    exact sound.cells

theorem destroy (here : s.consumer = .destroy t) :
    Sound cfg { s with
      ring := { s.ring with cells := update s.ring.cells (cfg.slotAt t) none }
      consumer := .storeTail t } := by
  have knows := sound.consumer
  rw [here] at knows
  have two := cfg.two_le
  refine { sound with producer := ?_, consumer := ?_, cells := ?_ }
  · exact sound.producer.frame rfl rfl le_rfl
  · exact knows
  · rw [knows.1, sound.tail, cfg.slotAt_word]
    apply sound.cells.write le_rfl le_rfl (by omega)
    · intro q first below other
      simp [Channel.occupant, here, ConsumerPc.destroyed, other]
    · exact if_pos ⟨rfl, rfl⟩

theorem storeTail (here : s.consumer = .storeTail t) (returns : List (Return α)) :
    Sound cfg { s with
      ring := { s.ring with tail := (t + 1) % word }
      consumer := .idle
      popped := s.popped ++ s.out.toList
      returns := returns } := by
  have knows := sound.consumer
  rw [here] at knows
  obtain ⟨loaded, unread, value⟩ := knows
  have longer : (s.popped ++ s.out.toList).length = s.popped.length + 1 := by
    simp [value, unread]
  have room := sound.room
  constructor
  case order =>
    simp only [longer]
    rw [List.take_add_one, ← sound.order, value]
  case le => exact longer ▸ unread
  case room =>
    show s.pushed.length ≤ (s.popped ++ s.out.toList).length + cfg.capacity
    omega
  case head => exact sound.head
  case tail => simp only [loaded, sound.tail, succ_mod, longer]
  case producer =>
    refine sound.producer.frame rfl rfl ?_
    simp only [Channel.occupancy_eq, longer]
    omega
  case consumer => trivial
  case cells =>
    simp only [longer]
    apply sound.cells.shift
    · intro q first below
      simp only [Channel.occupant, here, ConsumerPc.destroyed]
      grind
    · have last := sound.constructed_le
      simp only [Channel.occupant, here, ConsumerPc.destroyed, List.getElem?_eq_none last]
      simp

theorem producing {source : Option α} {producer : ProducerPc α}
    {returns : List (Return α)} (same : producer.constructed = s.producer.constructed)
    (knows : producer.Knows cfg { s with source, producer, returns }) :
    Sound cfg { s with source, producer, returns } := by
  refine { sound with producer := knows, consumer := ?_, cells := ?_ }
  · exact sound.consumer.frame rfl rfl rfl (List.prefix_refl _)
  · have kept := Channel.occupant_eq (s := s) (t := { s with source, producer, returns }) rfl rfl
      (by rw [same])
    exact kept ▸ sound.cells

theorem consuming {out : Option α} {consumer : ConsumerPc α}
    {returns : List (Return α)} (same : consumer.destroyed = s.consumer.destroyed)
    (knows : consumer.Knows { s with out, consumer, returns }) :
    Sound cfg { s with out, consumer, returns } := by
  refine { sound with producer := ?_, consumer := knows, cells := ?_ }
  · exact sound.producer.frame rfl rfl le_rfl
  · have kept := Channel.occupant_eq (s := s) (t := { s with out, consumer, returns }) rfl same rfl
    exact kept ▸ sound.cells

end

end Sound

/-- The returns so far are those of a FIFO that now holds the unread values. -/
structure Answered (cfg : RingConfig) (s : Channel α) : Prop where
  fifo : Fifo cfg.capacity (s.returns.filterMap Return.outcome) s.contents
  right : ∀ r ∈ s.returns, r.Right cfg

namespace Answered
variable {cfg : RingConfig} {s s' : Channel α}

theorem initial : Answered cfg (Channel.initial : Channel α) := by
  constructor
  · exact Fifo.start
  · intro r listed
    cases listed

theorem quiet (answered : Answered cfg s) (contents : s'.contents = s.contents)
    (returns : s'.returns = s.returns) : Answered cfg s' := by
  constructor
  · rw [contents, returns]
    exact answered.fifo
  · rw [returns]
    exact answered.right

theorem record (answered : Answered cfg s) (returns : s'.returns = s.returns ++ [r])
    (fifo : Fifo cfg.capacity (s.returns.filterMap Return.outcome ++ r.outcome.toList) s'.contents)
    (right : r.Right cfg) : Answered cfg s' := by
  constructor
  · rw [returns, List.filterMap_append]
    cases here : r.outcome with
    | none => simpa [here] using fifo
    | some => simpa [here] using fifo
  · intro q listed
    rw [returns, List.mem_append, List.mem_singleton] at listed
    rcases listed with earlier | rfl
    · exact answered.right q earlier
    · exact right

theorem produce (sound : Sound cfg s) (answered : Answered cfg s)
    (ran : s.produce cfg = .ok s') : Sound cfg s' ∧ Answered cfg s' := by
  have producer := sound.producer
  unfold Channel.produce at ran
  cases here : s.producer with
  | idle => simp only [here, reduceCtorEq] at ran
  | loadTail call h =>
    rw [here] at producer
    obtain ⟨rfl, kept⟩ := producer
    simp only [here, sound.subWord_head] at ran
    split at ran <;> cases ran
    · have full : s.occupancy = cfg.capacity := Nat.le_antisymm sound.occupancy_le ‹_›
      refine ⟨sound.producing (by rw [here]; rfl) trivial, ?_⟩
      refine answered.record rfl (answered.fifo.full full) ⟨kept, full, ?_⟩
      intro n reported
      unfold PushCall.report at reported
      grind
    · have room : s.occupancy < cfg.capacity := not_le.mp ‹_›
      exact ⟨sound.producing (by rw [here]; rfl) ⟨rfl, room, le_rfl, kept⟩,
        answered.quiet rfl rfl⟩
  | construct =>
    simp only [here, Except.ok.injEq] at ran
    subst ran
    exact ⟨sound.construct here, answered.quiet rfl rfl⟩
  | storeHead call h n =>
    simp only [here, Except.ok.injEq] at ran
    subst ran
    rw [here] at producer
    obtain ⟨-, less, bound, kept⟩ := producer
    refine ⟨sound.storeHead here _, answered.record rfl ?_ ⟨kept, ?_⟩⟩
    · have grown := answered.fifo.push call.value (bound.trans_lt less)
      rwa [Channel.contents, ← List.drop_append_of_le_length sound.le] at grown
    · intro m reported
      have narrow := cfg.capacity_lt_word
      have whole : (n + 1) % word = n + 1 := Nat.mod_eq_of_lt (by omega)
      unfold PushCall.report at reported
      grind

theorem consume (sound : Sound cfg s) (answered : Answered cfg s)
    (ran : s.consume cfg = .ok s') : Sound cfg s' ∧ Answered cfg s' := by
  have consumer := sound.consumer
  unfold Channel.consume at ran
  cases here : s.consumer with
  | idle => simp only [here, reduceCtorEq] at ran
  | loadHead =>
    rw [here] at consumer
    obtain ⟨rfl, kept⟩ := consumer
    simp only [here] at ran
    split at ran <;> cases ran
    · refine ⟨sound.consuming (by rw [here]; rfl) trivial, answered.record rfl ?_ kept⟩
      have none := sound.empty ‹_›
      have fifo := answered.fifo
      rw [none] at fifo
      have done := fifo.empty
      rwa [← none] at done
    · exact ⟨sound.consuming (by rw [here]; rfl) ⟨rfl, sound.unread ‹_›⟩, answered.quiet rfl rfl⟩
  | moveOut =>
    simp only [here, Except.ok.injEq] at ran
    subst ran
    have value := sound.value here
    rw [here] at consumer
    exact ⟨sound.consuming (by rw [here]; rfl) ⟨consumer.1, consumer.2, value⟩,
      answered.quiet rfl rfl⟩
  | destroy =>
    simp only [here, Except.ok.injEq] at ran
    subst ran
    exact ⟨sound.destroy here, answered.quiet rfl rfl⟩
  | storeTail =>
    simp only [here, Except.ok.injEq] at ran
    subst ran
    rw [here] at consumer
    obtain ⟨-, unread, value⟩ := consumer
    obtain ⟨v, taken⟩ : ∃ v, s.out = some v := ⟨_, value.trans (List.getElem?_eq_getElem unread)⟩
    refine ⟨sound.storeTail here _, answered.record rfl ?_ (by simp [Return.Right, taken])⟩
    have first : s.contents = v :: s.pushed.drop (s.popped.length + 1) := by
      rw [Channel.contents, List.drop_eq_getElem?_toList_append, ← value, taken]
      rfl
    have fifo := answered.fifo
    rw [first] at fifo
    simpa [Return.outcome, taken, Channel.contents] using fifo.pop
  | sizeTail h =>
    simp only [here, Except.ok.injEq] at ran
    subst ran
    rw [here] at consumer
    obtain ⟨k, rfl, first, last⟩ := consumer
    refine ⟨sound.consuming (by rw [here]; rfl) trivial, answered.record rfl ?_ ?_⟩
    · simpa [Return.outcome, Channel.contents] using answered.fifo
    · have room := sound.occupancy_le
      have small : k - s.popped.length ≤ s.occupancy := by
        rw [Channel.occupancy_eq]
        omega
      rw [sound.subWord_eq first last, if_neg (by omega)]
      exact small

theorem step (sound : Sound cfg s) (answered : Answered cfg s)
    (ran : s.step cfg l = .ok s') : Sound cfg s' ∧ Answered cfg s' := by
  unfold Channel.step at ran
  split at ran
  case h_1 =>
    split at ran <;> cases ran
    rename_i ready
    exact ⟨sound.producing (by rw [ready]; rfl) ⟨rfl, rfl⟩, answered.quiet rfl rfl⟩
  case h_2 => exact produce sound answered ran
  case h_3 =>
    split at ran <;> cases ran
    rename_i ready
    exact ⟨sound.consuming (by rw [ready]; rfl) ⟨rfl, rfl⟩, answered.quiet rfl rfl⟩
  case h_4 =>
    split at ran <;> cases ran
    rename_i ready
    exact ⟨sound.consuming (by rw [ready]; rfl) ⟨_, sound.head, sound.le, le_rfl⟩,
      answered.quiet rfl rfl⟩
  case h_5 => exact consume sound answered ran

end Answered

variable {cfg : RingConfig} {s : Channel α}

theorem sound_reached (run : Reaches (Channel.step cfg) Always Channel.initial s) :
    Sound cfg s ∧ Answered cfg s := by
  apply run.invariant (P := fun s => Sound cfg s ∧ Answered cfg s)
  · exact ⟨.initial, .initial⟩
  · rintro label s s' ⟨sound, answered⟩ - ran
    exact answered.step sound ran

/-- The access is one behind the check of its call, for room or for a value. -/
def Channel.Commits (s : Channel α) : Label α → Prop
  | .produce => ∃ call h n, s.producer = .construct call h n ∨ s.producer = .storeHead call h n
  | .consume => ∃ t, s.consumer = .moveOut t ∨ s.consumer = .destroy t ∨ s.consumer = .storeTail t
  | _ => False

def Return.failed : Return α → Bool
  | .refused .. | .empty .. => true
  | _ => false

/-- A call changes the ring only behind its check, and from there it does not fail. -/
theorem Channel.step_commits (ran : s.step cfg l = .ok s') :
    (¬ s.Commits l → s'.ring = s.ring) ∧
      (s.Commits l → ∀ r ∈ s'.returns, r ∈ s.returns ∨ r.failed = false) := by
  have appended {new : Return α} (well : new.failed = false) (r : Return α)
      (listed : r ∈ s.returns ++ [new]) : r ∈ s.returns ∨ r.failed = false := by
    rcases List.mem_append.mp listed with earlier | last
    · exact .inl earlier
    · exact .inr (List.mem_singleton.mp last ▸ well)
  cases l with
  | push | pop | size =>
    simp only [step] at ran
    split at ran <;> cases ran
    exact ⟨fun _ => rfl, False.elim⟩
  | produce =>
    simp only [step, produce] at ran
    split at ran
    case h_1 => cases ran
    case h_2 here =>
      split at ran <;> cases ran
      all_goals
        refine ⟨fun _ => rfl, ?_⟩
        simp [Commits, here]
    case h_3 here =>
      cases ran
      exact ⟨fun open' => absurd ⟨_, _, _, .inl here⟩ open', fun _ _ => .inl⟩
    case h_4 here =>
      cases ran
      exact ⟨fun open' => absurd ⟨_, _, _, .inr here⟩ open', fun _ => appended rfl⟩
  | consume =>
    simp only [step, consume] at ran
    split at ran
    case h_1 => cases ran
    case h_2 here =>
      split at ran <;> cases ran
      all_goals
        refine ⟨fun _ => rfl, ?_⟩
        simp [Commits, here]
    case h_3 =>
      cases ran
      exact ⟨fun _ => rfl, fun _ _ => .inl⟩
    case h_4 here =>
      cases ran
      exact ⟨fun open' => absurd ⟨_, .inr (.inl here)⟩ open', fun _ _ => .inl⟩
    case h_5 here =>
      cases ran
      exact ⟨fun open' => absurd ⟨_, .inr (.inr here)⟩ open', fun _ => appended rfl⟩
    case h_6 =>
      cases ran
      exact ⟨fun _ => rfl, fun _ => appended rfl⟩

/-- The unread values are in their cells, but for the one whose destruction its pop has
behind it. -/
theorem Sound.unread_kept (sound : Sound cfg s) (unread : q < s.occupancy)
    (kept : s.consumer.destroyed → 0 < q) :
    s.ring.cells (cfg.slotAt ((s.popped.length + q) % word)) = s.contents[q]? := by
  have room := sound.room
  rw [Channel.occupancy_eq] at unread
  rw [cfg.slotAt_word, sound.cells _ (Nat.le_add_right _ _) (by omega), Channel.occupant, if_neg]
  · rw [Channel.contents, List.getElem?_drop, List.getElem?_append_left (by omega)]
  · rintro ⟨destroyed, first⟩
    have later := kept destroyed
    omega

/-- The ring is a bounded FIFO: in every state of every run the returns are those of a FIFO
that now holds the unread values, the popped values are the first of the pushed ones, no value
is constructed over another, the unread ones are all in their cells, and a call that fails has
left the ring and its caller's variable alone. -/
theorem spsc_refines_fifo (cfg : RingConfig) {s : Channel α}
    (run : Reaches (Channel.step cfg) Always Channel.initial s) :
    Fifo cfg.capacity (s.returns.filterMap Return.outcome) s.contents ∧
    s.popped <+: s.pushed ∧ s.occupancy ≤ cfg.capacity ∧
    (∀ call h n, s.producer = .construct call h n → s.ring.cells (cfg.slotAt h) = none) ∧
    (∀ q < s.occupancy, (s.consumer.destroyed → 0 < q) →
      s.ring.cells (cfg.slotAt ((s.popped.length + q) % word)) = s.contents[q]?) ∧
    (∀ l s', s.step cfg l = .ok s' → (¬ s.Commits l → s'.ring = s.ring) ∧
      (s.Commits l → ∀ r ∈ s'.returns, r ∈ s.returns ∨ r.failed = false)) ∧
    ∀ r ∈ s.returns, r.Right cfg := by
  obtain ⟨sound, answered⟩ := sound_reached run
  refine ⟨answered.fifo, ?_, sound.occupancy_le, ?_, ?_, ?_, answered.right⟩
  · rw [sound.order]
    exact List.take_prefix _ _
  · intro call h n here
    exact sound.raw here
  · intro q unread kept
    exact sound.unread_kept unread kept
  · intro l s' ran
    exact Channel.step_commits ran

def pairConfig : RingConfig where
  capacity := 2
  two_le := le_rfl
  power := rfl
  capacity_le := by decide

/-- A third push finds two values; a pop that began earlier then takes the first. -/
def thirdRefused : Channel Nat :=
  outcome (Channel.step pairConfig)
    [.push ⟨7, true, false⟩, .produce, .produce, .pop none, .produce, .consume,
      .push ⟨8, true, true⟩, .produce, .produce, .produce, .consume, .consume,
      .push ⟨9, true, true⟩, .produce, .consume] Channel.initial

theorem spsc_refines_fifo_third : thirdRefused.popped = [7] ∧ thirdRefused.pushed = [7, 8] ∧
    Return.refused ⟨9, true, true⟩ (some 9) (some 2) 2 ∈ thirdRefused.returns ∧
    Fifo 2 (thirdRefused.returns.filterMap Return.outcome) thirdRefused.contents := by
  refine ⟨by decide, by decide, by decide, ?_⟩
  exact (spsc_refines_fifo pairConfig (reaches_outcome (by decide))).1

end Coact.Spsc
