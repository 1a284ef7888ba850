import Mathlib.Data.Nat.Bitwise
import Coact.Config
import Coact.Foundation.Program
import Coact.Foundation.Transition

/-! `AdmissionSnapshotRing` (`monitor.hpp`): producers record rejections in the slots
of a fixed ring, readers look one up by its sequence number. Every atomic load,
store and read-modify-write is a step of its own; the order is sequentially
consistent. `size_t` has 64 bits, so a sequence number keeps its value as an index.
A ring without slots is the disabled specialisation. -/
namespace Coact
open Foundation

/-- `static_cast<uint8_t>` of a disposition. -/
def SubmitDisposition.code : SubmitDisposition → UInt8
  | .Direct => 0
  | .Queued => 1
  | .Merged => 2
  | .DroppedPolicy => 3
  | .DroppedRateLimit => 4
  | .DroppedOverload => 5
  | .RejectedFull => 6
  | .RejectedState => 7

inductive SnapshotError where
  | kEmpty | kOutOfRange | kEvicted | kTorn | kDisabled
  deriving DecidableEq, Repr

namespace Snapshot

/-- The fields of a slot that a record fills. -/
structure Fields where
  target : UInt8
  disposition : UInt8
  reason : UInt16
  nowNs : UInt64
  budgetNs : UInt64
  deriving DecidableEq, Repr

structure AdmissionSnapshot extends Fields where
  seq : Nat
  deriving DecidableEq, Repr

/-- The arguments of `record`. -/
structure Rejection where
  target : TargetId
  disposition : SubmitDisposition
  reason : UInt16
  nowNs : UInt64
  budgetNs : UInt64

def Rejection.fields (r : Rejection) : Fields :=
  ⟨r.target.raw, r.disposition.code, r.reason, r.nowNs, r.budgetNs⟩

/-- The fields in the order in which they are stored and loaded. -/
inductive Field where
  | target | disposition | reason | nowNs | budgetNs

def Field.next : Field → Option Field
  | .target => some .disposition
  | .disposition => some .reason
  | .reason => some .nowNs
  | .nowNs => some .budgetNs
  | .budgetNs => none

/-- Copy one field. -/
def Fields.copy (src dst : Fields) : Field → Fields
  | .target => { dst with target := src.target }
  | .disposition => { dst with disposition := src.disposition }
  | .reason => { dst with reason := src.reason }
  | .nowNs => { dst with nowNs := src.nowNs }
  | .budgetNs => { dst with budgetNs := src.budgetNs }

def Fields.zero : Fields := ⟨0, 0, 0, 0, 0⟩

structure Slot where
  fields : Fields
  seq : Nat
  writing : Bool

structure Ring where
  slots : Nat → Slot
  count : Nat
  dropped : Nat

namespace Ring

def empty : Ring := ⟨fun _ => ⟨.zero, 0, false⟩, 0, 0⟩

def onSlot (ring : Ring) (j : Nat) (change : Slot → Slot) : Ring :=
  { ring with slots := Function.update ring.slots j (change (ring.slots j)) }

end Ring

def slotOf (kSlots seq : Nat) : Nat := (seq - 1) % kSlots

/-- `seq << 1U`. -/
def published (seq : Nat) : Nat := (seq <<< 1) % 2 ^ 64

/-- The program points of `record`. -/
inductive Record where
  | fetch
  | flag (seq : Nat)
  | drop (seq : Nat)
  | odd (seq : Nat)
  | store (seq : Nat) (f : Field)
  | even (seq : Nat)
  | clear (seq : Nat)

/-- How a `record` call ended. -/
inductive Recorded where
  | stored (seq : Nat)
  | dropped (seq : Nat)
  | disabled

def recordStep (kSlots : Nat) (r : Rejection) (ring : Ring) :
    Record → Ring × (Record ⊕ Recorded)
  | .fetch =>
    if kSlots = 0 then (ring, .inr .disabled)
    else
      let seq := (ring.count + 1) % 2 ^ 64
      ({ ring with count := seq }, .inl (.flag seq))
  | .flag seq =>
    if (ring.slots (slotOf kSlots seq)).writing then (ring, .inl (.drop seq))
    else (ring.onSlot (slotOf kSlots seq) fun s => { s with writing := true }, .inl (.odd seq))
  | .drop seq => ({ ring with dropped := (ring.dropped + 1) % 2 ^ 32 }, .inr (.dropped seq))
  | .odd seq =>
    (ring.onSlot (slotOf kSlots seq) fun s => { s with seq := published seq ||| 1 },
      .inl (.store seq .target))
  | .store seq f =>
    (ring.onSlot (slotOf kSlots seq) fun s => { s with fields := r.fields.copy s.fields f },
      .inl (match f.next with
        | some f' => .store seq f'
        | none => .even seq))
  | .even seq =>
    (ring.onSlot (slotOf kSlots seq) fun s => { s with seq := published seq }, .inl (.clear seq))
  | .clear seq =>
    (ring.onSlot (slotOf kSlots seq) fun s => { s with writing := false }, .inr (.stored seq))

/-- The program points of `lookup`. -/
inductive Lookup where
  | count
  | first
  | load (f : Field) (out : Fields)
  | second (out : Fields)

abbrev Result := Except SnapshotError AdmissionSnapshot

def lookupStep (kSlots seq : Nat) (ring : Ring) : Lookup → Ring × (Lookup ⊕ Result)
  | .count =>
    (ring,
      if kSlots = 0 then .inr (.error .kDisabled)
      else if ring.count = 0 then .inr (.error .kEmpty)
      else if seq = 0 ∨ ring.count < seq then .inr (.error .kOutOfRange)
      else if kSlots ≤ ring.count - seq then .inr (.error .kEvicted)
      else .inl .first)
  | .first =>
    (ring,
      if (ring.slots (slotOf kSlots seq)).seq ≠ published seq then .inr (.error .kTorn)
      else .inl (.load .target .zero))
  | .load f out =>
    let out := (ring.slots (slotOf kSlots seq)).fields.copy out f
    (ring, .inl (match f.next with
      | some f' => .load f' out
      | none => .second out))
  | .second out =>
    (ring,
      if (ring.slots (slotOf kSlots seq)).seq ≠ published seq then .inr (.error .kTorn)
      else .inr (.ok { out with seq := seq }))

/-- What `lookup` returns when nothing else runs. -/
def lookup (kSlots : Nat) (ring : Ring) (seq : Nat) : Result :=
  if kSlots = 0 then .error .kDisabled
  else if ring.count = 0 then .error .kEmpty
  else if seq = 0 ∨ ring.count < seq then .error .kOutOfRange
  else if kSlots ≤ ring.count - seq then .error .kEvicted
  else if (ring.slots (slotOf kSlots seq)).seq ≠ published seq then .error .kTorn
  else .ok { (ring.slots (slotOf kSlots seq)).fields with seq := seq }

theorem lookup_finishes (kSlots seq : Nat) (ring : Ring) :
    Finishes (lookupStep kSlots seq) ring .count (ring, lookup kSlots ring seq) := by
  rw [lookup]
  split_ifs with disabled none outside evicted torn
  · exact .last (by simp only [lookupStep, if_pos disabled])
  · exact .last (by simp only [lookupStep, if_neg disabled, if_pos none])
  · exact .last (by simp only [lookupStep, if_neg disabled, if_neg none, if_pos outside])
  · exact .last (by
      simp only [lookupStep, if_neg disabled, if_neg none, if_neg outside, if_pos evicted])
  all_goals
    have passed : lookupStep kSlots seq ring .count = (ring, .inl .first) := by
      simp only [lookupStep, if_neg disabled, if_neg none, if_neg outside, if_neg evicted]
    refine .next passed ?_
  · exact .last (by simp only [lookupStep, if_pos torn])
  · have whole : lookupStep kSlots seq ring .first = (ring, .inl (.load .target .zero)) := by
      simp only [lookupStep, if_neg torn]
    refine .next whole (.next rfl (.next rfl (.next rfl (.next rfl (.next rfl (.last ?_))))))
    simp only [lookupStep, if_neg torn]
    rfl

/-- One call of `record`. -/
structure Writer where
  args : Rejection
  pc : Record ⊕ Recorded

/-- One call of `lookup`. -/
structure Reader where
  seq : Nat
  pc : Lookup ⊕ Result

structure World where
  ring : Ring
  writers : List Writer
  readers : List Reader

inductive Label where
  | record (r : Rejection)
  | write (i : Nat)
  | lookup (seq : Nat)
  | read (i : Nat)

/-- A call that has returned takes no further step. -/
inductive Fault where
  | returned

namespace World

def initial : World := ⟨.empty, [], []⟩

def step (kSlots : Nat) : Label → World → Except Fault World
  | .record r, s => .ok { s with writers := s.writers ++ [⟨r, .inl .fetch⟩] }
  | .write i, s =>
    match s.writers[i]? with
    | some ⟨args, .inl pc⟩ =>
      let (ring, pc') := recordStep kSlots args s.ring pc
      .ok { s with ring := ring, writers := s.writers.set i ⟨args, pc'⟩ }
    | _ => .error .returned
  | .lookup seq, s => .ok { s with readers := s.readers ++ [⟨seq, .inl .count⟩] }
  | .read i, s =>
    match s.readers[i]? with
    | some ⟨seq, .inl pc⟩ =>
      let (ring, pc') := lookupStep kSlots seq s.ring pc
      .ok { s with ring := ring, readers := s.readers.set i ⟨seq, pc'⟩ }
    | _ => .error .returned

end World

end Snapshot

end Coact
