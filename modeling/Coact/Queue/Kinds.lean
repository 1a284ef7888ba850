import Coact.Queue.MpscLaws
import Coact.Queue.Ring

/-! The queue backends a deployment can choose from. -/
namespace Coact

inductive QueueBackend where
  | SingleCoreCriticalRing
  | BoundedMpscQueue

def QueueBackend.impl (k : QueueBackend) (α : Type) : Backend α :=
  match k with
  | .SingleCoreCriticalRing => ringBackend α
  | .BoundedMpscQueue => mpscBackend α

def QueueBackend.laws (k : QueueBackend) (α : Type) : (k.impl α).Lawful :=
  match k with
  | .SingleCoreCriticalRing => ringLawful α
  | .BoundedMpscQueue => mpscLawful α

def QueueBackend.bounds (k : QueueBackend) (α : Type) : Backend.Bounded (k.laws α) :=
  match k with
  | .SingleCoreCriticalRing => ringBounded α
  | .BoundedMpscQueue => mpscBounded α

def QueueBackend.store (k : QueueBackend) (α : Type) : (k.impl α).Store :=
  match k with
  | .SingleCoreCriticalRing => ringStore α
  | .BoundedMpscQueue => mpscStore α

end Coact
