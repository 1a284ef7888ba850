import Coact.Pool.Heap

/-! `ReclaimBatcher` and `ImmediateReclaimer`. The table holds the active entries
of the batcher, in the order in which their pools were first met. -/
namespace Coact.Pool
open Foundation

def kReclaimBatchCap : Nat := 16

/-- A pending chain; `record` is the registry index of its pool. -/
structure Pending where
  record : Nat
  first : Nat
  last : Nat
  count : Nat

abbrev Table := List Pending

/-- The entry of a pool, if there is one. -/
def Table.entry (t : Table) (k : Nat) : Option Pending := t.find? fun p => p.record = k

/-- `pending_of`: the table with an entry for the pool, and its position. -/
def pendingOf (maxPending : Nat) (t : Table) (k : Nat) : Option (Table × Nat) :=
  match t.findIdx? (fun p => p.record = k) with
  | some i => some (t, i)
  | none => if maxPending ≤ t.length then none else some (t ++ [⟨k, 0, 0, 0⟩], t.length)

/-- `splice_locked` of the chain `first..last` onto the free list of pool `k`. -/
def spliceLocked (h : Heap) (k first last count : Nat) : Heap :=
  match h.records[k]? with
  | none => h
  | some r =>
    { mem := store32 h.mem (r.blockBase last) (poolHeadIndex r.freeHead)
      records := h.records.set k { r with
        freeHead := poolPackHead first (poolHeadTag r.freeHead + 1)
        used := fetchSub16 r.used count } }

def poolReclaimChain (h : Heap) (k first last count : Nat) : Heap := spliceLocked h k first last count

/-- The part of `release` that links a dead block into its pending chain. -/
def linkPending (h : Heap) (e index : Nat) (p : Pending) : Heap × Pending :=
  if p.count = 0 then (h, { p with first := index, last := index, count := (p.count + 1) % 2 ^ 16 })
  else
    ({ h with mem := store32 h.mem e p.first },
     { p with first := index, count := (p.count + 1) % 2 ^ 16 })

/-- The splice of `release` when a chain has reached the cap. -/
def capPending (h : Heap) (p : Pending) : Heap × Pending :=
  if kReclaimBatchCap ≤ p.count then
    (spliceLocked h p.record p.first p.last p.count, { p with count := 0 })
  else (h, p)

/-- The part of `release` after the last reference is gone. -/
def retire (maxPending : Nat) (t : Table) (h : Heap) (k e index : Nat) : Table × Heap :=
  match pendingOf maxPending t k with
  | none => (t, spliceLocked h k index index 1)
  | some (t', i) =>
    match t'[i]? with
    | none => (t', h)
    | some p =>
      let (h', p') := linkPending h e index p
      let (h'', p'') := capPending h' p'
      (t'.set i p'', h'')

/-- `ReclaimBatcher<MaxPending>::release`. -/
def release (maxPending : Nat) (t : Table) (h : Heap) (e : Nat) : Except Fault (Table × Heap) :=
  if eventPoolId h.mem e = 0 then .ok (t, h)
  else
    match h.poolRecord (eventPoolId h.mem e) with
    | none => .error .noRecord
    | some r =>
      if eventRefCtr h.mem e = 0 then .ok (t, h)
      else
        let h' := { h with mem := setRefCtr h.mem e (eventRefCtr h.mem e - 1) }
        if eventRefCtr h'.mem e ≠ 0 then .ok (t, h')
        else if e < r.base then .error .belowBase
        else .ok (retire maxPending t h' (eventPoolId h.mem e - 1) e (r.indexOf e))

/-- The loop of `flush`; the table is empty afterwards. -/
def flush : Table → Heap → Heap
  | [], h => h
  | p :: rest, h =>
    flush rest (if 0 < p.count then poolReclaimChain h p.record p.first p.last p.count else h)

/-- `ImmediateReclaimer::release`. -/
def releaseImmediate (h : Heap) (e : Nat) : Except Fault Heap := h.eventGc e

end Coact.Pool
