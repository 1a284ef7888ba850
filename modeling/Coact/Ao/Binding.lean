import Coact.Ao
import Coact.Foundation.Refinement

/-! Runs of `AoRegistry::bind` and `AoRegistry::bind_at`. `bind` takes the priority it is given
for the object's own; as long as it is, objects, targets and priorities are one to one. -/
namespace Coact
open Foundation

namespace AoRegistry

/-- `target_of`: the first slot with the object, 1-based. -/
def targetOf (registry : AoRegistry) (ao : Option AoId) : TargetId :=
  match ao with
  | none => kInvalidTarget
  | some ao =>
    match registry.slots.findIdx? (· = some ao) with
    | some i => ⟨UInt8.ofNat (i + 1)⟩
    | none => kInvalidTarget

def fresh (cfg : Config) : AoRegistry := ⟨List.replicate cfg.kMaxAo none⟩

inductive Call where
  | bind (ao : Option AoId) (prio : Nat)
  | bindAt (target : TargetId) (ao : AoId) (prio : Nat)

/-- A refused call leaves the registry as it is. -/
def answer (registry : AoRegistry) : Option AoRegistry → AoRegistry × Bool
  | none => (registry, false)
  | some bound => (bound, true)

def call (cfg : Config) (logicalPrio : AoId → Nat) (registry : AoRegistry) :
    Call → AoRegistry × Bool
  | .bind ao prio => registry.answer (registry.bind logicalPrio ao prio)
  | .bindAt target ao prio => registry.answer (registry.bindAt cfg logicalPrio target ao prio)

/-- `bind` is given the object's own priority. `bind_at` checks that itself. -/
def Honest (logicalPrio : AoId → Nat) : Call → Prop
  | .bind (some ao) prio => prio = logicalPrio ao
  | .bind none _ | .bindAt _ _ _ => True

/-- The object is in the slot. -/
def Holds (registry : AoRegistry) (i : Nat) (ao : AoId) : Prop :=
  registry.slots[i]? = some (some ao)

variable {cfg : Config} {logicalPrio : AoId → Nat} {registry : AoRegistry} {i j prio : Nat}
  {ao : AoId} {target : TargetId}

/-- What an accepted call does: a free slot gets the object, whose priority argument is nobody's. -/
structure Takes (logicalPrio : AoId → Nat) (registry : AoRegistry) (ao : AoId) (prio : Nat)
    (bound : AoRegistry) : Prop where
  unused : ∀ j other, registry.Holds j other → logicalPrio other ≠ prio
  placed : ∃ i, registry.slots[i]? = some none ∧ bound = ⟨registry.slots.set i (some ao)⟩

theorem unused_of_not_taken (free : registry.prioTaken logicalPrio prio = false) {other : AoId}
    (held : registry.Holds j other) : logicalPrio other ≠ prio := by
  intro same
  have taken : registry.prioTaken logicalPrio prio = true := by
    refine List.any_eq_true.mpr ⟨some other, List.mem_of_getElem? held, ?_⟩
    exact decide_eq_true same
  rw [free] at taken
  cases taken

variable {bound : AoRegistry}

theorem bind_takes (done : registry.bind logicalPrio (some ao) prio = some bound) :
    Takes logicalPrio registry ao prio bound := by
  simp only [bind, Option.bind_eq_bind, Option.bind_some] at done
  split at done
  · cases done
  · split at done
    · cases done
    · rename_i free
      obtain ⟨i, first, same⟩ := Option.bind_eq_some_iff.mp done
      cases same
      obtain ⟨inside, empty, -⟩ := List.findIdx?_eq_some_iff_getElem.mp first
      refine ⟨fun j other held => unused_of_not_taken (Bool.eq_false_iff.mpr free) held, i, ?_, rfl⟩
      rw [List.getElem?_eq_getElem inside, Option.isNone_iff_eq_none.mp empty]

theorem bindAt_takes (sized : registry.slots.length = cfg.kMaxAo)
    (done : registry.bindAt cfg logicalPrio target ao prio = some bound) :
    prio = logicalPrio ao ∧ Takes logicalPrio registry ao prio bound := by
  unfold bindAt at done
  split at done
  · cases done
  · rename_i passed
    simp only [not_or, not_not] at passed
    obtain ⟨valid, inside, -, own, vacant⟩ := passed
    split at done <;> cases done
    rename_i free
    refine ⟨own, fun j other held => unused_of_not_taken (Bool.eq_false_iff.mpr free) held,
      target.raw.toNat - 1, ?_, rfl⟩
    have nonzero : target.raw.toNat ≠ 0 := fun zero =>
      valid (congrArg TargetId.mk (UInt8.toNat_inj.mp zero))
    have below : target.raw.toNat - 1 < registry.slots.length := by omega
    rw [List.getElem?_eq_getElem below] at vacant ⊢
    simpa using vacant

/-- A call is refused, or it takes a slot; with the object's own priority if it is honest. -/
theorem call_cases (logicalPrio : AoId → Nat)
    (sized : registry.slots.length = cfg.kMaxAo) (c : Call) :
    (registry.call cfg logicalPrio c).1 = registry ∨
    ∃ ao prio, Takes logicalPrio registry ao prio (registry.call cfg logicalPrio c).1 ∧
      (Honest logicalPrio c → prio = logicalPrio ao) := by
  cases c with
  | bind ao prio =>
    rw [call]
    cases done : registry.bind logicalPrio ao prio with
    | none => exact .inl rfl
    | some =>
      cases ao with
      | none => cases done
      | some ao => exact .inr ⟨ao, prio, bind_takes done, id⟩
  | bindAt target ao prio =>
    rw [call]
    cases done : registry.bindAt cfg logicalPrio target ao prio with
    | none => exact .inl rfl
    | some =>
      obtain ⟨own, takes⟩ := bindAt_takes sized done
      exact .inr ⟨ao, prio, takes, fun _ => own⟩

namespace Takes
variable {bound : AoRegistry}

section
variable (takes : Takes logicalPrio registry ao prio bound)
include takes

theorem length : bound.slots.length = registry.slots.length := by
  obtain ⟨i, -, rfl⟩ := takes.placed
  exact List.length_set

theorem kept {other : AoId} (held : registry.Holds j other) : bound.Holds j other := by
  obtain ⟨i, vacant, rfl⟩ := takes.placed
  have apart : i ≠ j := by
    rintro rfl
    rw [Holds, vacant] at held
    cases held
  rw [Holds, List.getElem?_set_ne apart]
  exact held

theorem origin :
    ∃ i, ∀ j other, bound.Holds j other → (j = i ∧ other = ao) ∨ registry.Holds j other := by
  obtain ⟨i, vacant, rfl⟩ := takes.placed
  refine ⟨i, fun j other held => ?_⟩
  rcases eq_or_ne i j with rfl | apart
  · have inside : i < registry.slots.length := (List.getElem?_eq_some_iff.mp vacant).1
    rw [Holds, List.getElem?_set_self inside] at held
    exact .inl ⟨rfl, (Option.some.inj (Option.some.inj held)).symm⟩
  · rw [Holds, List.getElem?_set_ne apart] at held
    exact .inr held

end

end Takes

/-- No two slots have objects of one priority. -/
def Unique (logicalPrio : AoId → Nat) (registry : AoRegistry) : Prop :=
  ∀ i j ao other, registry.Holds i ao → registry.Holds j other →
    logicalPrio ao = logicalPrio other → i = j

theorem Unique.take (unique : Unique logicalPrio registry)
    (takes : Takes logicalPrio registry ao (logicalPrio ao) bound) : Unique logicalPrio bound := by
  obtain ⟨k, origin⟩ := takes.origin
  intro i j x y here there same
  rcases origin i x here with ⟨rfl, rfl⟩ | old <;> rcases origin j y there with ⟨rfl, rfl⟩ | old'
  · rfl
  · exact absurd same.symm (takes.unused j y old')
  · exact absurd same (takes.unused i x old)
  · exact unique i j x y old old' same

/-- What calls do to a registry: nothing bound changes, and honest calls keep it unique. -/
structure Extends (logicalPrio : AoId → Nat) (honest : Prop) (before after : AoRegistry) : Prop where
  length : after.slots.length = before.slots.length
  kept : ∀ i ao, before.Holds i ao → after.Holds i ao
  unique : honest → Unique logicalPrio before → Unique logicalPrio after

theorem call_extends (logicalPrio : AoId → Nat)
    (sized : registry.slots.length = cfg.kMaxAo) (c : Call) :
    Extends logicalPrio (Honest logicalPrio c) registry (registry.call cfg logicalPrio c).1 := by
  rcases call_cases logicalPrio sized c with same | ⟨ao, prio, takes, own⟩
  · rw [same]
    exact ⟨rfl, fun _ _ held => held, fun _ unique => unique⟩
  · refine ⟨takes.length, fun _ _ held => takes.kept held, ?_⟩
    intro honest unique
    obtain rfl := own honest
    exact unique.take takes

theorem answers_extends (logicalPrio : AoId → Nat)
    (sized : registry.slots.length = cfg.kMaxAo) (calls : List Call) :
    Extends logicalPrio (∀ c ∈ calls, Honest logicalPrio c) registry
      (answers (call cfg logicalPrio) registry calls).1 := by
  induction calls generalizing registry with
  | nil => exact ⟨rfl, fun _ _ held => held, fun _ unique => unique⟩
  | cons c _ ih =>
    have first := call_extends logicalPrio sized c
    have later := ih (first.length.trans sized)
    constructor
    · exact later.length.trans first.length
    · intro i ao held
      exact later.kept i ao (first.kept i ao held)
    · intro honest unique
      apply later.unique
      · exact fun c mem => honest c (List.mem_cons_of_mem _ mem)
      · exact first.unique (honest c List.mem_cons_self) unique

theorem unique_fresh : Unique logicalPrio (fresh cfg) := by
  intro i j ao other held
  rw [Holds, fresh, List.getElem?_replicate] at held
  split at held <;> cases held

theorem targetOf_holds (held : registry.Holds i ao) (small : registry.slots.length < 256) :
    ∃ j, registry.Holds j ao ∧ (registry.targetOf (some ao)).raw.toNat = j + 1 := by
  have found : ∃ j, registry.slots.findIdx? (· = some ao) = some j := by
    rw [← Option.isSome_iff_exists, List.findIdx?_isSome, List.any_eq_true]
    exact ⟨some ao, List.mem_of_getElem? held, decide_eq_true rfl⟩
  obtain ⟨j, first⟩ := found
  obtain ⟨inside, here, -⟩ := List.findIdx?_eq_some_iff_getElem.mp first
  refine ⟨j, ?_, ?_⟩
  · rw [Holds, List.getElem?_eq_getElem inside, of_decide_eq_true here]
  · simp only [targetOf, first]
    exact Nat.mod_eq_of_lt (by omega)

theorem lookup_eq (sized : registry.slots.length = cfg.kMaxAo) :
    registry.lookup cfg target = some ao ↔
      target.raw.toNat ≠ 0 ∧ registry.Holds (target.raw.toNat - 1) ao := by
  have zero : target = kInvalidTarget ↔ target.raw.toNat = 0 := by
    rw [kInvalidTarget, TargetId.mk.injEq]
    exact UInt8.toNat_inj.symm
  unfold lookup
  split
  · rename_i refused
    rw [zero] at refused
    constructor
    · intro none
      cases none
    · rintro ⟨nonzero, held⟩
      have inside := (List.getElem?_eq_some_iff.mp held).1
      omega
  · rename_i valid
    rw [not_or, zero] at valid
    rw [Option.join_eq_some_iff]
    exact ⟨fun held => ⟨valid.1, held⟩, fun both => both.2⟩

end AoRegistry
open AoRegistry

/-- After any calls what is bound stays bound, and every bound object is found under its
target. If every `bind` was given the object's own priority, the bound objects and their
priorities are pairwise distinct, and every target is that of its object. -/
theorem registry_one_to_one (cfg : Config) (small : cfg.kMaxAo < 256) (logicalPrio : AoId → Nat)
    (calls : List Call) (registry : AoRegistry)
    (reached : registry = (answers (call cfg logicalPrio) (fresh cfg) calls).1) :
    (∀ more i ao, registry.Holds i ao →
      (answers (call cfg logicalPrio) registry more).1.Holds i ao) ∧
    (∀ i ao, registry.Holds i ao →
      registry.lookup cfg (registry.targetOf (some ao)) = some ao) ∧
    ((∀ c ∈ calls, Honest logicalPrio c) →
      (∀ i j ao other, registry.Holds i ao → registry.Holds j other → i ≠ j →
        ao ≠ other ∧ logicalPrio ao ≠ logicalPrio other) ∧
      ∀ target ao, registry.lookup cfg target = some ao →
        registry.targetOf (some ao) = target) := by
  have start : (fresh cfg).slots.length = cfg.kMaxAo := List.length_replicate
  have run := answers_extends logicalPrio start calls
  rw [← reached] at run
  have sized : registry.slots.length = cfg.kMaxAo := run.length.trans start
  refine ⟨?_, ?_, ?_⟩
  · intro more
    exact (answers_extends logicalPrio sized more).kept
  · intro i ao held
    obtain ⟨j, here, raw⟩ := targetOf_holds held (by omega)
    apply (lookup_eq sized).mpr
    rw [raw, Nat.add_sub_cancel]
    exact ⟨Nat.succ_ne_zero j, here⟩
  · intro honest
    have unique := run.unique honest unique_fresh
    constructor
    · intro i j ao other here there apart
      have prios : logicalPrio ao ≠ logicalPrio other := fun same =>
        apart (unique i j ao other here there same)
      exact ⟨fun same => prios (congrArg logicalPrio same), prios⟩
    · intro target ao found
      obtain ⟨nonzero, held⟩ := (lookup_eq sized).mp found
      obtain ⟨j, here, raw⟩ := targetOf_holds held (by omega)
      have same := unique _ _ ao ao here held rfl
      have raws : (registry.targetOf (some ao)).raw = target.raw := by
        apply UInt8.toNat_inj.mp
        omega
      exact congrArg TargetId.mk raws

/-- Three objects with the priorities 1, 2 and 3, one of them at a target of its own. -/
theorem registry_one_to_one_three :
    (answers (call DefaultConfig (· + 1)) (fresh DefaultConfig)
      [.bind (some 0) 1, .bindAt ⟨5⟩ 1 2, .bind (some 2) 3]).1.targetOf (some 1) = ⟨5⟩ := by
  obtain ⟨-, -, honest⟩ := registry_one_to_one DefaultConfig (by decide) (· + 1)
    [.bind (some 0) 1, .bindAt ⟨5⟩ 1 2, .bind (some 2) 3] _ rfl
  exact (honest (by simp [Honest])).2 ⟨5⟩ 1 (by decide)

/-- Objects 7 and 8 have priority 1, and `bind` is given 2 and 3: object 7 is bound twice, its
second target is not its own, and object 8 is bound with the same priority. -/
theorem bind_trusts_priority :
    (answers (call DefaultConfig (fun _ => 1)) (fresh DefaultConfig)
      [.bind (some 7) 2, .bind (some 7) 2, .bind (some 8) 3]).2 = [true, true, true] ∧
    (answers (call DefaultConfig (fun _ => 1)) (fresh DefaultConfig)
      [.bind (some 7) 2, .bind (some 7) 2, .bind (some 8) 3]).1.lookup DefaultConfig ⟨2⟩ = some 7 ∧
    (answers (call DefaultConfig (fun _ => 1)) (fresh DefaultConfig)
      [.bind (some 7) 2, .bind (some 7) 2, .bind (some 8) 3]).1.targetOf (some 7) = ⟨1⟩ ∧
    (answers (call DefaultConfig (fun _ => 1)) (fresh DefaultConfig)
      [.bind (some 7) 2, .bind (some 7) 2, .bind (some 8) 3]).1.lookup DefaultConfig ⟨3⟩ =
        some 8 := by decide

end Coact
