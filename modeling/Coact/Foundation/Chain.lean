import Mathlib.Data.List.Nodup

/-! Linked chains. `Linked` follows a link function from a start through a list
of nodes to a stop; `Chains` is a family of such lists without common nodes,
with the operations a free-list allocator needs. -/
namespace Coact.Foundation
open Function

variable {ι κ : Type}

def Linked (next : ι → ι) : ι → List ι → ι → Prop
  | start, [], stop => start = stop
  | start, i :: rest, stop => start = i ∧ Linked next (next i) rest stop

/-- The nodes from `start` to `stop`, if there are at most `fuel` of them. -/
def walk [DecidableEq ι] (next : ι → ι) (stop : ι) : Nat → ι → Option (List ι)
  | 0, start => if start = stop then some [] else none
  | fuel + 1, start =>
    if start = stop then some [] else (walk next stop fuel (next start)).map (start :: ·)

/-- The first `n` nodes from `start` on. -/
def follow (next : ι → ι) : Nat → ι → List ι
  | 0, _ => []
  | n + 1, start => start :: follow next n (next start)

section
variable {next : ι → ι} {start stop : ι}

theorem Linked.congr (linked : Linked next start nodes stop)
    (same : ∀ i ∈ nodes, next' i = next i) : Linked next' start nodes stop := by
  induction nodes generalizing start with
  | nil => exact linked
  | cons i _ ih =>
    refine ⟨linked.1, ?_⟩
    rw [same i List.mem_cons_self]
    exact ih linked.2 fun j mem => same j (List.mem_cons_of_mem i mem)

theorem Linked.append (first : Linked next start nodes middle)
    (second : Linked next middle more stop) : Linked next start (nodes ++ more) stop := by
  induction nodes generalizing start with
  | nil =>
    obtain rfl : start = middle := first
    exact second
  | cons _ _ ih => exact ⟨first.1, ih first.2⟩

/-- A node of a chain links to a node of the chain or to its stop. -/
theorem Linked.next_mem (linked : Linked next start nodes stop) (mem : i ∈ nodes) :
    next i ∈ nodes ∨ next i = stop := by
  induction nodes generalizing start with
  | nil => cases mem
  | cons j rest ih =>
    rcases List.mem_cons.mp mem with rfl | later
    · cases rest with
      | nil => exact .inr linked.2
      | cons => exact .inl (linked.2.1 ▸ List.mem_cons_of_mem _ List.mem_cons_self)
    · exact (ih linked.2 later).imp_left (List.mem_cons_of_mem j)

theorem walk_linked [DecidableEq ι] {fuel : Nat} (linked : Linked next start nodes stop)
    (proper : stop ∉ nodes) (enough : nodes.length ≤ fuel) :
    walk next stop fuel start = some nodes := by
  induction nodes generalizing start fuel with
  | nil =>
    obtain rfl : start = stop := linked
    cases fuel <;> exact if_pos rfl
  | cons _ _ ih =>
    obtain ⟨rfl, linked⟩ := linked
    have differ : start ≠ stop := fun same => proper (same ▸ List.mem_cons_self)
    cases fuel with
    | zero => cases enough
    | succ =>
      rw [walk, if_neg differ, ih linked (fun mem => proper (List.mem_cons_of_mem _ mem))
        (Nat.le_of_succ_le_succ enough)]
      rfl

theorem follow_linked {last : ι} (linked : Linked next start nodes last) :
    follow next (nodes.length + 1) start = nodes ++ [last] := by
  induction nodes generalizing start with
  | nil =>
    obtain rfl : start = last := linked
    rfl
  | cons _ _ ih =>
    obtain ⟨rfl, linked⟩ := linked
    rw [List.length_cons, follow, ih linked]
    rfl

end

/-- Links from each number below `n` to the next one, and from the last to `stop`. -/
theorem linked_range' {next : Nat → Nat} {stop n : Nat}
    (links : ∀ j < n, next j = if j + 1 < n then j + 1 else stop)
    (whole : i + len = n) : Linked next (if i < n then i else stop) (List.range' i len) stop := by
  induction len generalizing i with
  | zero => exact if_neg (by omega)
  | succ len ih =>
    have below : i < n := by omega
    refine ⟨if_pos below, ?_⟩
    rw [links i below]
    exact ih (by omega)

/-- Lists by name, with every node in at most one of them and once. -/
structure Chains (ι κ : Type) where
  chain : κ → List ι
  nodup : ∀ c, (chain c).Nodup
  apart : ∀ {c c' i}, i ∈ chain c → i ∈ chain c' → c = c'

namespace Chains

/-- The node is in none of the chains. -/
def Loose (v : Chains ι κ) (i : ι) : Prop := ∀ c, i ∉ v.chain c

def none : Chains ι κ where
  chain _ := []
  nodup _ := List.nodup_nil
  apart mem := by cases mem

variable [DecidableEq κ] (v : Chains ι κ) {c c' src dst : κ} {i j : ι} {rest : List ι}

/-- All the nodes in one chain. -/
def only (c : κ) (nodes : List ι) (once : nodes.Nodup) : Chains ι κ where
  chain := update (fun _ => []) c nodes
  nodup c' := by
    rw [update_apply]
    split
    · exact once
    · exact List.nodup_nil
  apart {c₁ c₂ i} first second := by
    rw [update_apply] at first second
    split at first <;> split at second
    · rename_i here there
      exact here.trans there.symm
    · cases second
    · cases first
    · cases first

def push (c : κ) (i : ι) (loose : v.Loose i) : Chains ι κ where
  chain := update v.chain c (i :: v.chain c)
  nodup c' := by
    rw [update_apply]
    split
    · exact List.nodup_cons.mpr ⟨loose c, v.nodup c⟩
    · exact v.nodup c'
  apart {c₁ c₂ j} first second := by
    rw [update_apply] at first second
    split at first <;> split at second
    · rename_i here there
      exact here.trans there.symm
    · rename_i here away
      rcases List.mem_cons.mp first with rfl | old
      · exact (loose _ second).elim
      · exact here.trans (v.apart old second)
    · rename_i away here
      rcases List.mem_cons.mp second with rfl | old
      · exact (loose _ first).elim
      · exact (v.apart first old).trans here.symm
    · exact v.apart first second

def pop (c : κ) (head : v.chain c = i :: rest) : Chains ι κ where
  chain := update v.chain c rest
  nodup c' := by
    rw [update_apply]
    split
    · exact (List.nodup_cons.mp (head ▸ v.nodup c)).2
    · exact v.nodup c'
  apart {c₁ c₂ j} first second := by
    have old : ∀ {c' : κ}, j ∈ update v.chain c rest c' → j ∈ v.chain c' := by
      intro c' mem
      rw [update_apply] at mem
      split at mem
      · rename_i here
        rw [here, head]
        exact List.mem_cons_of_mem i mem
      · exact mem
    exact v.apart (old first) (old second)

/-- Put the chain `src` in front of the chain `dst`. -/
def splice (src dst : κ) (differ : src ≠ dst) : Chains ι κ where
  chain := update (update v.chain src []) dst (v.chain src ++ v.chain dst)
  nodup c := by
    rw [update_apply, update_apply]
    split
    · refine List.nodup_append.mpr ⟨v.nodup src, v.nodup dst, ?_⟩
      rintro i first j second rfl
      exact differ (v.apart first second)
    · split
      · exact List.nodup_nil
      · exact v.nodup c
  apart {c₁ c₂ j} first second := by
    have old : ∀ {c : κ}, j ∈ update (update v.chain src []) dst
        (v.chain src ++ v.chain dst) c → (c = dst ∧ j ∈ v.chain src) ∨ (j ∈ v.chain c ∧ c ≠ src) := by
      intro c mem
      rw [update_apply, update_apply] at mem
      split at mem
      · rename_i here
        subst here
        exact (List.mem_append.mp mem).imp (fun inside => ⟨rfl, inside⟩)
          fun inside => ⟨inside, differ.symm⟩
      · split at mem
        · cases mem
        · rename_i away
          exact .inr ⟨mem, away⟩
    rcases old first with ⟨rfl, one⟩ | ⟨one, away⟩ <;>
      rcases old second with ⟨rfl, two⟩ | ⟨two, away'⟩
    · rfl
    · exact (away' (v.apart two one)).elim
    · exact (away (v.apart one two)).elim
    · exact v.apart one two

variable {v}

@[simp] theorem chain_only_same {once : nodes.Nodup} : (only c nodes once).chain c = nodes := by
  simp [only]

theorem chain_only_other {once : nodes.Nodup} (other : c' ≠ c) :
    (only c nodes once).chain c' = [] := by
  simp [only, other]

@[simp] theorem chain_push_same :
    (v.push c i loose).chain c = i :: v.chain c := update_self ..

theorem chain_push_other (other : c' ≠ c) :
    (v.push c i loose).chain c' = v.chain c' := update_of_ne other ..

variable {head : v.chain c = i :: rest}

@[simp] theorem chain_pop_same : (v.pop c head).chain c = rest := update_self ..

theorem chain_pop_other (other : c' ≠ c) :
    (v.pop c head).chain c' = v.chain c' := update_of_ne other ..

@[simp] theorem chain_splice_dst :
    (v.splice src dst differ).chain dst = v.chain src ++ v.chain dst := update_self ..

@[simp] theorem chain_splice_src : (v.splice src dst differ).chain src = [] := by
  simp only [splice, update_of_ne differ, update_self]

theorem chain_splice_other (notSrc : c ≠ src) (notDst : c ≠ dst) :
    (v.splice src dst differ).chain c = v.chain c := by
  simp only [splice, update_of_ne notDst, update_of_ne notSrc]

theorem mem_push : j ∈ (v.push c i loose).chain c' ↔ (c' = c ∧ j = i) ∨ j ∈ v.chain c' := by
  simp only [push, update_apply]
  split_ifs with here
  · rw [List.mem_cons, here]
    simp
  · simp [here]

theorem mem_pop : j ∈ (v.pop c head).chain c' ↔ j ∈ v.chain c' ∧ j ≠ i := by
  have once := List.nodup_cons.mp (head ▸ v.nodup c)
  simp only [pop, update_apply]
  split_ifs with here
  · subst here
    rw [head, List.mem_cons]
    constructor
    · intro mem
      refine ⟨.inr mem, ?_⟩
      rintro rfl
      exact once.1 mem
    · rintro ⟨same | mem, differ⟩
      · exact (differ same).elim
      · exact mem
  · refine ⟨fun mem => ⟨mem, ?_⟩, And.left⟩
    rintro rfl
    exact here (v.apart mem (head ▸ List.mem_cons_self))

theorem mem_splice : j ∈ (v.splice src dst differ).chain c ↔
    (c = dst ∧ j ∈ v.chain src) ∨ (c ≠ src ∧ j ∈ v.chain c) := by
  simp only [splice, update_apply]
  split_ifs with here gone
  · subst here
    simp [List.mem_append, Ne.symm differ]
  · simp [gone, differ]
  · simp [here, gone]

theorem loose_push : (v.push c i loose).Loose j ↔ v.Loose j ∧ j ≠ i := by
  constructor
  · intro outside
    refine ⟨fun c' mem => outside c' (mem_push.mpr (.inr mem)), ?_⟩
    rintro rfl
    exact outside c (mem_push.mpr (.inl ⟨rfl, rfl⟩))
  · rintro ⟨outside, differ⟩ c' mem
    rcases mem_push.mp mem with ⟨-, same⟩ | inside
    · exact differ same
    · exact outside c' inside

theorem loose_pop : (v.pop c head).Loose j ↔ v.Loose j ∨ j = i := by
  constructor
  · intro outside
    by_cases same : j = i
    · exact .inr same
    · exact .inl fun c' mem => outside c' (mem_pop.mpr ⟨mem, same⟩)
  · rintro (outside | rfl) c' mem
    · exact outside c' (mem_pop.mp mem).1
    · exact (mem_pop.mp mem).2 rfl

theorem loose_splice : (v.splice src dst differ).Loose j ↔ v.Loose j := by
  constructor
  · intro outside c mem
    by_cases here : c = src
    · exact outside dst (mem_splice.mpr (.inl ⟨rfl, here ▸ mem⟩))
    · exact outside c (mem_splice.mpr (.inr ⟨here, mem⟩))
  · intro outside c mem
    rcases mem_splice.mp mem with ⟨-, inside⟩ | ⟨-, inside⟩
    · exact outside src inside
    · exact outside c inside

end Chains

end Coact.Foundation
