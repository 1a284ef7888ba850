import Mathlib.Data.Fintype.Fin

/-! A bit mask as the set of the indices whose bit is set. -/
namespace Coact.Foundation

variable {w k : Nat}

/-- The indices below `k` that are set in the mask. -/
def setBits (k : Nat) (x : BitVec w) : Finset (Fin k) :=
  Finset.univ.filter fun i => x.getLsbD i = true

@[simp] theorem mem_setBits : i ∈ setBits k x ↔ x.getLsbD i = true := by
  simp [setBits]

@[simp] theorem setBits_zero : setBits k 0#w = ∅ := by
  ext i
  simp

theorem setBits_or_twoPow (x : BitVec w) (i : Fin k) (fits : k ≤ w) :
    setBits k (x ||| BitVec.twoPow w i) = insert i (setBits k x) := by
  ext j
  have inside : (i : Nat) < w := i.isLt.trans_le fits
  have bit : (BitVec.twoPow w i).getLsbD j = true ↔ j = i := by
    simp only [BitVec.getLsbD_twoPow, inside, decide_true, Bool.true_and, decide_eq_true_eq]
    rw [Fin.val_inj]
    exact eq_comm
  rw [Finset.mem_insert, mem_setBits, mem_setBits, BitVec.getLsbD_or, Bool.or_eq_true, bit]
  exact or_comm

theorem and_twoPow_eq_zero (x : BitVec w) (inside : i < w) :
    x &&& BitVec.twoPow w i = 0#w ↔ x.getLsbD i = false := by
  rw [BitVec.and_twoPow]
  cases set : x.getLsbD i with
  | false => simp
  | true =>
    have apart : BitVec.twoPow w i ≠ 0#w := by
      intro none
      have bit := congrArg (BitVec.getLsbD · i) none
      simp [inside] at bit
    simp [apart]

theorem cpopNatRec_eq_card (x : BitVec w) (n acc : Nat) :
    x.cpopNatRec n acc = acc + ((Finset.range n).filter fun i => x.getLsbD i = true).card := by
  induction n generalizing acc with
  | zero => simp
  | succ n ih =>
    rw [BitVec.cpopNatRec_succ, ih, Finset.range_add_one, Finset.filter_insert]
    cases x.getLsbD n with
    | false => simp
    | true =>
      rw [if_pos rfl, Finset.card_insert_of_notMem (by simp), Bool.toNat_true]
      omega

/-- The population count of a mask with no bit from `k` on. -/
theorem cpop_eq_card {x : BitVec w} (fits : k ≤ w)
    (below : ∀ i, x.getLsbD i = true → i < k) : x.cpop.toNat = (setBits k x).card := by
  have indices : (Finset.range w).filter (fun i => x.getLsbD i = true) =
      (setBits k x).map Fin.valEmbedding := by
    ext i
    simp only [Finset.mem_filter, Finset.mem_range, Finset.mem_map, mem_setBits,
      Fin.valEmbedding_apply]
    constructor
    · rintro ⟨-, set⟩
      exact ⟨⟨i, below i set⟩, set, rfl⟩
    · rintro ⟨j, set, rfl⟩
      exact ⟨j.isLt.trans_le fits, set⟩
  rw [BitVec.toNat_cpop, cpopNatRec_eq_card, Nat.zero_add, indices, Finset.card_map]

end Coact.Foundation
