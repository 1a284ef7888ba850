import Coact.Breaker.Recovery

/-! The low watermark in a recovery. From L1 and L2 it is required before the
recovery begins; the external restore out of Safe asks for nothing, so from there
Normal is reached without a single watermark sample unless the restore waits for
the counter. -/
namespace Coact.Breaker
open Foundation
variable {cfg : Config} {past : List Input} {i : Input}

/-- At some moment of the window the last three samples were below 50. -/
def Sustained (window : List Input) : Prop :=
  ∃ part, part <+: window ∧ kLowWatermarkPersist ≤ lowStreak part

theorem Sustained.sampled {window : List Input} (sustained : Sustained window) :
    ∃ i ∈ window, lowSample i := by
  obtain ⟨part, within, low⟩ := sustained
  obtain ⟨i, found, sampled⟩ := exists_of_streak_pos (Nat.lt_of_lt_of_le (by decide) low)
  exact ⟨i, within.subset found, sampled⟩

/-- The external restore meets a low watermark that has been sustained. -/
def Awaited (i : Input) (s : State) : Prop :=
  i = .externalSafeRestore → s.level = .Safe → kLowWatermarkPersist ≤ s.lowWatermarkConsec

instance (i : Input) (s : State) : Decidable (Awaited i s) :=
  inferInstanceAs (Decidable (_ → _ → _))

theorem recovering_sustained (past : List Input) (awaited : Along Awaited (apply cfg) initial past)
    (level : levelAfter cfg past = .Recovering) :
    ∃ before e window, Since (EntersBroken cfg) past before e window ∧ Sustained window := by
  induction past using List.reverseRecOn with
  | nil => cases level
  | append_singleton past i ih =>
    obtain ⟨earlier, now⟩ := along_snoc.mp awaited
    have quiet : ¬ EntersBroken cfg past i := by
      refine not_entersBroken ?_
      rw [level]
      rintro (never | never | never) <;> cases never
    obtain ⟨⟨safe, restored⟩ | ⟨lowered, -, percent, carries, low⟩, -⟩ | ⟨run, -⟩ :=
      recovering_snoc level
    · obtain ⟨b, e, w, -, broke, counts⟩ := broken_low past (.inr (.inr safe))
      exact ⟨b, e, w ++ [i], broke.snoc quiet, w, List.prefix_append ..,
        Nat.le_trans (now restored safe) counts⟩
    · obtain ⟨b, e, w, -, broke, counts⟩ := broken_low past (lowered.imp_right .inl)
      rw [← count_sample carries] at low
      exact ⟨b, e, w ++ [i], broke.snoc quiet, w ++ [i], List.prefix_rfl,
        Nat.le_trans low (low_le_streak counts)⟩
    · obtain ⟨b, e, w, broke, part, within, low⟩ := ih earlier run
      exact ⟨b, e, w ++ [i], broke.snoc quiet, part, within.trans (List.prefix_append ..), low⟩

/-- If every restore out of Safe waits for the low watermark, every step into Normal
has seen it sustained since the latest entry into L1, L2 or Safe. -/
theorem low_watermark_sustained (cfg : Config) (past : List Input) (i : Input)
    (awaited : Along Awaited (apply cfg) initial past)
    (entered : Enters (levelAfter cfg) .Normal past i) :
    ∃ before e window, Since (EntersBroken cfg) past before e window ∧ Sustained window :=
  recovering_sustained past awaited (heals_of_enters entered).2

/-- A probe and the cycle that counts it. -/
def healthyWindow : List Input := [.probeSuccess, .dispatchCycle]

/-- Safe, an external restore at once, the cooldown, then healthy windows up to the
last probe. -/
def restoredAtOnce : List Input :=
  [Input.keyReserveExhausted, .externalSafeRestore] ++ List.replicate 100 Input.dispatchCycle ++
    healthyWindow ++ healthyWindow ++ [Input.probeSuccess]

/-- Safe with three low samples before the restore. -/
def restoredLate : List Input :=
  [Input.watchdog, .watermark 45, .watermark 30, .watermark 49, .externalSafeRestore] ++
    List.replicate 100 Input.dispatchCycle ++ healthyWindow ++ healthyWindow ++ [Input.probeSuccess]

theorem low_watermark_sustained_late :
    Enters (levelAfter DefaultConfig) .Normal restoredLate .dispatchCycle ∧
    ∃ before e window, Since (EntersBroken DefaultConfig) restoredLate before e window ∧
      Sustained window := by
  have entered : Enters (levelAfter DefaultConfig) .Normal restoredLate .dispatchCycle := by
    constructor <;> decide +kernel
  exact ⟨entered, low_watermark_sustained _ _ _ (by decide +kernel) entered⟩

/-- Normal is reached from Safe although no watermark was ever sampled. -/
theorem restored_without_samples :
    Enters (levelAfter DefaultConfig) .Normal restoredAtOnce .dispatchCycle ∧
    restoredAtOnce.filterMap sample = [] ∧
    ¬ ∃ before e window, Since (EntersBroken DefaultConfig) restoredAtOnce before e window ∧
      Sustained window := by
  refine ⟨⟨by decide +kernel, by decide +kernel⟩, by decide +kernel, ?_⟩
  rintro ⟨before, e, window, since, sustained⟩
  obtain ⟨i, found, sampled⟩ := sustained.sampled
  have inside : i ∈ restoredAtOnce := by
    rw [since.split]
    exact List.mem_append_right _ (List.mem_cons_of_mem _ found)
  have unsampled : ∀ x ∈ restoredAtOnce, lowSample x = false := by decide +kernel
  rw [unsampled i inside] at sampled
  cases sampled

end Coact.Breaker
