import Mathlib.Algebra.Order.Ring.Nat
import Coact.Foundation.Refinement

/-! `TokenBucketRateLimiter` (`policy.hpp`). All its values are 64-bit words. The product
of the refill wraps, and a refill drops the part of the elapsed time that does not fill an
interval; both only lose tokens. -/
namespace Coact.Policy
open Foundation

structure RateLimitRule where
  capacity : UInt64
  rate : UInt64
  refillInterval : UInt64
  enabled : Bool

structure TokenBucketRateLimiter where
  rule : RateLimitRule
  tokens : UInt64
  last : UInt64

namespace TokenBucketRateLimiter

def init (rule : RateLimitRule) (now : UInt64) : TokenBucketRateLimiter :=
  ⟨rule, rule.capacity, now⟩

/-- The tokens after a gain, clamped to the burst ceiling. -/
def fill (b : TokenBucketRateLimiter) (gain : UInt64) : UInt64 :=
  if b.rule.capacity - b.tokens ≤ gain then b.rule.capacity else b.tokens + gain

def refill (b : TokenBucketRateLimiter) (now : UInt64) : TokenBucketRateLimiter :=
  if b.rule.refillInterval = 0 then b
  else if now ≤ b.last then b
  else if (now - b.last) / b.rule.refillInterval = 0 then b
  else { b with
    last := now
    tokens := b.fill ((now - b.last) / b.rule.refillInterval * b.rule.rate) }

def acquire (b : TokenBucketRateLimiter) (now : UInt64) : TokenBucketRateLimiter × Bool :=
  if !b.rule.enabled then (b, true)
  else if 0 < (b.refill now).tokens then
    ({ b.refill now with tokens := (b.refill now).tokens - 1 }, true)
  else (b.refill now, false)

/-- The tokens that the rule grants from `t0` to `t`, in exact arithmetic. -/
def granted (rule : RateLimitRule) (t0 t : UInt64) : Nat :=
  rule.capacity.toNat + rule.rate.toNat * ((t.toNat - t0.toNat) / rule.refillInterval.toNat)

/-- What is in the bucket and what has been handed out was granted up to the last refill. -/
structure Sound (rule : RateLimitRule) (t0 latest : UInt64) (accepted : Nat)
    (b : TokenBucketRateLimiter) : Prop where
  same : b.rule = rule
  ceiling : b.tokens ≤ rule.capacity
  started : t0 ≤ b.last
  past : b.last ≤ latest
  covered : accepted + b.tokens.toNat ≤ granted rule t0 b.last

variable {rule : RateLimitRule} {t0 now : UInt64} {accepted : Nat} {b : TokenBucketRateLimiter}

theorem sound_init (later : t0 ≤ latest) : Sound rule t0 latest 0 (init rule t0) where
  same := rfl
  ceiling := UInt64.le_refl _
  started := UInt64.le_refl _
  past := later
  covered := by simp [init, granted]

theorem granted_mono (rule : RateLimitRule) (t0 : UInt64) (order : t ≤ u) :
    granted rule t0 t ≤ granted rule t0 u := by
  apply Nat.add_le_add_left
  apply Nat.mul_le_mul_left
  apply Nat.div_le_div_right
  exact Nat.sub_le_sub_right (UInt64.le_iff_toNat_le.mp order) _

theorem granted_add (rule : RateLimitRule) (started : t0 ≤ t) (order : t ≤ u) :
    granted rule t0 t + rule.rate.toNat * ((u.toNat - t.toNat) / rule.refillInterval.toNat) ≤
      granted rule t0 u := by
  have first := UInt64.le_iff_toNat_le.mp started
  have second := UInt64.le_iff_toNat_le.mp order
  have both : u.toNat - t0.toNat = (t.toNat - t0.toNat) + (u.toNat - t.toNat) := by omega
  rw [granted, granted, both, Nat.add_assoc, ← Nat.mul_add]
  apply Nat.add_le_add_left
  apply Nat.mul_le_mul_left
  exact Nat.div_add_div_le_add_div

theorem toNat_fill (gain : UInt64) (ceiling : b.tokens ≤ b.rule.capacity) :
    (b.fill gain).toNat = min b.rule.capacity.toNat (b.tokens.toNat + gain.toNat) := by
  have room := UInt64.toNat_sub_of_le _ _ ceiling
  have bound := b.rule.capacity.toNat_lt
  unfold fill
  split
  · rename_i full
    have full := UInt64.le_iff_toNat_le.mp full
    omega
  · rename_i free
    have free := UInt64.lt_iff_toNat_lt.mp (UInt64.not_le.mp free)
    rw [UInt64.toNat_add, Nat.mod_eq_of_lt (by omega)]
    omega

theorem fill_le (gain : UInt64) (ceiling : b.tokens ≤ b.rule.capacity) :
    b.fill gain ≤ b.rule.capacity ∧ (b.fill gain).toNat ≤ b.tokens.toNat + gain.toNat := by
  rw [UInt64.le_iff_toNat_le, toNat_fill gain ceiling]
  exact ⟨Nat.min_le_left _ _, Nat.min_le_right _ _⟩

theorem Sound.refill (sound : Sound rule t0 latest accepted b) (later : now ≤ latest) :
    Sound rule t0 latest accepted (b.refill now) := by
  obtain ⟨rfl, ceiling, started, past, covered⟩ := sound
  unfold TokenBucketRateLimiter.refill
  split
  · exact ⟨rfl, ceiling, started, past, covered⟩
  · split
    · exact ⟨rfl, ceiling, started, past, covered⟩
    · rename_i forward
      split
      · exact ⟨rfl, ceiling, started, past, covered⟩
      · have order : b.last ≤ now := UInt64.le_of_lt (UInt64.not_le.mp forward)
        obtain ⟨clamped, filled⟩ :=
          fill_le ((now - b.last) / b.rule.refillInterval * b.rule.rate) ceiling
        have gained : ((now - b.last) / b.rule.refillInterval * b.rule.rate).toNat ≤
            b.rule.rate.toNat * ((now.toNat - b.last.toNat) / b.rule.refillInterval.toNat) := by
          rw [UInt64.toNat_mul, UInt64.toNat_div, UInt64.toNat_sub_of_le _ _ order, Nat.mul_comm]
          exact Nat.mod_le _ _
        have sum := granted_add b.rule started order
        refine ⟨rfl, clamped, UInt64.le_trans started order, later, ?_⟩
        calc accepted + (b.fill _).toNat
            ≤ accepted + b.tokens.toNat + _ := by omega
          _ ≤ granted b.rule t0 b.last + _ := Nat.add_le_add covered gained
          _ ≤ granted b.rule t0 now := sum

theorem toNat_spend (available : 0 < b.tokens) : (b.tokens - 1).toNat = b.tokens.toNat - 1 := by
  apply UInt64.toNat_sub_of_le
  exact UInt64.le_iff_toNat_le.mpr (UInt64.lt_iff_toNat_lt.mp available)

theorem Sound.acquire (sound : Sound rule t0 latest accepted b) (enabled : rule.enabled = true)
    (later : now ≤ latest) :
    Sound rule t0 latest (accepted + (b.acquire now).2.toNat) (b.acquire now).1 := by
  have refilled := sound.refill later
  unfold TokenBucketRateLimiter.acquire
  rw [sound.same, enabled]
  simp only [Bool.not_true, Bool.false_eq_true, if_false]
  split
  · rename_i available
    have positive : 0 < (b.refill now).tokens.toNat := UInt64.lt_iff_toNat_lt.mp available
    have spent := toNat_spend available
    have ceiling := UInt64.le_iff_toNat_le.mp refilled.ceiling
    have covered := refilled.covered
    refine ⟨refilled.same, ?_, refilled.started, refilled.past, ?_⟩
    · rw [UInt64.le_iff_toNat_le, spent]
      omega
    · rw [spent, Bool.toNat_true]
      exact le_of_eq_of_le (by omega) covered
  · exact refilled

/-- The whole intervals from the last refill to `now`. -/
def intervals (b : TokenBucketRateLimiter) (now : UInt64) : Nat :=
  (now.toNat - b.last.toNat) / b.rule.refillInterval.toNat

/-- What a refill at `now` should leave in the bucket, in exact arithmetic. -/
def exactTokens (b : TokenBucketRateLimiter) (now : UInt64) : Nat :=
  min b.rule.capacity.toNat (b.tokens.toNat + b.intervals now * b.rule.rate.toNat)

/-- The product of the refill fits a word, or what a word keeps of it still fills the
bucket. -/
def Fits (b : TokenBucketRateLimiter) (now : UInt64) : Prop :=
  b.intervals now * b.rule.rate.toNat < 2 ^ 64 ∨
    b.rule.capacity.toNat - b.tokens.toNat ≤ b.intervals now * b.rule.rate.toNat % 2 ^ 64

/-- A refill either leaves the bucket alone, with no whole interval gone, or adds the product
modulo the word size. -/
theorem refill_tokens (ceiling : b.tokens ≤ b.rule.capacity) (now : UInt64) :
    (b.intervals now = 0 ∧ (b.refill now).tokens = b.tokens) ∨
    (b.intervals now ≠ 0 ∧ (b.refill now).tokens.toNat = min b.rule.capacity.toNat
      (b.tokens.toNat + b.intervals now * b.rule.rate.toNat % 2 ^ 64)) := by
  unfold refill intervals
  split
  · rename_i never
    rw [never]
    exact .inl ⟨Nat.div_zero _, rfl⟩
  · split
    · rename_i back
      rw [Nat.sub_eq_zero_of_le (UInt64.le_iff_toNat_le.mp back)]
      exact .inl ⟨Nat.zero_div _, rfl⟩
    · rename_i forward
      have order : b.last ≤ now := UInt64.le_of_lt (UInt64.not_le.mp forward)
      rw [← UInt64.toNat_sub_of_le _ _ order, ← UInt64.toNat_div]
      split
      · rename_i early
        rw [early]
        exact .inl ⟨rfl, rfl⟩
      · rename_i whole
        refine .inr ⟨fun none => whole (UInt64.toNat_inj.mp none), ?_⟩
        rw [toNat_fill _ ceiling, UInt64.toNat_mul]

theorem refill_le_exact (ceiling : b.tokens ≤ b.rule.capacity) :
    (b.refill now).tokens.toNat ≤ b.exactTokens now := by
  have below := UInt64.le_iff_toNat_le.mp ceiling
  rw [exactTokens]
  rcases refill_tokens ceiling now with ⟨none, same⟩ | ⟨-, filled⟩
  · rw [none, same]
    omega
  · omega

theorem refill_exact (ceiling : b.tokens ≤ b.rule.capacity) (whole : 1 ≤ b.intervals now) :
    (b.refill now).tokens.toNat = b.exactTokens now ↔ b.Fits now := by
  rcases refill_tokens ceiling now with ⟨none, -⟩ | ⟨-, filled⟩
  · omega
  · rw [filled, exactTokens, Fits]
    omega

theorem exactTokens_mono (order : sooner ≤ now) : b.exactTokens sooner ≤ b.exactTokens now := by
  apply min_le_min_left
  apply Nat.add_le_add_left
  apply Nat.mul_le_mul_right
  apply Nat.div_le_div_right
  exact Nat.sub_le_sub_right (UInt64.le_iff_toNat_le.mp order) _

theorem refill_rule : (b.refill now).rule = b.rule := by
  unfold refill
  split
  · rfl
  · split
    · rfl
    · split <;> rfl

/-- A call keeps the rule and the burst ceiling, whether or not the rule is enabled. -/
theorem acquire_ceiling (ceiling : b.tokens ≤ b.rule.capacity) (now : UInt64) :
    (b.acquire now).1.rule = b.rule ∧ (b.acquire now).1.tokens ≤ b.rule.capacity := by
  have refilled : (b.refill now).tokens ≤ b.rule.capacity := by
    apply UInt64.le_iff_toNat_le.mpr
    exact (refill_le_exact ceiling).trans (Nat.min_le_left _ _)
  unfold acquire
  split
  · exact ⟨rfl, ceiling⟩
  · split
    · rename_i available
      refine ⟨refill_rule, UInt64.le_trans ?_ refilled⟩
      rw [UInt64.le_iff_toNat_le, toNat_spend available]
      exact Nat.sub_le _ _
    · exact ⟨refill_rule, refilled⟩

theorem answers_ceiling (rule : RateLimitRule) (t0 : UInt64) (nows : List UInt64) :
    (answers acquire (init rule t0) nows).1.tokens ≤
      (answers acquire (init rule t0) nows).1.rule.capacity := by
  refine answers_invariant (P := fun _ (b : TokenBucketRateLimiter) => b.tokens ≤ b.rule.capacity)
    ?_ (UInt64.le_refl _) nows
  intro _ b now ceiling
  obtain ⟨same, kept⟩ := acquire_ceiling ceiling now
  rwa [same]

end TokenBucketRateLimiter
open TokenBucketRateLimiter

/-- However the clock moves, the bucket never holds more than its capacity, and it never
accepts more calls than the rule grants up to the latest time. -/
theorem bucket_never_overadmits (rule : RateLimitRule) (t0 latest : UInt64) (nows : List UInt64)
    (enabled : rule.enabled = true) (started : t0 ≤ latest) (later : ∀ now ∈ nows, now ≤ latest) :
    (answers acquire (init rule t0) nows).1.tokens ≤ rule.capacity ∧
    (answers acquire (init rule t0) nows).2.count true ≤ rule.capacity.toNat +
      rule.rate.toNat * ((latest.toNat - t0.toNat) / rule.refillInterval.toNat) := by
  have run : ∀ (b : TokenBucketRateLimiter) (accepted : Nat),
      Sound rule t0 latest accepted b →
      Sound rule t0 latest (accepted + (answers acquire b nows).2.count true)
        (answers acquire b nows).1 := by
    induction nows with
    | nil =>
      intro b accepted sound
      exact sound
    | cons now rest ih =>
      intro b accepted sound
      have next := sound.acquire enabled (later now List.mem_cons_self)
      have last := ih (fun later' mem => later later' (List.mem_cons_of_mem _ mem)) _ _ next
      have count : ((b.acquire now).2 :: (answers acquire (b.acquire now).1 rest).2).count true =
          (b.acquire now).2.toNat + (answers acquire (b.acquire now).1 rest).2.count true := by
        rw [List.count_cons, Nat.add_comm]
        cases (b.acquire now).2 <;> rfl
      simp only [answers, count, ← Nat.add_assoc]
      exact last
  have sound := run _ 0 (sound_init started)
  refine ⟨sound.ceiling, ?_⟩
  have covered := sound.covered
  have bound := granted_mono rule t0 sound.past
  rw [Nat.zero_add] at covered
  exact (Nat.le_of_add_right_le covered).trans bound

/-- A burst of one: the second call comes too early, and at the fourth the clock has stepped
back. -/
theorem bucket_never_overadmits_burst :
    (answers acquire (init ⟨1, 2, 10, true⟩ 5) [5, 6, 16, 3, 26]).2.count true = 3 ∧
    (answers acquire (init ⟨1, 2, 10, true⟩ 5) [5, 6, 16, 3, 26]).2.count true ≤
      1 + 2 * (21 / 10) := by
  have later : ∀ now ∈ ([5, 6, 16, 3, 26] : List UInt64), now ≤ 26 := by simp
  have bounded := bucket_never_overadmits ⟨1, 2, 10, true⟩ 5 26 [5, 6, 16, 3, 26] rfl (by decide)
    later
  exact ⟨by decide, bounded.2⟩

/-- In every state that calls can leave the bucket in, a refill after whole intervals is exact
if and only if its product fits; up to such a refill, waiting longer never leaves fewer tokens. -/
theorem refill_exact_iff_fits (rule : RateLimitRule) (t0 now : UInt64) (nows : List UInt64)
    (b : TokenBucketRateLimiter) (reached : b = (answers acquire (init rule t0) nows).1)
    (whole : 1 ≤ b.intervals now) :
    ((b.refill now).tokens.toNat = b.exactTokens now ↔ b.Fits now) ∧
    (b.Fits now → ∀ sooner, sooner ≤ now → (b.refill sooner).tokens ≤ (b.refill now).tokens) := by
  have ceiling : b.tokens ≤ b.rule.capacity := reached ▸ answers_ceiling rule t0 nows
  have exact_iff := refill_exact ceiling whole
  refine ⟨exact_iff, ?_⟩
  intro fits sooner order
  apply UInt64.le_iff_toNat_le.mpr
  calc (b.refill sooner).tokens.toNat
      ≤ b.exactTokens sooner := refill_le_exact ceiling
    _ ≤ b.exactTokens now := exactTokens_mono order
    _ = (b.refill now).tokens.toNat := (exact_iff.mpr fits).symm

/-- Eight of ten tokens are gone, and two intervals bring three each. -/
theorem refill_exact_iff_fits_partial :
    ((answers acquire (init ⟨10, 3, 5, true⟩ 0) [0, 0, 0, 0, 0, 0, 0, 0]).1.refill 12).tokens.toNat
      = min 10 (2 + 2 * 3) := by
  have exact_iff := refill_exact_iff_fits ⟨10, 3, 5, true⟩ 0 12 [0, 0, 0, 0, 0, 0, 0, 0] _ rfl
    (by decide)
  exact exact_iff.1.mpr (.inl (by decide))

/-- With a rate of 2^32 each time unit, 2^32 units after the last token was taken the product
is 2^64 and nothing is added; after one unit the bucket was full again. -/
theorem refill_wraps :
    ((answers acquire (init ⟨1, 4294967296, 1, true⟩ 0) [0]).1.refill 4294967296).tokens = 0 ∧
    (answers acquire (init ⟨1, 4294967296, 1, true⟩ 0) [0]).1.exactTokens 4294967296 = 1 ∧
    ((answers acquire (init ⟨1, 4294967296, 1, true⟩ 0) [0]).1.refill 1).tokens = 1 := by
  decide

end Coact.Policy
