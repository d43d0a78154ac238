/-
# Back-off

The model of `RetryPolicy` and of `calculate_retry_delay` in `include/grib/retry.hpp`, in exact
rational arithmetic.  The two factors are any floating-point numbers, infinities and NaN among
them, and are sanitized first; the draw of the jitter is any number of its interval.  The
conversion back to an integer is defined only within the range of 64 bits.
-/
import GribCpp.Lib.Saturation
import GribCpp.Models.EcmwfIndex

namespace GribCpp.Http

open Rounding Saturation Sidecar

/-! ## The policy -/

/-- The floating-point number `2.0`. -/
def two : Double := .finite ((2 : ℤ) : ℚ) (isBinary64_intCast (by decide))

/-- The floating-point number `0.1`. -/
def tenth : Double :=
  .finite (3602879701896397 / 2 ^ 55)
    ⟨3602879701896397, -55, by norm_num, by norm_num, by norm_num, by norm_num [zpow_neg]⟩

/-- `RetryPolicy`; the delays are in milliseconds. -/
structure RetryPolicy where
  initialDelay : Int64 := 500
  maxDelay : Int64 := 30000
  backoffMultiplier : Double := two
  jitterFactor : Double := tenth
  maxAttempts : UInt8 := 3
  retryOnNetworkError : Bool := true
  retryOnRateLimit : Bool := true
  retryOnServerError : Bool := true

namespace RetryPolicy

/-- The `maximum` of `calculate_retry_delay`. -/
def maximum (p : RetryPolicy) : Int64 := if p.maxDelay < 0 then 0 else p.maxDelay

/-- The initial delay, clamped. -/
def initial (p : RetryPolicy) : Int64 :=
  if p.initialDelay < 0 then 0
  else if p.maximum < p.initialDelay then p.maximum
  else p.initialDelay

/-- The `multiplier`: a factor that is not finite is none. -/
def multiplier (p : RetryPolicy) : ℚ := p.backoffMultiplier.value.elim 1 (max · 0)

/-- The `spread`. -/
def spread (p : RetryPolicy) : ℚ := p.jitterFactor.value.elim 0 fun q => max 0 (min q 1)

/-- A draw of the jitter. -/
def Jitter (p : RetryPolicy) : Type := {j : ℚ // 1 - p.spread ≤ j ∧ j ≤ 1 + p.spread}

end RetryPolicy

/-! ## The delay -/

/-- The loop of `calculate_retry_delay`. -/
def growDelay (multiplier maxMs : ℚ) (attempt i : UInt8) (delayMs : ℚ) : ℚ :=
  if i < attempt then
    growDelay multiplier maxMs attempt (i + 1) (min (delayMs * multiplier) maxMs)
  else delayMs
termination_by attempt.toNat - i.toNat
decreasing_by
  rename_i h
  have hlt := UInt8.lt_iff_toNat_lt.mp h
  have hmax := attempt.toNat_lt
  have hone : (1 : UInt8).toNat = 1 := rfl
  rw [UInt8.toNat_add, hone]
  omega

/-- The conversion of a floating-point number to `std::int64_t`; undefined out of range. -/
def toInt64? (q : ℚ) : Option Int64 :=
  if -2 ^ 63 ≤ trunc q ∧ trunc q < 2 ^ 63 then some (Int64.ofInt (trunc q)) else none

/-- `calculate_retry_delay`, given the draw of the jitter; none when the conversion at its end is
undefined.  A delay in exact arithmetic is always finite. -/
def calculateRetryDelay? (attempt : UInt8) (policy : RetryPolicy) (jitter : policy.Jitter) :
    Option Int64 :=
  let maxMs : ℚ := policy.maximum.toInt
  let grown := growDelay policy.multiplier maxMs attempt 1 policy.initial.toInt
  let delayMs := if 0 < policy.spread then grown * jitter.1 else grown
  if maxMs ≤ delayMs then some policy.maximum else toInt64? delayMs

/-! ## What the delay comes to -/

/-- The loop multiplies and cuts off as often as its counter counts. -/
lemma growDelay_eq (multiplier maxMs : ℚ) (attempt i : UInt8) (delayMs : ℚ) :
    growDelay multiplier maxMs attempt i delayMs
      = (grow multiplier maxMs)^[attempt.toNat - i.toNat] delayMs := by
  fun_induction growDelay multiplier maxMs attempt i delayMs with
  | case1 i delayMs h ih =>
    have hlt := UInt8.lt_iff_toNat_lt.mp h
    have hmax := attempt.toNat_lt
    have hone : (1 : UInt8).toNat = 1 := rfl
    have hnext : (i + 1).toNat = i.toNat + 1 := by
      rw [UInt8.toNat_add, hone]
      omega
    have hsteps : attempt.toNat - i.toNat = attempt.toNat - (i.toNat + 1) + 1 := by omega
    rw [ih, hnext, hsteps, Function.iterate_succ_apply, grow]
  | case2 i delayMs h =>
    have hle := not_lt.mp (mt UInt8.lt_iff_toNat_lt.mpr h)
    rw [Nat.sub_eq_zero_of_le hle, Function.iterate_zero_apply]

lemma toInt64?_of_mem {q : ℚ} {n : ℤ} (h : 0 ≤ q) (hlt : q < n) (hn : n < 2 ^ 63) :
    ∃ d, toInt64? q = some d ∧ d.toInt = ⌊q⌋ := by
  have hfloor : 0 ≤ ⌊q⌋ := Int.floor_nonneg.mpr h
  have hlt' : ⌊q⌋ < n := Int.floor_lt.mpr hlt
  have hrange : -2 ^ 63 ≤ trunc q ∧ trunc q < 2 ^ 63 := by
    rw [trunc_of_nonneg h]
    omega
  refine ⟨_, if_pos hrange, ?_⟩
  rw [Int64.toInt_ofInt_of_le hrange.1 hrange.2, trunc_of_nonneg h]

namespace RetryPolicy

variable (p : RetryPolicy)

/-- The largest delay, as an integer. -/
def ceiling : ℤ := max p.maxDelay.toInt 0

/-- The first delay, as an integer. -/
def start : ℤ := max 0 (min p.initialDelay.toInt p.ceiling)

/-- The delay of an attempt without jitter, over the rational numbers. -/
def exactDelay (attempt : UInt8) : ℚ :=
  min p.ceiling (p.start * p.multiplier ^ (max attempt.toNat 1 - 1))

lemma ceiling_nonneg : 0 ≤ p.ceiling := le_max_right _ _

lemma toInt_maximum : p.maximum.toInt = p.ceiling := by
  have hzero : (0 : Int64).toInt = 0 := rfl
  rw [maximum, ceiling]
  split
  · rename_i h
    rw [Int64.lt_iff_toInt_lt, hzero] at h
    rw [hzero]
    omega
  · rename_i h
    rw [Int64.lt_iff_toInt_lt, hzero] at h
    omega

lemma toInt_initial : p.initial.toInt = p.start := by
  have hzero : (0 : Int64).toInt = 0 := rfl
  have hnonneg := p.ceiling_nonneg
  rw [initial, start]
  simp only [Int64.lt_iff_toInt_lt, hzero, toInt_maximum]
  split
  · rw [hzero]
    omega
  · split
    · rw [toInt_maximum]
      omega
    · omega

lemma start_nonneg : 0 ≤ p.start := le_max_left _ _

lemma start_le : p.start ≤ p.ceiling := max_le p.ceiling_nonneg (min_le_right _ _)

lemma multiplier_nonneg : 0 ≤ p.multiplier := by
  rw [multiplier]
  cases p.backoffMultiplier.value with
  | none => exact zero_le_one
  | some q => exact le_max_right _ _

lemma spread_le_one : p.spread ≤ 1 := by
  rw [spread]
  cases p.jitterFactor.value with
  | none => exact zero_le_one
  | some q => exact max_le zero_le_one (min_le_right _ _)

lemma jitter_nonneg (jitter : p.Jitter) : 0 ≤ jitter.1 :=
  (sub_nonneg.mpr p.spread_le_one).trans jitter.2.1

lemma exactDelay_nonneg (attempt : UInt8) : 0 ≤ p.exactDelay attempt := by
  have h1 : (0 : ℚ) ≤ p.ceiling := by exact_mod_cast p.ceiling_nonneg
  have h2 : (0 : ℚ) ≤ p.start := by exact_mod_cast p.start_nonneg
  exact le_min h1 (mul_nonneg h2 (pow_nonneg p.multiplier_nonneg _))

/-- The loop ends with the exact delay. -/
lemma growDelay_eq_exactDelay (attempt : UInt8) :
    growDelay p.multiplier p.maximum.toInt attempt 1 p.initial.toInt = p.exactDelay attempt := by
  have hone : (1 : UInt8).toNat = 1 := rfl
  have hsteps : attempt.toNat - 1 = max attempt.toNat 1 - 1 := by omega
  rw [growDelay_eq, toInt_maximum, toInt_initial, hone, hsteps, exactDelay]
  exact iterate_grow p.multiplier_nonneg (by exact_mod_cast p.start_nonneg)
    (by exact_mod_cast p.start_le) _

lemma exactDelay_mono (h : 1 ≤ p.multiplier) {attempt attempt' : UInt8} (hle : attempt ≤ attempt') :
    p.exactDelay attempt ≤ p.exactDelay attempt' := by
  have hnat := UInt8.le_iff_toNat_le.mp hle
  exact min_mul_pow_mono h (by exact_mod_cast p.start_nonneg) (by omega)

end RetryPolicy

section Delay

variable (attempt : UInt8) (policy : RetryPolicy) (jitter : policy.Jitter)

/-- The conversion is defined, whatever is drawn, and the delay is within the bounds. -/
lemma exists_calculateRetryDelay? :
    ∃ d, calculateRetryDelay? attempt policy jitter = some d ∧ 0 ≤ d.toInt ∧
      d.toInt ≤ policy.ceiling ∧
      (policy.spread = 0 → d.toInt = ⌊policy.exactDelay attempt⌋) := by
  have hexact := policy.exactDelay_nonneg attempt
  rw [calculateRetryDelay?, policy.growDelay_eq_exactDelay]
  obtain ⟨delayMs, hdelay, hnonneg, hzero⟩ : ∃ delayMs : ℚ,
      (if 0 < policy.spread then policy.exactDelay attempt * jitter.1
        else policy.exactDelay attempt) = delayMs ∧ 0 ≤ delayMs ∧
      (policy.spread = 0 → delayMs = policy.exactDelay attempt) := by
    by_cases hspread : 0 < policy.spread
    · exact ⟨_, if_pos hspread, mul_nonneg hexact (policy.jitter_nonneg jitter),
        fun h => absurd h hspread.ne'⟩
    · exact ⟨_, if_neg hspread, hexact, fun _ => rfl⟩
  simp only [hdelay, policy.toInt_maximum]
  by_cases hmax : (policy.ceiling : ℚ) ≤ delayMs
  · rw [if_pos hmax]
    refine ⟨_, rfl, ?_, policy.toInt_maximum.le, fun h => ?_⟩
    · rw [policy.toInt_maximum]
      exact policy.ceiling_nonneg
    · -- the delay has been cut off at the largest one
      rw [hzero h] at hmax
      have heq : policy.exactDelay attempt = policy.ceiling :=
        le_antisymm (min_le_left _ _) hmax
      rw [policy.toInt_maximum, heq, Int.floor_intCast]
  · rw [if_neg hmax]
    rw [not_le] at hmax
    have hrange : policy.ceiling < 2 ^ 63 := by
      rw [← policy.toInt_maximum]
      exact policy.maximum.toInt_lt
    obtain ⟨d, hd, hfloor⟩ := toInt64?_of_mem hnonneg hmax hrange
    refine ⟨d, hd, ?_, ?_, fun h => by rw [hfloor, hzero h]⟩
    · rw [hfloor]
      exact Int.floor_nonneg.mpr hnonneg
    · rw [hfloor]
      exact (Int.floor_lt.mpr hmax).le

/-- `calculate_retry_delay`. -/
def calculateRetryDelay : Int64 :=
  (calculateRetryDelay? attempt policy jitter).get (by
    obtain ⟨d, hd, -⟩ := exists_calculateRetryDelay? attempt policy jitter
    rw [hd]
    rfl)

lemma calculateRetryDelay?_eq :
    calculateRetryDelay? attempt policy jitter = some (calculateRetryDelay attempt policy jitter) :=
  (Option.some_get _).symm

end Delay

/-- **The back-off.**  For every policy, attempt and draw, the conversion at the end is defined
and the delay lies between zero and the largest one.  Without jitter it is the integer part of
the initial delay times a power of the factor, cut off at the largest delay, and it never
decreases from one attempt to the next when the factor is at least one. -/
theorem calculateRetryDelay_law (policy : RetryPolicy) :
    (∀ (attempt : UInt8) (jitter : policy.Jitter),
      calculateRetryDelay? attempt policy jitter
          = some (calculateRetryDelay attempt policy jitter) ∧
        0 ≤ (calculateRetryDelay attempt policy jitter).toInt ∧
        (calculateRetryDelay attempt policy jitter).toInt ≤ max policy.maxDelay.toInt 0 ∧
        (policy.spread = 0 →
          (calculateRetryDelay attempt policy jitter).toInt
            = ⌊min (policy.ceiling : ℚ)
                (policy.start * policy.multiplier ^ (max attempt.toNat 1 - 1))⌋)) ∧
      (policy.spread = 0 → 1 ≤ policy.multiplier →
        ∀ (attempt attempt' : UInt8) (jitter jitter' : policy.Jitter), attempt ≤ attempt' →
          (calculateRetryDelay attempt policy jitter).toInt
            ≤ (calculateRetryDelay attempt' policy jitter').toInt) := by
  have hspec : ∀ (attempt : UInt8) (jitter : policy.Jitter),
      0 ≤ (calculateRetryDelay attempt policy jitter).toInt ∧
      (calculateRetryDelay attempt policy jitter).toInt ≤ policy.ceiling ∧
      (policy.spread = 0 → (calculateRetryDelay attempt policy jitter).toInt
        = ⌊policy.exactDelay attempt⌋) := by
    intro attempt jitter
    obtain ⟨d, hd, hbounds⟩ := exists_calculateRetryDelay? attempt policy jitter
    rw [calculateRetryDelay?_eq, Option.some.injEq] at hd
    rwa [hd]
  refine ⟨fun attempt jitter => ⟨calculateRetryDelay?_eq .., hspec attempt jitter⟩, ?_⟩
  intro hspread hfactor attempt attempt' jitter jitter' hle
  rw [(hspec attempt jitter).2.2 hspread, (hspec attempt' jitter').2.2 hspread]
  exact Int.floor_le_floor (policy.exactDelay_mono hfactor hle)

/-- A policy without jitter. -/
def steadyPolicy : RetryPolicy where
  jitterFactor := .nan

/-- The only draw of that policy. -/
def steadyJitter : steadyPolicy.Jitter :=
  ⟨1, by norm_num [steadyPolicy, RetryPolicy.spread, Double.value],
    by norm_num [steadyPolicy, RetryPolicy.spread, Double.value]⟩

theorem calculateRetryDelay_law_steady :
    (calculateRetryDelay 3 steadyPolicy steadyJitter).toInt = 2000 := by
  have h := ((calculateRetryDelay_law steadyPolicy).1 3 steadyJitter).2.2.2 rfl
  have hceiling : steadyPolicy.ceiling = 30000 := by decide
  have hstart : steadyPolicy.start = 500 := by decide
  have hfactor : steadyPolicy.multiplier = 2 := by
    norm_num [steadyPolicy, RetryPolicy.multiplier, Double.value, two]
  have hsteps : max (3 : UInt8).toNat 1 - 1 = 2 := by decide
  rw [hceiling, hstart, hfactor, hsteps] at h
  rw [h]
  norm_num

end GribCpp.Http
