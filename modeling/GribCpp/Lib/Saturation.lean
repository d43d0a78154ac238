/-
# Growth that saturates

A quantity is multiplied by a factor again and again, and cut off at a bound after every step.
As long as it begins within the bound, cutting off once at the end gives the same, for factors
above and below one alike.
-/
import Mathlib

namespace GribCpp.Saturation

variable {α : Type*} [CommSemiring α] [LinearOrder α] [IsStrictOrderedRing α]

/-- One step: multiply, then cut off. -/
def grow (factor bound x : α) : α := min (x * factor) bound

variable {factor bound x : α}

/-- **Cutting off at every step is cutting off once.** -/
theorem iterate_grow (hfactor : 0 ≤ factor) (hx : 0 ≤ x) (hbound : x ≤ bound) (k : ℕ) :
    (grow factor bound)^[k] x = min bound (x * factor ^ k) := by
  induction k with
  | zero => rw [Function.iterate_zero_apply, pow_zero, mul_one, min_eq_right hbound]
  | succ k ih =>
    rw [Function.iterate_succ_apply', ih, grow, pow_succ, ← mul_assoc]
    rcases le_total 1 factor with hone | hone
    · -- a factor above one takes the bound beyond the bound
      have hb : bound ≤ bound * factor := le_mul_of_one_le_right (hx.trans hbound) hone
      rw [min_mul_of_nonneg _ _ hfactor, min_right_comm, min_eq_right hb, min_comm]
    · -- a factor below one never reaches it
      have hpow : factor ^ k ≤ 1 := pow_le_one₀ hfactor hone
      have hle : x * factor ^ k ≤ bound := (mul_le_of_le_one_right hx hpow).trans hbound
      rw [min_eq_right hle, min_comm]

/-- With a factor of at least one, more steps lead further. -/
theorem min_mul_pow_mono (hfactor : 1 ≤ factor) (hx : 0 ≤ x) {k l : ℕ} (hkl : k ≤ l) :
    min bound (x * factor ^ k) ≤ min bound (x * factor ^ l) :=
  min_le_min_left _ (mul_le_mul_of_nonneg_left (pow_le_pow_right₀ hfactor hkl) hx)

end GribCpp.Saturation
