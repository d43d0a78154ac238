/-
# Rounding to a nearest point, and binary floating-point numbers

A nearest point of a set to `x` is on the same side of every point of the set as `x`, and
is `x` itself when `x` belongs to the set.  The finite binary floating-point numbers with
`p` bits contain all integers up to `2 ^ p`, hence an integer is never rounded to a
different small integer; but numbers close below `1` are rounded to `1`.
-/
import Mathlib

namespace GribCpp.Rounding

/-! ## Nearest points -/

section Nearest

variable {α : Type*} [AddCommGroup α] [LinearOrder α]

/-- `y` is a point of `S` that is nearest to `x`. -/
structure IsNearest (S : Set α) (x y : α) : Prop where
  mem : y ∈ S
  closest : ∀ z ∈ S, |x - y| ≤ |x - z|

variable [IsOrderedAddMonoid α] {S : Set α} {x y a : α}

lemma IsNearest.eq_of_mem (h : IsNearest S x y) (hx : x ∈ S) : y = x := by
  have hle := h.closest x hx
  rw [sub_self, abs_zero] at hle
  exact (sub_eq_zero.mp (abs_nonpos_iff.mp hle)).symm

lemma IsNearest.le_of_le (h : IsNearest S x y) (ha : a ∈ S) (hax : a ≤ x) : a ≤ y := by
  by_contra hlt
  rw [not_le] at hlt
  have hle := h.closest a ha
  rw [abs_of_nonneg (sub_nonneg.mpr hax), abs_of_nonneg (sub_nonneg.mpr (hlt.le.trans hax))] at hle
  exact absurd ((sub_le_sub_iff_left x).mp hle) (not_le.mpr hlt)

lemma IsNearest.ge_of_ge (h : IsNearest S x y) (ha : a ∈ S) (hxa : x ≤ a) : y ≤ a := by
  by_contra hlt
  rw [not_le] at hlt
  have hle := h.closest a ha
  rw [abs_sub_comm, abs_sub_comm x a, abs_of_nonneg (sub_nonneg.mpr hxa),
    abs_of_nonneg (sub_nonneg.mpr (hxa.trans hlt.le))] at hle
  exact absurd ((sub_le_sub_iff_right x).mp hle) (not_le.mpr hlt)

end Nearest

/-! ## Binary floating-point numbers -/

/-- The finite numbers of a binary format: a significand of `p` bits and an exponent. -/
def IsBinary (p : ℕ) (emin emax : ℤ) (q : ℚ) : Prop :=
  ∃ m e : ℤ, |m| < 2 ^ p ∧ emin ≤ e ∧ e ≤ emax ∧ q = m * (2 : ℚ) ^ e

section Binary

variable {p : ℕ} {emin emax : ℤ} {q x : ℚ}

/-- The integers up to `2 ^ p` belong to the format. -/
lemma isBinary_intCast (hp : 0 < p) (hmin : emin ≤ 0) (hmax : (p : ℤ) ≤ emax) {n : ℤ}
    (hn : |n| ≤ 2 ^ p) : IsBinary p emin emax n := by
  have hp0 : (0 : ℤ) ≤ p := Int.natCast_nonneg p
  rcases hn.lt_or_eq with hlt | heq
  · exact ⟨n, 0, hlt, hmin, by omega, by simp⟩
  · -- the largest of them is a power of two, and has a significand of one bit
    have hone : (1 : ℤ) < 2 ^ p := one_lt_pow₀ (by norm_num) hp.ne'
    rcases abs_eq (by positivity : (0 : ℤ) ≤ 2 ^ p) |>.mp heq with rfl | rfl
    · exact ⟨1, p, by rwa [abs_one], by omega, hmax, by simp⟩
    · exact ⟨-1, p, by rwa [abs_neg, abs_one], by omega, hmax, by simp⟩

/-- **An integer is not rounded to another integer of the format's precision**, nor to any
number below `2 ^ p`. -/
theorem IsNearest.eq_intCast (hp : 0 < p) (hmin : emin ≤ 0) (hmax : (p : ℤ) ≤ emax) {n : ℤ}
    (h : IsNearest {q | IsBinary p emin emax q} (n : ℚ) q) (hq : |q| < 2 ^ p) : q = n := by
  have hpos : (0 : ℤ) ≤ 2 ^ p := by positivity
  have htop : IsBinary p emin emax ((2 ^ p : ℤ) : ℚ) :=
    isBinary_intCast hp hmin hmax (abs_of_nonneg hpos).le
  have hbot : IsBinary p emin emax ((-2 ^ p : ℤ) : ℚ) :=
    isBinary_intCast hp hmin hmax (by rw [abs_neg, abs_of_nonneg hpos])
  rw [abs_lt] at hq
  by_cases hn : |n| ≤ 2 ^ p
  · exact h.eq_of_mem (isBinary_intCast hp hmin hmax hn)
  · rw [abs_le, not_and_or, not_le, not_le] at hn
    rcases hn with hn | hn
    · have hle := h.ge_of_ge hbot (by exact_mod_cast hn.le)
      push_cast at hle
      exact absurd hle (not_le.mpr hq.1)
    · have hle := h.le_of_le htop (by exact_mod_cast hn.le)
      push_cast at hle
      exact absurd hle (not_le.mpr hq.2)

/-- The format has a gap below `1`. -/
lemma IsBinary.le_of_lt_one (hp : 0 < p) (h : IsBinary p emin emax q) (hlt : q < 1) :
    q ≤ 1 - 1 / 2 ^ p := by
  obtain ⟨m, e, hm, -, -, rfl⟩ := h
  have htwo : (2 : ℚ) ≤ 2 ^ p := by
    calc (2 : ℚ) = 2 ^ 1 := (pow_one 2).symm
      _ ≤ 2 ^ p := pow_le_pow_right₀ (by norm_num) hp
  have hhalf : (1 : ℚ) / 2 ^ p ≤ 1 / 2 := one_div_le_one_div_of_le (by norm_num) htwo
  rcases lt_or_ge e 0 with he | he
  · obtain ⟨k, rfl⟩ : ∃ k : ℕ, e = -(k : ℤ) := ⟨e.natAbs, by omega⟩
    have hk : (0 : ℚ) < 2 ^ k := by positivity
    rw [zpow_neg, zpow_natCast, ← div_eq_mul_inv] at hlt ⊢
    by_cases hkp : k ≤ p
    · -- the number is a multiple of `1 / 2 ^ k`
      rw [div_lt_one hk] at hlt
      have hle : m + 1 ≤ 2 ^ k := by exact_mod_cast hlt
      have hle' : (m : ℚ) + 1 ≤ 2 ^ k := by exact_mod_cast hle
      have hkp' : (1 : ℚ) / 2 ^ p ≤ 1 / 2 ^ k :=
        one_div_le_one_div_of_le hk (pow_le_pow_right₀ (by norm_num) hkp)
      calc (m : ℚ) / 2 ^ k ≤ (2 ^ k - 1) / 2 ^ k := by gcongr; linarith
        _ = 1 - 1 / 2 ^ k := by rw [sub_div, div_self hk.ne']
        _ ≤ 1 - 1 / 2 ^ p := by linarith
    · -- the number is below one half
      have hm' : (m : ℚ) ≤ 2 ^ p := by exact_mod_cast (le_abs_self m).trans hm.le
      have hkp' : (2 : ℚ) ^ (p + 1) ≤ 2 ^ k := pow_le_pow_right₀ (by norm_num) (by omega)
      have hq : (m : ℚ) / 2 ^ k ≤ 1 / 2 := by
        rw [div_le_div_iff₀ hk (by norm_num)]
        rw [pow_succ] at hkp'
        linarith
      linarith
  · -- the number is an integer
    obtain ⟨k, rfl⟩ : ∃ k : ℕ, e = (k : ℤ) := ⟨e.natAbs, by omega⟩
    rw [zpow_natCast] at hlt ⊢
    have hint : m * 2 ^ k < 1 := by exact_mod_cast hlt
    have hint' : ((m * 2 ^ k : ℤ) : ℚ) ≤ 0 := by exact_mod_cast (by omega : m * 2 ^ k ≤ 0)
    push_cast at hint'
    linarith

/-- Numbers close below `1` are rounded to `1`. -/
lemma isNearest_one (hp : 0 < p) (hmin : emin ≤ 0) (hmax : (p : ℤ) ≤ emax) (hle : x ≤ 1)
    (hge : 1 - 1 / 2 ^ (p + 1) ≤ x) : IsNearest {q | IsBinary p emin emax q} x 1 := by
  refine ⟨?_, ?_⟩
  · have hone := isBinary_intCast (n := 1) hp hmin hmax
      (by rw [abs_one]; exact one_le_pow₀ (by norm_num))
    simpa using hone
  · intro z hz
    rw [abs_of_nonpos (by linarith)]
    rcases lt_or_ge z 1 with hlt | hge'
    · have hgap := IsBinary.le_of_lt_one hp hz hlt
      have hstep : (1 : ℚ) / 2 ^ p = 2 * (1 / 2 ^ (p + 1)) := by
        rw [pow_succ]
        field_simp
      exact le_trans (by linarith) (le_abs_self _)
    · exact le_trans (by linarith) (neg_le_abs _)

end Binary

end GribCpp.Rounding
