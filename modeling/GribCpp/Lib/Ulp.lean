/-
# The last bit of a binary number

A multiple of a power of two that is small enough belongs to a binary format.  The remainder of a
number of the format is therefore a number of the format, as long as the divisor has few bits; and
the multiple of the last bit that is nearest to a number is nearest to it among all numbers of the
format, as those with smaller bits are all below it.
-/
import GribCpp.Lib.Rounding

namespace GribCpp.Rounding

variable {p : ℕ} {emin emax : ℤ} {q : ℚ}

/-- Powers of two multiply out to an integer. -/
lemma exists_int_mul_zpow {e k : ℤ} (h : k ≤ e) (m : ℤ) :
    ∃ n : ℤ, (m : ℚ) * 2 ^ e = n * 2 ^ k := by
  obtain ⟨d, rfl⟩ : ∃ d : ℕ, e = k + d := ⟨(e - k).toNat, by omega⟩
  refine ⟨m * 2 ^ d, ?_⟩
  rw [zpow_add₀ (by norm_num), zpow_natCast]
  push_cast
  ring

/-- **The remainder is exact.**  What is left of a number of the format when multiples of
`d * 2 ^ f` are taken away, and is smaller than the number and than `2 ^ p` times the last bit
`2 ^ f`, belongs to the format. -/
theorem IsBinary.sub_mul (h : IsBinary p emin emax q) (d : ℤ) {f : ℤ} (hf : emin ≤ f)
    (n : ℤ) {r : ℚ} (hr : r = q - d * 2 ^ f * n) (hle : |r| ≤ |q|) (hlt : |r| < 2 ^ p * 2 ^ f) :
    IsBinary p emin emax r := by
  obtain ⟨m, e, hm, hmin, hmax, rfl⟩ := h
  set k := min e f with hk
  -- everything is a multiple of the smaller power
  obtain ⟨a, ha⟩ := exists_int_mul_zpow (min_le_left e f) m
  obtain ⟨b, hb⟩ := exists_int_mul_zpow (min_le_right e f) (d * n)
  have hpos : (0 : ℚ) < 2 ^ k := by positivity
  have hrk : r = (a - b : ℤ) * 2 ^ k := by
    rw [hr, ha]
    push_cast at hb ⊢
    linear_combination -hb
  refine ⟨a - b, k, ?_, le_min hmin hf, (min_le_left e f).trans hmax, hrk⟩
  have habs : |r| = |((a - b : ℤ) : ℚ)| * 2 ^ k := by rw [hrk, abs_mul, abs_of_pos hpos]
  have hbound : |((a - b : ℤ) : ℚ)| < 2 ^ p := by
    rcases min_choice e f with hmin' | hmin'
    · -- the last bit is that of the number
      rw [habs, abs_mul, hk, hmin', abs_of_pos (by positivity : (0 : ℚ) < 2 ^ e)] at hle
      have hm' : |(m : ℚ)| < 2 ^ p := by exact_mod_cast hm
      exact (le_of_mul_le_mul_right hle (by positivity)).trans_lt hm'
    · rw [habs, hk, hmin'] at hlt
      exact lt_of_mul_lt_mul_right hlt (by positivity)
  exact_mod_cast hbound

/-- An integer at most one half away is the nearest one. -/
lemma abs_sub_le_of_half {x : ℚ} {m : ℤ} (h : |x - m| ≤ 1 / 2) (n : ℤ) : |x - m| ≤ |x - n| := by
  by_cases hmn : m = n
  · rw [hmn]
  · have hone : (1 : ℚ) ≤ |((m - n : ℤ) : ℚ)| := by
      exact_mod_cast Int.one_le_abs (sub_ne_zero.mpr hmn)
    have htriangle : |((m - n : ℤ) : ℚ)| ≤ |x - m| + |x - n| := by
      calc |((m - n : ℤ) : ℚ)| = |(x - n) - (x - m)| := by push_cast; ring_nf
        _ ≤ |x - n| + |x - m| := abs_sub _ _
        _ = |x - m| + |x - n| := add_comm _ _
    linarith

/-- **A multiple of the last bit that is at most half a bit away is nearest**: `2 ^ k` is the last
bit of the number if the number has `p` bits from there on, or the format has no smaller bit. -/
theorem isNearest_of_lastBit (hp : 0 < p) {k m : ℤ} (hk : k = emin ∨ (2 : ℚ) ^ (k + p - 1) ≤ |q|)
    (hmem : IsBinary p emin emax (m * 2 ^ k)) (hhalf : |q / 2 ^ k - m| ≤ 1 / 2) :
    IsNearest {x | IsBinary p emin emax x} q (m * 2 ^ k) := by
  have hpos : (0 : ℚ) < 2 ^ k := by positivity
  -- among the multiples of the last bit it is nearest
  have hgrid (n : ℤ) : |q - m * 2 ^ k| ≤ |q - n * 2 ^ k| := by
    have hscale (n : ℤ) : |q - n * 2 ^ k| = |q / 2 ^ k - n| * 2 ^ k := by
      rw [← abs_of_pos hpos, ← abs_mul, abs_of_pos hpos, sub_mul, div_mul_cancel₀ _ hpos.ne']
    rw [hscale, hscale]
    exact mul_le_mul_of_nonneg_right (abs_sub_le_of_half hhalf n) hpos.le
  refine ⟨hmem, ?_⟩
  rintro z ⟨n, e, hn, hmin, hmax, rfl⟩
  rcases le_or_gt k e with hke | hek
  · obtain ⟨n', hn'⟩ := exists_int_mul_zpow hke n
    rw [hn']
    exact hgrid n'
  · -- a number with a smaller bit is below the power of two that the number reaches
    have hreach : (2 : ℚ) ^ (k + p - 1) ≤ |q| := hk.resolve_left (by omega)
    have hsmall : |(n : ℚ) * 2 ^ e| < 2 ^ (k + p - 1) := by
      have hn' : |(n : ℚ)| < 2 ^ p := by exact_mod_cast hn
      calc |(n : ℚ) * 2 ^ e| = |(n : ℚ)| * 2 ^ e := by
            rw [abs_mul, abs_of_pos (by positivity : (0 : ℚ) < 2 ^ e)]
        _ < 2 ^ p * 2 ^ e := by gcongr
        _ = 2 ^ (p + e) := by rw [zpow_add₀ (by norm_num), zpow_natCast]
        _ ≤ 2 ^ (k + p - 1) := zpow_le_zpow_right₀ (by norm_num) (by omega)
    have hpow : (2 : ℚ) ^ (k + p - 1) = ((2 ^ (p - 1) : ℤ) : ℚ) * 2 ^ k := by
      rw [Int.cast_pow, ← zpow_natCast, Int.cast_ofNat, ← zpow_add₀ (by norm_num)]
      congr 1
      omega
    have hz := abs_le.mp hsmall.le
    rcases le_total 0 q with hq | hq
    · rw [abs_of_nonneg hq] at hreach
      calc |q - m * 2 ^ k| ≤ |q - ((2 ^ (p - 1) : ℤ) : ℚ) * 2 ^ k| := hgrid _
        _ = q - 2 ^ (k + p - 1) := by rw [← hpow, abs_of_nonneg (by linarith)]
        _ ≤ q - n * 2 ^ e := by linarith [hz.2]
        _ ≤ |q - n * 2 ^ e| := le_abs_self _
    · rw [abs_of_nonpos hq] at hreach
      calc |q - m * 2 ^ k| ≤ |q - ((-2 ^ (p - 1) : ℤ) : ℚ) * 2 ^ k| := hgrid _
        _ = -(q + 2 ^ (k + p - 1)) := by
            rw [hpow, Int.cast_neg, neg_mul, sub_neg_eq_add, ← hpow, abs_of_nonpos (by linarith)]
        _ ≤ -(q - n * 2 ^ e) := by linarith [hz.1]
        _ ≤ |q - n * 2 ^ e| := neg_le_abs _

end GribCpp.Rounding
