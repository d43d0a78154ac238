/-
# The longitude of a search

`GribHandle::nearest` in `src/decode/handle.cpp` brings a longitude to the range of ecCodes with a
remainder, which is exact, and an addition, which is rounded.  Together they are one rounding of
the longitude modulo a full turn: what ecCodes gets is the number nearest to it, which may be a
full turn again.
-/
import GribCpp.Decode.Nearest
import GribCpp.Lib.Ulp

namespace GribCpp.Decode

open Rounding Sidecar

/-! ## Rounding to a `double` -/

section Rounding

variable {q : ℚ}

/-- An integer is at most one half away. -/
lemma abs_sub_roundHalfEven_le (x : ℚ) : |x - roundHalfEven x| ≤ 1 / 2 := by
  have hle := Int.floor_le x
  have hlt := Int.lt_floor_add_one x
  rw [roundHalfEven, abs_le]
  split_ifs <;> push_cast <;> constructor <;> linarith

/-- The significand has 53 bits, or is the next power of two. -/
lemma abs_roundHalfEven_le (q : ℚ) : |roundHalfEven (q / 2 ^ lastBit q)| ≤ 2 ^ 53 := by
  have hpos : (0 : ℚ) < 2 ^ lastBit q := by positivity
  have hlt : |q| < 2 ^ (lastBit q + 53) := by
    calc |q| < ((2 : ℕ) : ℚ) ^ (Int.log 2 |q| + 1) := Int.lt_zpow_succ_log_self one_lt_two _
      _ = 2 ^ (Int.log 2 |q| + 1) := by norm_num
      _ ≤ 2 ^ (lastBit q + 53) := zpow_le_zpow_right₀ (by norm_num) (by rw [lastBit]; omega)
  have hscaled : |q / 2 ^ lastBit q| < 2 ^ 53 := by
    rw [abs_div, abs_of_pos hpos, div_lt_iff₀ hpos, ← zpow_natCast, ← zpow_add₀ (by norm_num)]
    rwa [add_comm] at hlt
  have hhalf := abs_le.mp (abs_sub_roundHalfEven_le (q / 2 ^ lastBit q))
  have hscaled' := abs_lt.mp hscaled
  have hupper : (roundHalfEven (q / 2 ^ lastBit q) : ℚ) < 2 ^ 53 + 1 := by linarith
  have hlower : (-(2 ^ 53 + 1) : ℚ) < roundHalfEven (q / 2 ^ lastBit q) := by linarith
  rw [abs_le]
  constructor
  · have hlower' : -(2 ^ 53 + 1) < roundHalfEven (q / 2 ^ lastBit q) := by exact_mod_cast hlower
    omega
  · have hupper' : roundHalfEven (q / 2 ^ lastBit q) < 2 ^ 53 + 1 := by exact_mod_cast hupper
    omega

/-- Below the overflow, the multiple of the last bit is what comes out. -/
lemma roundDouble_eq (hq : |q| < 2 ^ (1023 : ℤ)) :
    ∃ h : IsBinary64 (roundHalfEven (q / 2 ^ lastBit q) * 2 ^ lastBit q),
      roundDouble q = .finite _ h := by
  have hbit : lastBit q ≤ 970 := by
    rcases eq_or_ne q 0 with rfl | hne
    · simp [lastBit]
    · have hlog : Int.log 2 |q| < 1023 := by
        rw [← Int.lt_zpow_iff_log_lt one_lt_two (abs_pos.mpr hne), Nat.cast_ofNat]
        exact hq
      rw [lastBit]
      omega
  have hle := abs_roundHalfEven_le q
  by_cases hlt : |roundHalfEven (q / 2 ^ lastBit q)| < 2 ^ 53
  · exact ⟨_, dif_pos ⟨hlt, by omega⟩⟩
  · -- the next power of two
    have htop : roundHalfEven (q / 2 ^ lastBit q) = 2 ^ 53 ∨
        roundHalfEven (q / 2 ^ lastBit q) = -2 ^ 53 :=
      (abs_eq (by norm_num)).mp (hle.antisymm (not_lt.mp hlt))
    have heven : roundHalfEven (q / 2 ^ lastBit q) / 2 * 2 = roundHalfEven (q / 2 ^ lastBit q) := by
      omega
    have hhalf : |roundHalfEven (q / 2 ^ lastBit q) / 2| < 2 ^ 53 := abs_lt.mpr (by omega)
    have hvalue : ((roundHalfEven (q / 2 ^ lastBit q) / 2 : ℤ) : ℚ) * 2 ^ (lastBit q + 1)
        = roundHalfEven (q / 2 ^ lastBit q) * 2 ^ lastBit q := by
      rw [zpow_add_one₀ (by norm_num), mul_comm (2 ^ lastBit q : ℚ), ← mul_assoc]
      congr 1
      exact_mod_cast heven
    have heq : roundDouble q = .finite _ _ :=
      (dif_neg fun h => hlt h.1).trans (dif_pos ⟨hhalf, by omega⟩)
    simp only [hvalue] at heq
    exact ⟨_, heq⟩

/-- **The rounding is correct**: below the overflow, the result is a nearest number, half a bit
away at most. -/
theorem roundDouble_nearest (hq : |q| < 2 ^ (1023 : ℤ)) :
    ∃ y, ∃ h : IsBinary64 y, roundDouble q = .finite y h ∧
      IsNearest {x | IsBinary64 x} q y ∧ |q - y| ≤ 2 ^ lastBit q / 2 := by
  obtain ⟨h, heq⟩ := roundDouble_eq hq
  have hpos : (0 : ℚ) < 2 ^ lastBit q := by positivity
  have hhalf := abs_sub_roundHalfEven_le (q / 2 ^ lastBit q)
  refine ⟨_, h, heq, ?_, ?_⟩
  · rcases eq_or_ne q 0 with rfl | hne
    · simp only [zero_div, roundHalfEven] at h ⊢
      refine ⟨h, fun z _ => ?_⟩
      simp
    · refine isNearest_of_lastBit (by decide) ?_ h hhalf
      rcases le_total (Int.log 2 |q| - 52) (-1074) with hle | hle
      · exact .inl (max_eq_right hle)
      · have hlast : lastBit q = Int.log 2 |q| - 52 := max_eq_left hle
        right
        calc (2 : ℚ) ^ (lastBit q + (53 : ℕ) - 1) = ((2 : ℕ) : ℚ) ^ Int.log 2 |q| := by
              rw [hlast, Nat.cast_ofNat]
              congr 1
              omega
          _ ≤ |q| := Int.zpow_log_le_self one_lt_two (abs_pos.mpr hne)
  · calc |q - roundHalfEven (q / 2 ^ lastBit q) * 2 ^ lastBit q|
        = |q / 2 ^ lastBit q - roundHalfEven (q / 2 ^ lastBit q)| * 2 ^ lastBit q := by
          rw [← abs_of_pos hpos, ← abs_mul, abs_of_pos hpos, sub_mul, div_mul_cancel₀ _ hpos.ne']
      _ ≤ 1 / 2 * 2 ^ lastBit q := mul_le_mul_of_nonneg_right hhalf hpos.le
      _ = 2 ^ lastBit q / 2 := by ring

/-- A number of the format is not changed. -/
lemma roundDouble_of_isBinary64 (h : IsBinary64 q) (hq : |q| < 2 ^ (1023 : ℤ)) :
    roundDouble q = .finite q h := by
  obtain ⟨y, hy, heq, hnear, -⟩ := roundDouble_nearest hq
  have hyq : y = q := hnear.eq_of_mem h
  subst hyq
  exact heq

end Rounding

/-! ## The remainder -/

section Remainder

variable {q : ℚ}

lemma fract_nonneg_lt (q : ℚ) : 0 ≤ 360 * Int.fract q ∧ 360 * Int.fract q < 360 := by
  have hnonneg := Int.fract_nonneg q
  have hlt := Int.fract_lt_one q
  constructor <;> linarith

/-- What `std::fmod` computes for a longitude that is not negative. -/
lemma remainder_of_nonneg (hq : 0 ≤ q) : q - 360 * trunc (q / 360) = 360 * Int.fract (q / 360) := by
  rw [trunc_of_nonneg (by positivity), Int.fract]
  ring

/-- It is an odd function. -/
lemma remainder_neg (q : ℚ) :
    -q - 360 * trunc (-q / 360) = -(q - 360 * trunc (q / 360)) := by
  rw [neg_div, trunc_neg]
  push_cast
  ring

/-- The remainder belongs to the format. -/
lemma isBinary64_remainder (h : IsBinary64 q) (hq : 0 ≤ q) :
    IsBinary64 (360 * Int.fract (q / 360)) := by
  obtain ⟨hnonneg, hlt⟩ := fract_nonneg_lt (q / 360)
  have hturn : ((45 : ℤ) : ℚ) * 2 ^ (3 : ℤ) = 360 := by norm_num
  refine h.sub_mul 45 (show (-1074 : ℤ) ≤ 3 by decide) ⌊q / 360⌋ ?_ ?_ ?_
  · rw [hturn, Int.fract]
    ring
  · have hfloor : (0 : ℚ) ≤ ⌊q / 360⌋ := by
      exact_mod_cast Int.floor_nonneg.mpr (by positivity)
    rw [abs_of_nonneg hnonneg, abs_of_nonneg hq, Int.fract]
    linarith
  · rw [abs_of_nonneg hnonneg]
    exact hlt.trans (by norm_num)

lemma isBinary64_neg (h : IsBinary64 q) : IsBinary64 (-q) := by
  obtain ⟨m, e, hm, hmin, hmax, rfl⟩ := h
  exact ⟨-m, e, by rwa [abs_neg], hmin, hmax, by push_cast; ring⟩

/-- A number of degrees does not overflow. -/
lemma degrees_lt {x : ℚ} (hx : |x| ≤ 360) : |x| < 2 ^ (1023 : ℤ) :=
  hx.trans_lt (by
    calc (360 : ℚ) < 2 ^ (9 : ℤ) := by norm_num
      _ ≤ 2 ^ (1023 : ℤ) := zpow_le_zpow_right₀ (by norm_num) (by norm_num))

/-- `std::fmod` is exact, and keeps the sign. -/
lemma fmod_of_nonneg (h : IsBinary64 q) (hq : 0 ≤ q) :
    fmod q 360 = .finite (360 * Int.fract (q / 360)) (isBinary64_remainder h hq) := by
  obtain ⟨hnonneg, hlt⟩ := fract_nonneg_lt (q / 360)
  rw [fmod, remainder_of_nonneg hq, if_neg fun hneg => absurd hneg.2 (not_lt.mpr hq)]
  exact roundDouble_of_isBinary64 _ (degrees_lt (by rw [abs_of_nonneg hnonneg]; exact hlt.le))

lemma fmod_of_neg (h : IsBinary64 q) (hq : q < 0) :
    fmod q 360 = if Int.fract (-q / 360) = 0 then .negZero
      else .finite (-(360 * Int.fract (-q / 360)))
        (isBinary64_neg (isBinary64_remainder (isBinary64_neg h) (neg_nonneg.mpr hq.le))) := by
  obtain ⟨hnonneg, hlt⟩ := fract_nonneg_lt (-q / 360)
  have hrem : q - 360 * trunc (q / 360) = -(360 * Int.fract (-q / 360)) := by
    rw [← remainder_of_nonneg (neg_nonneg.mpr hq.le), remainder_neg, neg_neg]
  rw [fmod, hrem]
  simp only [neg_eq_zero, mul_eq_zero, OfNat.ofNat_ne_zero, false_or, hq, and_true]
  split_ifs with hzero
  · rfl
  · refine roundDouble_of_isBinary64 _ (degrees_lt ?_)
    rw [abs_neg, abs_of_nonneg hnonneg]
    exact hlt.le

end Remainder

/-! ## The longitude -/

section Longitude

variable {q : ℚ} {lon : Double}

/-- The wrapped longitude is one rounding of the longitude modulo a full turn. -/
lemma value_wrapLongitude (h : lon.value = some q) :
    (wrapLongitude lon).value = (roundDouble (360 * Int.fract (q / 360))).value := by
  cases lon with
  | infinity | nan => simp [Double.value] at h
  | negZero =>
    obtain rfl : 0 = q := Option.some.inj h
    rw [zero_div, Int.fract_zero, mul_zero, roundDouble_of_isBinary64 isBinary64_zero (by norm_num)]
    rfl
  | finite q' hbin =>
    obtain rfl : q' = q := Option.some.inj h
    obtain ⟨hnonneg, hlt⟩ := fract_nonneg_lt (q' / 360)
    rw [wrapLongitude]
    rcases le_or_gt 0 q' with hq | hq
    · rw [fmod_of_nonneg hbin hq, roundDouble_of_isBinary64 (isBinary64_remainder hbin hq)
        (degrees_lt (by rw [abs_of_nonneg hnonneg]; exact hlt.le))]
      simp only
      rw [if_neg (not_lt.mpr hnonneg)]
    · have hneg : q' / 360 = -(-q' / 360) := by rw [neg_div, neg_neg]
      rw [fmod_of_neg hbin hq]
      by_cases hzero : Int.fract (-q' / 360) = 0
      · rw [if_pos hzero, hneg, Int.fract_neg_eq_zero.mpr hzero, mul_zero,
          roundDouble_of_isBinary64 isBinary64_zero (by norm_num)]
        rfl
      · have hpos : 0 < Int.fract (-q' / 360) := (Int.fract_nonneg _).lt_of_ne' hzero
        have hfract : Int.fract (q' / 360) = 1 - Int.fract (-q' / 360) := by
          rw [hneg, Int.fract_neg hzero]
        rw [if_neg hzero]
        simp only
        rw [if_pos (by linarith), hfract]
        congr 2
        ring

/-! ### A full turn -/

/-- Numbers of degrees have 44 bits behind the point. -/
lemma lastBit_le {x : ℚ} (hx : |x| < 2 ^ (9 : ℤ)) : lastBit x ≤ -44 := by
  rcases eq_or_ne x 0 with rfl | hne
  · simp [lastBit]
  · have hlog : Int.log 2 |x| < 9 := by
      rwa [← Int.lt_zpow_iff_log_lt one_lt_two (abs_pos.mpr hne), Nat.cast_ofNat]
    rw [lastBit]
    omega

lemma lastBit_eq {x : ℚ} (hx : |x| < 2 ^ (9 : ℤ)) (hge : 2 ^ (8 : ℤ) ≤ |x|) : lastBit x = -44 := by
  have hpos : 0 < |x| := lt_of_lt_of_le (by norm_num) hge
  have hlt : Int.log 2 |x| < 9 := by
    rwa [← Int.lt_zpow_iff_log_lt one_lt_two hpos, Nat.cast_ofNat]
  have hle : 8 ≤ Int.log 2 |x| := by
    rwa [← Int.zpow_le_iff_le_log one_lt_two hpos, Nat.cast_ofNat]
  rw [lastBit]
  omega

/-- The number below a full turn. -/
lemma isBinary64_below : IsBinary64 (360 - 2 ^ (-44 : ℤ)) :=
  ⟨45 * 2 ^ 47 - 1, -44, by norm_num, by norm_num, by norm_num, by norm_num⟩

/-- A number below a full turn is rounded to it from half a bit on; the tie goes to the full turn,
which is even. -/
lemma roundDouble_eq_turn_iff {x : ℚ} (hx : 0 ≤ x) (hlt : x < 360) :
    (roundDouble x).value = some 360 ↔ 360 - 2 ^ (-45 : ℤ) ≤ x := by
  have habs : |x| < 360 := by rwa [abs_of_nonneg hx]
  constructor
  · intro h
    obtain ⟨y, hy, heq, hnear, -⟩ := roundDouble_nearest (degrees_lt habs.le)
    obtain rfl : y = 360 := by
      rw [heq] at h
      exact Option.some.inj h
    have hclosest := hnear.closest _ isBinary64_below
    rw [abs_sub_comm, abs_of_nonneg (by linarith)] at hclosest
    have hbit : (2 : ℚ) ^ (-44 : ℤ) = 2 * 2 ^ (-45 : ℤ) := by norm_num
    have hbitpos : (0 : ℚ) < 2 ^ (-45 : ℤ) := by positivity
    rcases le_total (x - (360 - 2 ^ (-44 : ℤ))) 0 with hle | hle
    · rw [abs_of_nonpos hle] at hclosest
      linarith
    · rw [abs_of_nonneg hle] at hclosest
      linarith
  · intro h
    have hhalf : (2 : ℚ) ^ (-45 : ℤ) ≤ 1 := by norm_num
    have hlast : lastBit x = -44 := by
      refine lastBit_eq (habs.trans (by norm_num)) ?_
      calc (2 : ℚ) ^ (8 : ℤ) ≤ 360 - 1 := by norm_num
        _ ≤ |x| := by rw [abs_of_nonneg hx]; linarith
    -- half a bit below a multiple of two bits
    have hround : roundHalfEven (x / 2 ^ lastBit x) = 45 * 2 ^ 47 := by
      have hscaled : x / 2 ^ (-44 : ℤ) = x * 2 ^ 44 := by
        rw [zpow_neg, div_inv_eq_mul]
        norm_num
      have hfloor : ⌊x * 2 ^ 44⌋ = 45 * 2 ^ 47 - 1 := by
        rw [Int.floor_eq_iff]
        norm_num at h ⊢
        constructor <;> linarith
      have hge : 1 / 2 ≤ x * 2 ^ 44 - ⌊x * 2 ^ 44⌋ := by
        rw [hfloor]
        norm_num at h ⊢
        linarith
      rw [hlast, hscaled, roundHalfEven, if_neg (not_lt.mpr hge), hfloor]
      norm_num
    obtain ⟨hbin, heq⟩ := roundDouble_eq (degrees_lt habs.le)
    rw [heq, Double.value, hround, hlast]
    norm_num

/-- There is no number between them. -/
lemma le_below {y : ℚ} (h : IsBinary64 y) (hy : y < 360) : y ≤ 360 - 2 ^ (-44 : ℤ) := by
  obtain ⟨m, e, hm, -, -, rfl⟩ := h
  have hbit : (0 : ℚ) < 2 ^ (-44 : ℤ) := by positivity
  rcases le_or_gt e (-45) with he | he
  · -- it is smaller than the numbers of this binade
    have hm' : (m : ℚ) ≤ 2 ^ 53 := by exact_mod_cast (abs_lt.mp hm).2.le
    calc (m : ℚ) * 2 ^ e ≤ 2 ^ 53 * 2 ^ (-45 : ℤ) := by
          gcongr
          norm_num
      _ ≤ 360 - 2 ^ (-44 : ℤ) := by norm_num
  · -- it is a multiple of the last bit
    obtain ⟨k, hk⟩ : ∃ k : ℕ, e = k + -44 := ⟨(e + 44).toNat, by omega⟩
    have hmul : (m : ℚ) * 2 ^ e = ((m * 2 ^ k : ℤ) : ℚ) * 2 ^ (-44 : ℤ) := by
      rw [hk, zpow_add₀ (by norm_num), zpow_natCast]
      push_cast
      ring
    have hturn : (360 : ℚ) = ((360 * 2 ^ 44 : ℤ) : ℚ) * 2 ^ (-44 : ℤ) := by norm_num
    rw [hmul] at hy ⊢
    rw [hturn] at hy ⊢
    have hlt : m * 2 ^ k < 360 * 2 ^ 44 := by exact_mod_cast lt_of_mul_lt_mul_right hy hbit.le
    have hle : ((m * 2 ^ k : ℤ) : ℚ) ≤ ((360 * 2 ^ 44 - 1 : ℤ) : ℚ) := by
      exact_mod_cast Int.le_sub_one_of_lt hlt
    calc ((m * 2 ^ k : ℤ) : ℚ) * 2 ^ (-44 : ℤ)
        ≤ ((360 * 2 ^ 44 - 1 : ℤ) : ℚ) * 2 ^ (-44 : ℤ) := mul_le_mul_of_nonneg_right hle hbit.le
      _ = ((360 * 2 ^ 44 : ℤ) : ℚ) * 2 ^ (-44 : ℤ) - 2 ^ (-44 : ℤ) := by
          push_cast
          ring

/-! ### What reaches ecCodes -/

/-- A number that is not zero has one representation. -/
lemma eq_of_value {x y : Double} {q : ℚ} (hq : q ≠ 0) (hx : x.value = some q)
    (hy : y.value = some q) : x = y := by
  have hfinite : ∀ z : Double, z.value = some q → ∃ h, z = .finite q h := by
    intro z hz
    cases z with
    | finite q' h =>
      obtain rfl := Option.some.inj hz
      exact ⟨h, rfl⟩
    | negZero => exact absurd (Option.some.inj hz).symm hq
    | infinity | nan => exact absurd hz (by simp [Double.value])
  obtain ⟨-, rfl⟩ := hfinite x hx
  obtain ⟨-, rfl⟩ := hfinite y hy
  rfl

lemma isBinary64_of_value (h : lon.value = some q) : IsBinary64 q := by
  cases lon with
  | finite q' hbin => exact Option.some.inj h ▸ hbin
  | negZero => exact Option.some.inj h ▸ isBinary64_zero
  | infinity | nan => simp [Double.value] at h

/-- Zero has two. -/
lemma zero_or_negZero {x : Double} (hx : x.value = some 0) : x = .zero ∨ x = .negZero := by
  cases x with
  | finite q h =>
    obtain rfl := Option.some.inj hx
    exact .inl rfl
  | negZero => exact .inr rfl
  | infinity | nan => exact absurd hx (by simp [Double.value])

variable {H N : Type*}

/-- The number that ecCodes gets. -/
lemma exists_wrapped (h : lon.value = some q) :
    ∃ x, (wrapLongitude lon).value = some x ∧
      IsNearest {x | IsBinary64 x} (360 * Int.fract (q / 360)) x ∧ 0 ≤ x ∧ x ≤ 360 ∧
      |360 * Int.fract (q / 360) - x| ≤ 2 ^ (-45 : ℤ) ∧
      (0 ≤ q → x = 360 * Int.fract (q / 360)) ∧
      (x = 360 ↔ 360 - 2 ^ (-45 : ℤ) ≤ 360 * Int.fract (q / 360)) := by
  obtain ⟨hnonneg, hlt⟩ := fract_nonneg_lt (q / 360)
  have habs : |360 * Int.fract (q / 360)| < 360 := by rwa [abs_of_nonneg hnonneg]
  obtain ⟨x, hx, heq, hnear, herr⟩ := roundDouble_nearest (degrees_lt habs.le)
  have hvalue : (roundDouble (360 * Int.fract (q / 360))).value = some x := by
    rw [heq, Double.value]
  have hturn : IsBinary64 360 := by
    have h := isBinary64_intCast (show |(360 : ℤ)| ≤ 2 ^ 53 by norm_num)
    exact_mod_cast h
  refine ⟨x, (value_wrapLongitude h).trans hvalue, hnear, hnear.le_of_le isBinary64_zero hnonneg,
    hnear.ge_of_ge hturn hlt.le, herr.trans ?_, fun hq => ?_, ?_⟩
  · have hbit : (2 : ℚ) ^ lastBit (360 * Int.fract (q / 360)) ≤ 2 ^ (-44 : ℤ) :=
      zpow_le_zpow_right₀ (by norm_num) (lastBit_le (habs.trans (by norm_num)))
    norm_num at hbit ⊢
    linarith
  · exact hnear.eq_of_mem (isBinary64_remainder (isBinary64_of_value h) hq)
  · rw [← roundDouble_eq_turn_iff hnonneg hlt, hvalue, Option.some.injEq]

/-- It is zero only for a whole number of turns. -/
lemma wrapped_eq_zero_iff (h : lon.value = some q) {x : ℚ}
    (hx : (wrapLongitude lon).value = some x) : x = 0 ↔ Int.fract (q / 360) = 0 := by
  obtain ⟨y, hy, hnear, -, -, herr, hexact, -⟩ := exists_wrapped h
  obtain rfl : y = x := Option.some.inj (hy.symm.trans hx)
  have hzero : 360 * Int.fract (q / 360) = 0 ↔ Int.fract (q / 360) = 0 := by simp
  constructor
  · rintro rfl
    rcases le_or_gt 0 q with hq | hq
    · exact hzero.mp (hexact hq).symm
    · -- the remainder of the opposite longitude is a whole bit below a full turn
      by_contra hne
      have hneg : q / 360 = -(-q / 360) := by rw [neg_div, neg_neg]
      have hne' : Int.fract (-q / 360) ≠ 0 := by
        rwa [hneg, Int.fract_neg_eq_zero] at hne
      have hfract : Int.fract (q / 360) = 1 - Int.fract (-q / 360) := by
        rw [hneg, Int.fract_neg hne']
      have hbelow := le_below (isBinary64_remainder (isBinary64_neg (isBinary64_of_value h))
        (neg_nonneg.mpr hq.le)) (fract_nonneg_lt (-q / 360)).2
      rw [sub_zero, hfract] at herr
      have hbits := (le_abs_self _).trans herr
      norm_num at hbits hbelow
      linarith
  · intro hfract
    rw [hfract, mul_zero] at hnear
    exact hnear.eq_of_mem isBinary64_zero

/-- **The longitude of a search**: ecCodes gets the number nearest to the longitude modulo a full
turn, exactly that for a longitude that is not negative, and a full turn itself from half a bit
below a multiple of it.  A search at a longitude full turns away hands the same number to ecCodes
and is the same search; only at a whole number of turns the zero may have the other sign, and there
it is the same search if ecCodes does not tell the two zeros apart. -/
theorem nearestValue_longitude (g : GribHandle H N) (api : NearestApi H N) (lat : Double)
    {lon : Double} {q : ℚ} (h : lon.value = some q) :
    (∃ x, (wrapLongitude lon).value = some x ∧
      IsNearest {x | IsBinary64 x} (360 * Int.fract (q / 360)) x ∧ 0 ≤ x ∧ x ≤ 360 ∧
      |360 * Int.fract (q / 360) - x| ≤ 2 ^ (-45 : ℤ) ∧
      (0 ≤ q → x = 360 * Int.fract (q / 360)) ∧
      (x = 360 ↔ 360 - 2 ^ (-45 : ℤ) ≤ 360 * Int.fract (q / 360))) ∧
    ∀ (lon' : Double) (n : ℤ), lon'.value = some (q + 360 * n) →
      (wrapLongitude lon').value = (wrapLongitude lon).value ∧
      (Int.fract (q / 360) ≠ 0 → wrapLongitude lon' = wrapLongitude lon ∧
        g.nearestValue api lat lon' = g.nearestValue api lat lon) ∧
      ((∀ near h lat, api.nearestFind near h lat .zero = api.nearestFind near h lat .negZero) →
        g.nearestValue api lat lon' = g.nearestValue api lat lon) := by
  have hwrap := value_wrapLongitude h
  obtain ⟨x, hvalue, hnear, hnonneg, hle, herr, hexact, hturn⟩ := exists_wrapped h
  refine ⟨⟨x, hvalue, hnear, hnonneg, hle, herr, hexact, hturn⟩, fun lon' n h' => ?_⟩
  have hturns : Int.fract ((q + 360 * n) / 360) = Int.fract (q / 360) := by
    rw [add_div, mul_div_cancel_left₀ _ (by norm_num), Int.fract_add_intCast]
  have hvalue' : (wrapLongitude lon').value = some x := by
    rw [value_wrapLongitude h', hturns, ← hwrap, hvalue]
  have hvalid : validCoordinates lat lon' = validCoordinates lat lon := by
    rw [validCoordinates, validCoordinates, h, h']
    cases lat.value <;> rfl
  -- the search depends on the longitude that is handed over
  have hsearch : (∀ near handle, api.nearestFind near handle lat (wrapLongitude lon')
      = api.nearestFind near handle lat (wrapLongitude lon)) →
        g.nearestValue api lat lon' = g.nearestValue api lat lon := by
    intro hsame
    simp only [GribHandle.nearestValue, hvalid, hsame]
  refine ⟨hvalue'.trans hvalue.symm, fun hfract => ?_, fun hzeros => hsearch fun near handle => ?_⟩
  · have hne : x ≠ 0 := by
      rw [Ne, ← wrapped_eq_zero_iff h hvalue] at hfract
      exact hfract
    have hsame := eq_of_value hne hvalue' hvalue
    exact ⟨hsame, hsearch fun near handle => by rw [hsame]⟩
  · by_cases hzero : x = 0
    · subst hzero
      rcases zero_or_negZero hvalue with hx | hx <;> rcases zero_or_negZero hvalue' with hx' | hx'
      · rw [hx, hx']
      · rw [hx, hx', hzeros]
      · rw [hx, hx', hzeros]
      · rw [hx, hx']
    · rw [eq_of_value hzero hvalue' hvalue]

/-- Whole degrees. -/
def degrees (n : ℤ) (h : |n| ≤ 2 ^ 53) : Double := .finite n (isBinary64_intCast h)

/-- A grid with one point, whose value is its longitude. -/
def meridianApi : NearestApi ℕ ℕ where
  nearestNew _ := (some 3, codesSuccess)
  nearestFind _ _ _ lon :=
    (codesSuccess, [⟨if lon.value = some 359 then degrees 359 (by decide) else .negZero, .negZero⟩])
  errorMessage _ := []

/-- One degree west and the same meridian to the east, and a full turn to either side. -/
theorem nearestValue_longitude_west :
    (∃ x, (wrapLongitude (degrees (-1) (by decide))).value = some x ∧
      IsNearest {x | IsBinary64 x} (360 * Int.fract (((-1 : ℤ) : ℚ) / 360)) x ∧ 0 ≤ x ∧ x ≤ 360) ∧
    (GribHandle.ofHandle 7).nearestValue meridianApi .negZero (degrees 359 (by decide))
      = (GribHandle.ofHandle 7).nearestValue meridianApi .negZero (degrees (-1) (by decide)) ∧
    (GribHandle.ofHandle 7).nearestValue meridianApi .negZero (degrees 360 (by decide))
      = (GribHandle.ofHandle 7).nearestValue meridianApi .negZero (degrees (-360) (by decide)) := by
  have hlon : (degrees (-1) (by decide)).value = some ((-1 : ℤ) : ℚ) := rfl
  obtain ⟨⟨x, hx, hnear, hnonneg, hle, -⟩, hturn⟩ :=
    nearestValue_longitude (GribHandle.ofHandle 7) meridianApi .negZero hlon
  have hwest : (degrees (-360) (by decide)).value = some ((-360 : ℤ) : ℚ) := rfl
  have hwhole := (nearestValue_longitude (GribHandle.ofHandle 7) meridianApi .negZero hwest).2
  refine ⟨⟨x, hx, hnear, hnonneg, hle⟩, ((hturn (degrees 359 (by decide)) 1 ?_).2.1 ?_).2,
    (hwhole (degrees 360 (by decide)) 2 ?_).2.2 fun _ _ _ => rfl⟩
  · rw [degrees, Double.value]
    norm_num
  · have hfract : Int.fract (((-1 : ℤ) : ℚ) / 360) = 359 / 360 := by
      rw [Int.fract_eq_iff]
      exact ⟨by norm_num, by norm_num, -1, by norm_num⟩
    rw [hfract]
    norm_num
  · rw [degrees, Double.value]
    norm_num

end Longitude

end GribCpp.Decode
