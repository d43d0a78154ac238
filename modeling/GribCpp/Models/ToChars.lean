/-
# The texts of floating-point numbers

`std::to_chars` makes of a `double` the shortest text that reads back as that number, in full or
with an exponent, and in full when both are as short.  For an integer below `2 ^ 53` that says which
text it is.  So large round numbers are not written as integers, and a reader that asks for an
integer does not get one.
-/
import GribCpp.Models.EcmwfIndex

namespace GribCpp.Sidecar

open Decimal

/-! ## The standard -/

/-- `m * 10 ^ z` with an exponent, of two digits at least. -/
def exponential (m z : ℕ) : Bytes :=
  let digits := numeral m
  let exponent := numeral (digits.length - 1 + z)
  digits.take 1 ++ (if digits.length = 1 then [] else 46 :: digits.drop 1) ++ ascii "e+" ++
    (if exponent.length = 1 then 48 :: exponent else exponent)

/-- The shorter text of a number that is not zero. -/
def shortestText (n : ℕ) : Bytes :=
  let short := exponential (n.divMaxPow 10) (padicValNat 10 n)
  if (numeral n).length ≤ short.length then numeral n else short

/-- What the standard says of `std::to_chars`: a text that is an integer reads back as the number,
and an integer below `2 ^ 53` has its shortest text, with a minus in front. -/
structure StandardToChars (toChars : Double → Bytes) : Prop where
  recovers : ∀ (d : Double) (q : ℚ) (n : ℤ), d.value = some q →
    fromCharsInt (toChars d) = some (n, []) → q = n
  integer : ∀ (d : Double) (n : ℕ), n ≠ 0 → n < 2 ^ 53 →
    (d.value = some (n : ℚ) → toChars d = shortestText n) ∧
      (d.value = some (-(n : ℚ)) → toChars d = 45 :: shortestText n)

/-! ## In full, or with an exponent -/

section Length

variable {m z : ℕ}

/-- Zeros at the end are digits. -/
lemma length_numeral_mul (hm : ¬ 10 ∣ m) :
    (numeral (m * 10 ^ z)).length = (numeral m).length + z := by
  have hne : m ≠ 0 := by
    rintro rfl
    exact hm (dvd_zero 10)
  have hne' : m * 10 ^ z ≠ 0 := Nat.mul_ne_zero hne (by positivity)
  rw [numeral, if_neg hne', numeral, if_neg hne, mul_comm,
    Nat.digits_base_pow_mul (by norm_num) (Nat.pos_of_ne_zero hne)]
  simp [add_comm]

lemma length_numeral_pos (n : ℕ) : 0 < (numeral n).length :=
  List.length_pos_iff.mpr (isNumeral_numeral n).ne_nil

lemma length_numeral_eq_one_iff : (numeral m).length = 1 ↔ m < 10 := by
  constructor
  · intro h
    by_contra hge
    have hne : m ≠ 0 := by omega
    rw [numeral, if_neg hne, List.length_map, List.length_reverse,
      Nat.length_digits 10 m (by norm_num) hne] at h
    have hlog : 1 ≤ Nat.log 10 m := Nat.log_pos (by norm_num) (by omega)
    omega
  · intro h
    exact le_antisymm (length_numeral_le one_pos (by omega)) (length_numeral_pos m)

/-- The point and the exponent cost a byte and four. -/
lemma length_exponential (h : (numeral m).length + z ≤ 100) :
    (exponential m z).length
      = (numeral m).length + (if (numeral m).length = 1 then 0 else 1) + 4 := by
  have hpos := length_numeral_pos m
  have hexp : (if (numeral ((numeral m).length - 1 + z)).length = 1 then
      48 :: numeral ((numeral m).length - 1 + z)
      else numeral ((numeral m).length - 1 + z)).length = 2 := by
    have hlen := length_numeral_pos ((numeral m).length - 1 + z)
    have hle : (numeral ((numeral m).length - 1 + z)).length ≤ 2 :=
      length_numeral_le (by norm_num) (by omega)
    split_ifs with hone
    · rw [List.length_cons, hone]
    · omega
  simp only [exponential, List.length_append, hexp, List.length_take]
  have htwo : (ascii "e+").length = 2 := rfl
  rw [htwo]
  split_ifs with hone
  · rw [List.length_nil]
    omega
  · rw [List.length_cons, List.length_drop]
    omega

/-- With an exponent it is no integer. -/
lemma not_isNumeral_exponential : ¬ IsNumeral (exponential m z) := by
  intro h
  have hmem : (101 : UInt8) ∈ ascii "e+" := by decide
  exact h.notMem rfl (List.mem_append_left _ (List.mem_append_right _ hmem))

end Length

/-- **Which integers are written in full**: all but the multiples of a million, and those of a
hundred thousand below it. -/
lemma isNumeral_shortestText_iff {n : ℕ} (hn : n ≠ 0) (hlt : n < 2 ^ 53) :
    IsNumeral (shortestText n) ↔ ¬ 10 ^ 6 ∣ n ∧ ¬ (10 ^ 5 ∣ n ∧ n < 10 ^ 6) := by
  rw [Nat.pow_dvd_iff_le_padicValNat (by norm_num) hn,
    Nat.pow_dvd_iff_le_padicValNat (by norm_num) hn, shortestText]
  have hm : ¬ 10 ∣ n.divMaxPow 10 := Nat.not_dvd_divMaxPow (by norm_num) hn
  have hsplit : n.divMaxPow 10 * 10 ^ padicValNat 10 n = n := Nat.divMaxPow_mul_pow_padicValNat 10 n
  generalize n.divMaxPow 10 = m at hm hsplit ⊢
  generalize padicValNat 10 n = z at hsplit ⊢
  subst hsplit
  have hlen : (numeral m).length + z ≤ 16 := by
    rw [← length_numeral_mul hm]
    exact length_numeral_le (by norm_num) (hlt.trans (by norm_num))
  have hsmall : z = 5 → (m * 10 ^ z < 10 ^ 6 ↔ (numeral m).length = 1) := by
    rintro rfl
    rw [length_numeral_eq_one_iff]
    omega
  have hfull : (numeral (m * 10 ^ z)).length ≤ (exponential m z).length ↔
      ¬ 6 ≤ z ∧ ¬ (5 ≤ z ∧ m * 10 ^ z < 10 ^ 6) := by
    rw [length_numeral_mul hm, length_exponential (by omega)]
    by_cases hz : z = 5
    · rw [hsmall hz]
      split_ifs <;> omega
    · split_ifs <;> omega
  rw [← hfull]
  split_ifs with hle
  · exact iff_of_true (isNumeral_numeral _) hle
  · exact iff_of_false not_isNumeral_exponential hle

lemma shortestText_eq {n : ℕ} (h : IsNumeral (shortestText n)) : shortestText n = numeral n := by
  rw [shortestText] at h ⊢
  split_ifs at h ⊢ with hle
  · rfl
  · exact absurd h not_isNumeral_exponential

/-! ## Integers -/

/-- `std::to_chars` on the integers below `2 ^ 53`; it gives no text for anything else. -/
def integerToChars (d : Double) : Bytes :=
  match d.value with
  | none => []
  | some q =>
    if q.den = 1 ∧ q ≠ 0 ∧ q.num.natAbs < 2 ^ 53 then
      if q < 0 then 45 :: shortestText q.num.natAbs else shortestText q.num.natAbs
    else []

/-- What is read of a shortest text is the number. -/
lemma eq_of_readNumeral_shortestText {bound n k : ℕ}
    (h : readNumeral bound (shortestText n) = some (k, [])) : k = n := by
  obtain ⟨d, hd, heq, -, rfl, -⟩ := readNumeral_eq_some_iff.mp h
  rw [List.append_nil] at heq
  subst heq
  rw [shortestText_eq hd, value_numeral]

/-- A shortest text has no sign. -/
lemma shortestText_ne_minus {n : ℕ} (t : Bytes) : shortestText n ≠ 45 :: t := by
  have hdigits : ∀ (k : ℕ) (r : Bytes), numeral k ≠ 45 :: r := by
    intro k r h
    have hmem : (45 : UInt8) ∈ numeral k := by simp [h]
    exact (isNumeral_numeral k).notMem rfl hmem
  intro h
  rw [shortestText] at h
  split_ifs at h with hle
  · exact hdigits _ _ h
  · rw [exponential] at h
    cases hm : numeral (n.divMaxPow 10) with
    | nil => exact (isNumeral_numeral _).ne_nil hm
    | cons c cs =>
      rw [hm] at h
      obtain ⟨rfl, -⟩ := List.cons_eq_cons.mp h
      exact hdigits _ _ hm

/-- The two signs. -/
lemma fromCharsInt_shortestText {n : ℕ} {k : ℤ} :
    (fromCharsInt (shortestText n) = some (k, []) → k = n) ∧
      (fromCharsInt (45 :: shortestText n) = some (k, []) → k = -(n : ℤ)) := by
  constructor
  · intro h
    rw [fromCharsInt] at h
    · obtain ⟨⟨j, r⟩, hread, heq⟩ := Option.map_eq_some_iff.mp h
      obtain ⟨rfl, rfl⟩ := Prod.mk.inj heq
      rw [eq_of_readNumeral_shortestText hread]
    · exact fun t ht => shortestText_ne_minus t ht
  · intro h
    obtain ⟨⟨j, r⟩, hread, heq⟩ := Option.map_eq_some_iff.mp h
    obtain ⟨rfl, rfl⟩ := Prod.mk.inj heq
    rw [eq_of_readNumeral_shortestText hread]

/-- That is what the standard says. -/
lemma standardToChars_integer : StandardToChars integerToChars where
  recovers := by
    intro d q n hd h
    rw [integerToChars, hd] at h
    simp only at h
    split_ifs at h with hint hneg
    · rw [fromCharsInt_shortestText.2 h, Int.ofNat_natAbs_of_nonpos (Rat.num_nonpos.mpr hneg.le),
        neg_neg, Rat.coe_int_num_of_den_eq_one hint.1]
    · rw [fromCharsInt_shortestText.1 h, Int.natAbs_of_nonneg (Rat.num_nonneg.mpr (not_lt.mp hneg)),
        Rat.coe_int_num_of_den_eq_one hint.1]
    · cases h
  integer := by
    intro d n hn hlt
    have hpos : (0 : ℚ) < n := by exact_mod_cast Nat.pos_of_ne_zero hn
    constructor
    · intro hd
      rw [integerToChars, hd]
      simp only [Rat.den_natCast, Rat.num_natCast, Int.natAbs_natCast]
      rw [if_pos ⟨trivial, hpos.ne', hlt⟩, if_neg (not_lt.mpr hpos.le)]
    · intro hd
      rw [integerToChars, hd]
      simp only [Rat.neg_den, Rat.neg_num, Rat.den_natCast, Rat.num_natCast, Int.natAbs_neg,
        Int.natAbs_natCast]
      rw [if_pos ⟨trivial, neg_ne_zero.mpr hpos.ne', hlt⟩, if_pos (neg_neg_iff_pos.mpr hpos)]

end GribCpp.Sidecar
