/-
# Decimal numerals over byte strings

A numeral is a nonempty string of the bytes `'0' … '9'`; leading zeros are allowed.
`numeral n` is the one without leading zeros, and `value` reads any of them.  The
reader `readNumeral` takes the longest run of digits at the front of a string, which
is how the C and C++ conversion functions delimit a number, and returns the rest.
-/
import Mathlib

namespace GribCpp.Decimal

/-- The bytes `'0'` to `'9'`. -/
def isDigit (c : UInt8) : Bool := 48 ≤ c && c ≤ 57

/-- The value of one digit. -/
def digitVal (c : UInt8) : ℕ := c.toNat - 48

/-- The byte of a value below ten. -/
def digitChar (d : ℕ) : UInt8 := UInt8.ofNat (48 + d)

/-- The number a string of digits denotes, most significant digit first. -/
def value (s : List UInt8) : ℕ := s.foldl (fun n c => 10 * n + digitVal c) 0

/-- A nonempty string of digits. -/
structure IsNumeral (s : List UInt8) : Prop where
  ne_nil : s ≠ []
  digits : ∀ c ∈ s, isDigit c = true

instance (s : List UInt8) : Decidable (IsNumeral s) :=
  decidable_of_iff (s ≠ [] ∧ ∀ c ∈ s, isDigit c = true)
    ⟨fun h => ⟨h.1, h.2⟩, fun h => ⟨h.ne_nil, h.digits⟩⟩

/-- The numeral of a number, without leading zeros. -/
def numeral (n : ℕ) : List UInt8 :=
  if n = 0 then [48] else (Nat.digits 10 n).reverse.map digitChar

@[simp] lemma isDigit_iff {c : UInt8} : isDigit c = true ↔ 48 ≤ c.toNat ∧ c.toNat ≤ 57 := by
  simp [isDigit, UInt8.le_iff_toNat_le]

lemma toNat_digitChar {d : ℕ} (h : d < 10) : (digitChar d).toNat = 48 + d := by
  simp only [digitChar, UInt8.toNat_ofNat']
  omega

lemma digitVal_digitChar {d : ℕ} (h : d < 10) : digitVal (digitChar d) = d := by
  rw [digitVal, toNat_digitChar h]
  omega

lemma isDigit_digitChar {d : ℕ} (h : d < 10) : isDigit (digitChar d) = true := by
  rw [isDigit_iff, toNat_digitChar h]
  omega

/-! ## The numeral of a number -/

lemma isNumeral_numeral (n : ℕ) : IsNumeral (numeral n) := by
  by_cases hn : n = 0
  · simp only [numeral, hn, if_true]
    exact ⟨by simp, by simp [isDigit]⟩
  · refine ⟨?_, ?_⟩
    · have h : Nat.digits 10 n ≠ [] := Nat.digits_ne_nil_iff_ne_zero.mpr hn
      rw [numeral, if_neg hn]
      simpa only [ne_eq, List.map_eq_nil_iff, List.reverse_eq_nil_iff] using h
    · intro c hc
      simp only [numeral, hn, if_false, List.mem_map, List.mem_reverse] at hc
      obtain ⟨d, hd, rfl⟩ := hc
      exact isDigit_digitChar (Nat.digits_lt_base (by omega) hd)

/-- Reading back the digits of `L`, least significant first. -/
lemma value_map_digitChar (L : List ℕ) (h : ∀ d ∈ L, d < 10) :
    value (L.reverse.map digitChar) = Nat.ofDigits 10 L := by
  induction L with
  | nil => rfl
  | cons d L ih =>
    -- the least significant digit is the last one to be read
    have hd : d < 10 := h d (by simp)
    have hL := ih (fun e he => h e (by simp [he]))
    rw [value] at hL
    simp only [value, List.reverse_cons, List.map_append, List.map_cons, List.map_nil,
      List.foldl_append, List.foldl_cons, List.foldl_nil, hL, digitVal_digitChar hd,
      Nat.ofDigits_cons]
    omega

@[simp] lemma value_numeral (n : ℕ) : value (numeral n) = n := by
  by_cases hn : n = 0
  · subst hn
    rfl
  · rw [numeral, if_neg hn,
      value_map_digitChar _ (fun d hd => Nat.digits_lt_base (by omega) hd),
      Nat.ofDigits_digits]

/-- The length of the numeral of a number with at most `k` digits. -/
lemma length_numeral_le {n k : ℕ} (hk : 0 < k) (hn : n < 10 ^ k) : (numeral n).length ≤ k := by
  by_cases h0 : n = 0
  · rw [numeral, if_pos h0]
    exact hk
  · rw [numeral, if_neg h0, List.length_map, List.length_reverse,
      Nat.length_digits 10 n (by omega) h0]
    exact Nat.log_lt_of_lt_pow h0 hn

/-- A byte that is no digit does not occur in a numeral. -/
lemma IsNumeral.notMem {s : List UInt8} (h : IsNumeral s) {c : UInt8}
    (hc : isDigit c = false) : c ∉ s := by
  intro hmem
  rw [h.digits c hmem] at hc
  exact absurd hc (by simp)

/-! ## Reading a numeral off the front of a string -/

/-- The longest run of digits at the front of `s`, read as a number below `bound`, and
the rest of the string; `none` when there is no digit or the number is out of range. -/
def readNumeral (bound : ℕ) (s : List UInt8) : Option (ℕ × List UInt8) :=
  let d := s.takeWhile isDigit
  if d ≠ [] ∧ value d < bound then some (value d, s.dropWhile isDigit) else none

/-- `s` does not start with a digit. -/
def NoDigit (s : List UInt8) : Prop := ∀ c ∈ s.head?, isDigit c = false

@[simp] lemma noDigit_nil : NoDigit [] := by simp [NoDigit]

@[simp] lemma noDigit_cons {c : UInt8} {s : List UInt8} :
    NoDigit (c :: s) ↔ isDigit c = false := by simp [NoDigit]

lemma takeWhile_append_noDigit {d r : List UInt8} (hd : ∀ c ∈ d, isDigit c = true)
    (hr : NoDigit r) : (d ++ r).takeWhile isDigit = d ∧ (d ++ r).dropWhile isDigit = r := by
  induction d with
  | nil =>
    cases r with
    | nil => simp
    | cons c r =>
      rw [noDigit_cons] at hr
      simp only [List.nil_append, List.takeWhile_cons, List.dropWhile_cons, hr]
      simp
  | cons c d ih =>
    obtain ⟨h1, h2⟩ := ih (fun x hx => hd x (by simp [hx]))
    have hc : isDigit c = true := hd c (by simp)
    simp only [List.cons_append, List.takeWhile_cons, List.dropWhile_cons, hc, if_true, h1, h2,
      and_self]

lemma noDigit_dropWhile (s : List UInt8) : NoDigit (s.dropWhile isDigit) := by
  intro c hc
  have h := List.head?_dropWhile_not isDigit s
  rw [Option.mem_def.mp hc] at h
  simpa using h

/-- **What the reader accepts**: a numeral in range, up to the first byte that is no digit. -/
theorem readNumeral_eq_some_iff {bound n : ℕ} {s r : List UInt8} :
    readNumeral bound s = some (n, r) ↔
      ∃ d, IsNumeral d ∧ s = d ++ r ∧ NoDigit r ∧ value d = n ∧ n < bound := by
  constructor
  · intro h
    simp only [readNumeral] at h
    split at h
    · rename_i hd
      simp only [Option.some.injEq, Prod.mk.injEq] at h
      obtain ⟨hn, hr⟩ := h
      refine ⟨s.takeWhile isDigit, ⟨hd.1, fun c hc => List.mem_takeWhile_imp hc⟩, ?_, ?_, hn,
        hn ▸ hd.2⟩
      · rw [← hr, List.takeWhile_append_dropWhile]
      · rw [← hr]
        exact noDigit_dropWhile s
    · exact absurd h (by simp)
  · rintro ⟨d, hd, rfl, hr, rfl, hb⟩
    obtain ⟨h1, h2⟩ := takeWhile_append_noDigit hd.digits hr
    simp only [readNumeral, h1, h2]
    rw [if_pos ⟨hd.ne_nil, hb⟩]

lemma readNumeral_append {bound : ℕ} {d r : List UInt8} (hd : IsNumeral d) (hr : NoDigit r)
    (hb : value d < bound) : readNumeral bound (d ++ r) = some (value d, r) :=
  readNumeral_eq_some_iff.mpr ⟨d, hd, rfl, hr, rfl, hb⟩

lemma readNumeral_numeral {bound n : ℕ} {r : List UInt8} (hr : NoDigit r) (hb : n < bound) :
    readNumeral bound (numeral n ++ r) = some (n, r) := by
  have h := readNumeral_append (isNumeral_numeral n) hr (by rwa [value_numeral])
  rwa [value_numeral] at h

end GribCpp.Decimal
