/-
# Byte strings, errors and results

The model of `include/grib/error.hpp`, and the byte strings everything else works on.
A `std::string` or a `std::string_view` is the list of its bytes.  Every fallible
operation of the library returns `Result`, that is `std::expected<T, Error>`.
-/
import GribCpp.Lib.Decimal

namespace GribCpp

/-- The contents of a `std::string`, a `std::string_view` or a span of bytes. -/
abbrev Bytes : Type := List UInt8

/-- The bytes of a string literal of the source. -/
def ascii (s : String) : Bytes := s.toList.map Char.toUInt8

/-- `ErrorCode`. -/
inductive ErrorCode where
  | ok
  | networkError
  | rateLimited
  | serverError
  | notFound
  | invalidRequest
  | parseError
  | timeout
  | decodeError
  | feedUnavailable
  | unknown
deriving DecidableEq, Repr

/-- `Error`. -/
structure Error where
  code : ErrorCode
  message : Bytes
  httpStatus : ℤ := 0
  detail : Bytes := []
deriving DecidableEq, Repr

namespace Error

/-- `Error::network`. -/
def network (msg : Bytes) : Error := { code := .networkError, message := msg }

/-- `Error::parse`. -/
def parse (msg : Bytes) : Error := { code := .parseError, message := msg }

/-- `Error::invalid_request`. -/
def invalidRequest (msg : Bytes) : Error := { code := .invalidRequest, message := msg }

/-- `Error::timeout`. -/
def timeout (msg : Bytes) : Error := { code := .timeout, message := msg }

/-- `Error::decode`. -/
def decode (msg : Bytes) : Error := { code := .decodeError, message := msg }

end Error

/-- `Result<T>`. -/
abbrev Result (α : Type*) := Except Error α

/-! ## Numbers as text

`std::from_chars` and `std::to_string` in base ten.  The unsigned conversion takes no
sign, the signed one a minus only, and neither skips blanks; a number that does not fit
is an error, as is a text without digits.  On success the rest of the text starts where
the returned pointer points. -/

open Decimal

/-- `std::from_chars` on a `std::uint64_t`. -/
def fromCharsU64 (s : Bytes) : Option (UInt64 × Bytes) :=
  (readNumeral (2 ^ 64) s).map fun p => (UInt64.ofNat p.1, p.2)

/-- `std::from_chars` on an `int`. -/
def fromCharsInt : Bytes → Option (ℤ × Bytes)
  | 45 :: s => (readNumeral (2 ^ 31 + 1) s).map fun p => (-(p.1 : ℤ), p.2)
  | s => (readNumeral (2 ^ 31) s).map fun p => ((p.1 : ℤ), p.2)

/-- `std::to_string` of a `std::uint64_t`. -/
def toStringU64 (n : UInt64) : Bytes := numeral n.toNat

/-- `std::to_string` of a `std::int64_t`. -/
def toStringI64 (n : Int64) : Bytes :=
  if n.toInt < 0 then 45 :: numeral n.toInt.natAbs else numeral n.toInt.natAbs

theorem fromCharsU64_eq_some_iff {s r : Bytes} {n : UInt64} :
    fromCharsU64 s = some (n, r) ↔
      ∃ d, IsNumeral d ∧ s = d ++ r ∧ NoDigit r ∧ value d = n.toNat := by
  rw [fromCharsU64, Option.map_eq_some_iff]
  constructor
  · rintro ⟨⟨m, r'⟩, hread, heq⟩
    simp only [Prod.mk.injEq] at heq
    obtain ⟨rfl, rfl⟩ := heq
    obtain ⟨d, hd, hs, hr, hv, hlt⟩ := readNumeral_eq_some_iff.mp hread
    exact ⟨d, hd, hs, hr, by rw [hv, UInt64.toNat_ofNat_of_lt' hlt]⟩
  · rintro ⟨d, hd, hs, hr, hv⟩
    have hlt : n.toNat < 2 ^ 64 := n.toNat_lt
    exact ⟨(n.toNat, r), readNumeral_eq_some_iff.mpr ⟨d, hd, hs, hr, hv, hlt⟩, by simp⟩

/-- The whole text is a number. -/
lemma fromCharsU64_all_iff {s : Bytes} {n : UInt64} :
    fromCharsU64 s = some (n, []) ↔ IsNumeral s ∧ value s = n.toNat := by
  rw [fromCharsU64_eq_some_iff]
  constructor
  · rintro ⟨d, hd, rfl, -, hv⟩
    rw [List.append_nil]
    exact ⟨hd, hv⟩
  · rintro ⟨hd, hv⟩
    exact ⟨s, hd, (List.append_nil s).symm, noDigit_nil, hv⟩

/-- Reading a numeral of an `int` that carries no sign. -/
lemma fromCharsInt_numeral {n : ℕ} (hn : n < 2 ^ 31) {r : Bytes} (hr : NoDigit r) :
    fromCharsInt (numeral n ++ r) = some ((n : ℤ), r) := by
  have hd := isNumeral_numeral n
  have hread := readNumeral_numeral hr hn
  cases hs : numeral n with
  | nil => exact absurd hs hd.ne_nil
  | cons c s =>
    have hc : isDigit c = true := hd.digits c (by simp [hs])
    rw [hs] at hread
    rw [List.cons_append] at hread ⊢
    rw [fromCharsInt, hread]
    · rfl
    · rintro _ h
      simp only [List.cons.injEq] at h
      rw [h.1] at hc
      exact absurd hc (by decide)

end GribCpp
