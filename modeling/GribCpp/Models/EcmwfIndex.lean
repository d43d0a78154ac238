/-
# The ECMWF reader

The model of `parse_ecmwf_index` in `src/models/sidecar.cpp`.  Every line is a JSON object;
reading it into a value is the business of Glaze and a parameter here, as is the text that
`std::to_chars` makes of a floating-point number.  An integer that fits is delivered as a
64-bit word, any other number as a double, and a locator must be an integer that a double
represents without doubt.
-/
import GribCpp.Lib.Rounding
import GribCpp.Models.Sidecar

namespace GribCpp.Sidecar

open Rounding

/-! ## JSON values -/

/-- The finite values of a binary64 number. -/
def IsBinary64 (q : ℚ) : Prop := IsBinary 53 (-1074) 971 q

/-- A `double`. -/
inductive Double where
  | finite (q : ℚ) (binary : IsBinary64 q)
  | negZero
  | infinity (negative : Bool)
  | nan

/-- The value of a finite number; none when `std::isfinite` fails. -/
def Double.value : Double → Option ℚ
  | .finite q _ => some q
  | .negZero => some 0
  | .infinity _ | .nan => none

lemma isBinary64_intCast {n : ℤ} (h : |n| ≤ 2 ^ 53) : IsBinary64 n :=
  isBinary_intCast (by decide) (by decide) (by decide) h

lemma isBinary64_zero : IsBinary64 0 := by
  have h := isBinary64_intCast (show |(0 : ℤ)| ≤ 2 ^ 53 by norm_num)
  rwa [Int.cast_zero] at h

/-- The floating-point number `0.0`. -/
def Double.zero : Double := .finite 0 isBinary64_zero

/-- `glz::generic_u64`. -/
inductive Generic where
  | null
  | bool (b : Bool)
  | u64 (n : UInt64)
  | i64 (n : Int64)
  | double (d : Double)
  | string (s : Bytes)
  | array (vs : List Generic)
  | object (fields : List (Bytes × Generic))

/-- `glz::generic_u64::is_number`. -/
def Generic.isNumber : Generic → Bool
  | .u64 _ | .i64 _ | .double _ => true
  | _ => false

/-- `generic_to_string`. -/
def genericToString (toChars : Double → Bytes) : Generic → Bytes
  | .string s => s
  | .u64 n => toStringU64 n
  | .i64 n => toStringI64 n
  | .double d => if d.value.isSome then toChars d else []
  | _ => []

/-- `std::trunc`. -/
def trunc (q : ℚ) : ℤ := q.num.tdiv q.den

/-- The integer part of a number that is not negative. -/
lemma trunc_of_nonneg {q : ℚ} (h : 0 ≤ q) : trunc q = ⌊q⌋ := by
  rw [trunc, Int.tdiv_eq_ediv_of_nonneg (Rat.num_nonneg.mpr h), Rat.floor_def']

lemma trunc_neg (q : ℚ) : trunc (-q) = -trunc q := by
  rw [trunc, trunc, Rat.num_neg_eq_neg_num, Rat.den_neg_eq_den, Int.neg_tdiv]

/-- `exact_u64`. -/
def exactU64 : Generic → Option UInt64
  | .u64 n => some n
  | .i64 n => if 0 ≤ n.toInt then some (UInt64.ofNat n.toInt.toNat) else none
  | .double d =>
    match d.value with
    | none => none
    | some q =>
      -- below `2 ^ 53` every integer is a double
      if 0 ≤ q ∧ q < 9007199254740992 ∧ (trunc q : ℚ) = q then
        some (UInt64.ofNat (trunc q).toNat)
      else none
  | _ => none

/-! ## The reader -/

/-- The error of a line without numeric `_offset` and `_length`. -/
def missingLocator (line : Bytes) : Error :=
  .parse (ascii "ecmwf .index: missing _offset/_length in: " ++ line)

/-- The last byte of the range is no 64-bit number. -/
def EndOverflows (offset length : UInt64) : Prop :=
  0 < length ∧ UInt64.ofNat (2 ^ 64 - 1) - offset < length - 1

instance (offset length : UInt64) : Decidable (EndOverflows offset length) :=
  inferInstanceAs (Decidable (_ ∧ _))

/-- The level of an entry: `levelist` before `levtype`. -/
def ecmwfLevel (toChars : Double → Bytes) (obj : List (Bytes × Generic)) : Bytes :=
  match obj.lookup (ascii "levelist") with
  | some levelist => genericToString toChars levelist
  | none =>
    match obj.lookup (ascii "levtype") with
    | some levtype => genericToString toChars levtype
    | none => []

/-- The member of an entry: the control by its type, any other by its number. -/
def ecmwfMember (toChars : Double → Bytes) (obj : List (Bytes × Generic)) : ℤ :=
  match obj.lookup (ascii "type"), obj.lookup (ascii "number") with
  | some (.string s), number =>
    if s = ascii "cf" then 0 else number.elim (-1) parsed
  | _, number => number.elim (-1) parsed
where
  /-- The whole text of the number as an `int`. -/
  parsed (number : Generic) : ℤ :=
    match fromCharsInt (genericToString toChars number) with
    | some (n, []) => n
    | _ => -1

/-- The entry of an object with the given locators. -/
def ecmwfEntry (toChars : Double → Bytes) (line : Bytes) (obj : List (Bytes × Generic))
    (offset length : UInt64) : GribIndexEntry where
  raw := line
  offset := offset
  length := length
  param := (obj.lookup (ascii "param")).elim [] (genericToString toChars)
  level := ecmwfLevel toChars obj
  step := (obj.lookup (ascii "step")).elim [] (genericToString toChars)
  member := ecmwfMember toChars obj

/-- One line of an ECMWF index. -/
def ecmwfLine (read : Bytes → Option Generic) (toChars : Double → Bytes) (line : Bytes) :
    Result (Option GribIndexEntry) :=
  if line = [] then .ok none
  else
    match read line with
    | some (.object obj) =>
      match obj.lookup (ascii "_offset"), obj.lookup (ascii "_length") with
      | some off, some len =>
        if off.isNumber = false ∨ len.isNumber = false then .error (missingLocator line)
        else
          match exactU64 off, exactU64 len with
          | some offset, some length =>
            if EndOverflows offset length then
              .error (.parse (ascii "ecmwf .index: invalid byte range"))
            else .ok (some (ecmwfEntry toChars line obj offset length))
          | _, _ => .error (.parse (ascii "ecmwf .index: invalid byte range"))
      | _, _ => .error (missingLocator line)
    | _ => .error (.parse (ascii "ecmwf .index: invalid JSON line: " ++ line))

/-- `parse_ecmwf_index`. -/
def parseEcmwfIndex (read : Bytes → Option Generic) (toChars : Double → Bytes) (text : Bytes) :
    Result (List GribIndexEntry) :=
  collect (ecmwfLine read toChars) (split text 10)

/-! ## The lines of an accepted text -/

/-- The lines of a text that hold anything. -/
def indexLines (text : Bytes) : List Bytes :=
  ((split text 10).map stripCr).filter (· ≠ [])

section Lines

variable {read : Bytes → Option Generic} {toChars : Double → Bytes}

/-- The value of a key in the object that a line holds. -/
def locator (read : Bytes → Option Generic) (line key : Bytes) : Option Generic :=
  match read line with
  | some (.object obj) => obj.lookup key
  | _ => none

/-- A line whose two locators pass the checks. -/
structure Locates (read : Bytes → Option Generic) (line : Bytes) (offset length : UInt64) :
    Prop where
  offset_eq : (locator read line (ascii "_offset")).bind exactU64 = some offset
  length_eq : (locator read line (ascii "_length")).bind exactU64 = some length
  fits : ¬ EndOverflows offset length

lemma isNumber_of_exactU64 {g : Generic} {n : UInt64} (h : exactU64 g = some n) :
    g.isNumber = true := by
  cases g with
  | u64 | i64 | double => rfl
  | null | bool | string | array | object => exact absurd h (by simp [exactU64])

/-- **What becomes of a line.**  A line that is not empty is accepted if and only if its two
locators pass the checks, and they are the offset and the length of its entry. -/
theorem ecmwfLine_eq_ok_iff {line : Bytes} (hline : line ≠ []) {o : Option GribIndexEntry} :
    ecmwfLine read toChars line = .ok o ↔
      ∃ obj offset length, read line = some (.object obj) ∧ Locates read line offset length ∧
        o = some (ecmwfEntry toChars line obj offset length) := by
  rw [ecmwfLine, if_neg hline]
  constructor
  · intro h
    split at h
    · rename_i obj hread
      split at h
      · rename_i off len hoff hlen
        split at h
        · exact absurd h (by simp)
        · split at h
          · rename_i offset length hexo hexl
            split at h
            · exact absurd h (by simp)
            · rename_i hfits
              refine ⟨obj, offset, length, hread, ⟨?_, ?_, hfits⟩, (Except.ok.inj h).symm⟩
              · simpa [locator, hread, hoff] using hexo
              · simpa [locator, hread, hlen] using hexl
          · exact absurd h (by simp)
      · exact absurd h (by simp)
    · exact absurd h (by simp)
  · rintro ⟨obj, offset, length, hread, ⟨ho, hl, hfits⟩, rfl⟩
    simp only [locator, hread] at ho hl
    obtain ⟨off, hoff, hexo⟩ := Option.bind_eq_some_iff.mp ho
    obtain ⟨len, hlen, hexl⟩ := Option.bind_eq_some_iff.mp hl
    have hnum : ¬ (off.isNumber = false ∨ len.isNumber = false) := by
      simp [isNumber_of_exactU64 hexo, isNumber_of_exactU64 hexl]
    simp only [hread, hoff, hlen, if_neg hnum, hexo, hexl, if_neg hfits]

/-- **A text is accepted line by line**: its entries are those of its lines, in order. -/
theorem parseEcmwfIndex_eq_ok_iff {text : Bytes} {es : List GribIndexEntry} :
    parseEcmwfIndex read toChars text = .ok es ↔
      List.Forall₂ (fun line e => ecmwfLine read toChars line = .ok (some e))
        (indexLines text) es := by
  rw [parseEcmwfIndex, indexLines]
  generalize split text 10 = lines
  induction lines generalizing es with
  | nil =>
    rw [collect_nil]
    constructor
    · intro h
      obtain rfl := Except.ok.inj h
      exact List.Forall₂.nil
    · intro h
      cases h
      rfl
  | cons line lines ih =>
    rw [List.map_cons]
    rw [collect_cons_eq_ok_iff]
    by_cases hline : stripCr line = []
    · -- an empty line gives no entry
      have hnone : ecmwfLine read toChars (stripCr line) = .ok none := by
        rw [ecmwfLine, if_pos hline]
      rw [List.filter_cons_of_neg (by simpa using hline), ← ih]
      simp [hnone]
    · -- any other line gives an entry or ends the loop
      rw [List.filter_cons_of_pos (by simpa using hline)]
      constructor
      · rintro ⟨o, rest, hentry, hrest, rfl⟩
        obtain ⟨obj, offset, length, -, -, rfl⟩ := (ecmwfLine_eq_ok_iff hline).mp hentry
        exact List.Forall₂.cons hentry (ih.mp hrest)
      · intro h
        cases h with
        | cons hhead htail => exact ⟨_, _, hhead, ih.mpr htail, rfl⟩

end Lines

end GribCpp.Sidecar
