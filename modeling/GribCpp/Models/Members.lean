/-
# The member of an entry

Both readers fill in the ensemble member of an entry, `0` for the control and `-1` where there
is none.  The NOMADS reader refuses a minus and never returns anything below `-1`; the ECMWF
reader takes the number of a line as it stands, with a minus too.
-/
import GribCpp.Models.Locators
import GribCpp.Models.ToChars

namespace GribCpp.Sidecar

open Decimal Search

/-! ## Texts of negative numbers -/

/-- The text of an `int` below `-1`. -/
def BelowMinusOne (s : Bytes) : Prop :=
  ∃ d, s = 45 :: d ∧ IsNumeral d ∧ 2 ≤ Decimal.value d ∧ Decimal.value d ≤ 2 ^ 31

/-- A text without a minus is not negative. -/
lemma fromCharsInt_nonneg {s r : Bytes} {n : ℤ} (hs : s.head? ≠ some 45)
    (h : fromCharsInt s = some (n, r)) : 0 ≤ n := by
  rw [fromCharsInt] at h
  · obtain ⟨p, -, hp⟩ := Option.map_eq_some_iff.mp h
    rw [← (Prod.mk.inj hp).1]
    exact Int.natCast_nonneg _
  · rintro t rfl
    exact hs rfl

/-- A minus and digits are read as a whole. -/
lemma fromCharsInt_minus {d : Bytes} (hd : IsNumeral d) (hle : Decimal.value d ≤ 2 ^ 31) :
    fromCharsInt (45 :: d) = some (-(Decimal.value d : ℤ), []) := by
  have hread : readNumeral (2 ^ 31 + 1) (d ++ []) = some (Decimal.value d, []) :=
    readNumeral_append hd noDigit_nil (by omega)
  rw [List.append_nil] at hread
  rw [fromCharsInt, hread]
  rfl

/-- The whole text is a number below `-1`. -/
lemma exists_lt_iff_belowMinusOne {s : Bytes} :
    (∃ n : ℤ, fromCharsInt s = some (n, []) ∧ n < -1) ↔ BelowMinusOne s := by
  constructor
  · rintro ⟨n, hread, hlt⟩
    by_cases hs : s.head? = some 45
    · obtain ⟨d, rfl⟩ := List.head?_eq_some_iff.mp hs
      obtain ⟨⟨k, r⟩, hk, heq⟩ := Option.map_eq_some_iff.mp hread
      obtain ⟨rfl, rfl⟩ := Prod.mk.inj heq
      obtain ⟨d', hd, happ, -, hval, hbound⟩ := readNumeral_eq_some_iff.mp hk
      rw [List.append_nil] at happ
      subst happ
      exact ⟨d, rfl, hd, by omega, by omega⟩
    · have := fromCharsInt_nonneg hs hread
      omega
  · rintro ⟨d, rfl, hd, hge, hle⟩
    exact ⟨-(Decimal.value d : ℤ), fromCharsInt_minus hd hle, by omega⟩

/-! ## NOMADS -/

/-- Digits carry no sign. -/
lemma fromCharsInt_takeWhile_nonneg {s r : Bytes} {n : ℤ}
    (h : fromCharsInt (s.takeWhile isDigit) = some (n, r)) : 0 ≤ n := by
  refine fromCharsInt_nonneg (fun hhead => ?_) h
  exact absurd (List.mem_takeWhile_imp (List.mem_of_head? hhead)) (by decide)

/-- The NOMADS reader skips the sign, and refuses a minus. -/
lemma neg_one_le_parseNomadsMember (rest : Bytes) : -1 ≤ parseNomadsMember rest := by
  rw [parseNomadsMember]
  cases indexOf? (ascii "ENS=") rest with
  | none => exact le_refl (-1 : ℤ)
  | some p =>
    simp only
    generalize rest.drop (p + 4) = tok
    generalize tok.drop (if tok.head? = some 43 ∨ tok.head? = some 45 then 1 else 0) = digits
    cases hread : fromCharsInt (digits.takeWhile isDigit) with
    | none => split_ifs <;> decide
    | some x =>
      have hn := fromCharsInt_takeWhile_nonneg hread
      simp only
      split_ifs <;> omega

lemma neg_one_le_member_of_nomads {text : Bytes} {es : List GribIndexEntry}
    (h : parseNomadsIdx text = .ok es) : ∀ e ∈ es, -1 ≤ e.member := by
  obtain ⟨es₀, hcollect, hset⟩ := parseNomadsIdx_eq_ok.mp h
  have hlines : ∀ e ∈ es₀, -1 ≤ e.member := by
    refine forall_mem_of_collect ?_ hcollect
    intro line e he
    obtain ⟨_, _, _, _, _, _, _, _, _, _, _, _, _, _, rfl⟩ := nomadsLine_eq_some he
    exact neg_one_le_parseNomadsMember _
  -- the lengths are set behind the loop, the members stay
  have hboth := ((List.forall₂_and_left _ _).mpr ⟨hlines, setLengths_forall₂ hset⟩).flip
  refine forall_mem_of_forall₂ hboth ?_
  rintro e e₀ ⟨hge, heq⟩
  rw [heq]
  exact hge

/-! ## ECMWF -/

section Ecmwf

variable {read : Bytes → Option Generic} {toChars : Double → Bytes}

/-- The line names a member below `-1`: it is not that of the control, and its number is
written with a minus. -/
def NamesNegative (read : Bytes → Option Generic) (toChars : Double → Bytes) (line : Bytes) :
    Prop :=
  locator read line (ascii "type") ≠ some (.string (ascii "cf")) ∧
    ∃ number, locator read line (ascii "number") = some number ∧
      BelowMinusOne (genericToString toChars number)

lemma parsed_lt_iff {number : Generic} :
    ecmwfMember.parsed toChars number < -1 ↔ BelowMinusOne (genericToString toChars number) := by
  rw [← exists_lt_iff_belowMinusOne, ecmwfMember.parsed]
  split
  · rename_i n hread
    simp [hread]
  · rename_i hno
    constructor
    · intro hlt
      omega
    · rintro ⟨n, hread, -⟩
      exact absurd hread (hno n)

lemma elim_parsed_lt_iff {number : Option Generic} :
    number.elim (-1) (ecmwfMember.parsed toChars) < -1 ↔
      ∃ n, number = some n ∧ BelowMinusOne (genericToString toChars n) := by
  cases number with
  | none => simp
  | some n => simp [parsed_lt_iff]

lemma ecmwfMember_lt_iff {obj : List (Bytes × Generic)} :
    ecmwfMember toChars obj < -1 ↔
      obj.lookup (ascii "type") ≠ some (.string (ascii "cf")) ∧
        ∃ n, obj.lookup (ascii "number") = some n ∧
          BelowMinusOne (genericToString toChars n) := by
  rw [ecmwfMember]
  split
  · rename_i s number htype
    rw [htype]
    split
    · rename_i hcf
      simp [hcf]
    · rename_i hcf
      rw [elim_parsed_lt_iff]
      simp [hcf]
  · rename_i hno
    rw [elim_parsed_lt_iff]
    have hcf : obj.lookup (ascii "type") ≠ some (.string (ascii "cf")) := hno _
    simp [hcf]

/-- The member of an accepted line. -/
lemma member_lt_iff {line : Bytes} {e : GribIndexEntry} (hline : line ≠ [])
    (h : ecmwfLine read toChars line = .ok (some e)) :
    e.member < -1 ↔ NamesNegative read toChars line := by
  obtain ⟨obj, offset, length, hread, -, heq⟩ := (ecmwfLine_eq_ok_iff hline).mp h
  obtain rfl := Option.some.inj heq
  rw [NamesNegative, locator, locator, hread]
  exact ecmwfMember_lt_iff

/-! ### Numbers below -1 -/

/-- The numbers whose text is that of an `int` below `-1`: texts, integers, and of the doubles
those that hold an integer which is written in full. -/
def Generic.IsBelowMinusOne : Generic → Prop
  | .string s => BelowMinusOne s
  | .i64 n => -2 ^ 31 ≤ n.toInt ∧ n.toInt < -1
  | .double d => ∃ n : ℕ, d.value = some (-(n : ℚ)) ∧ 2 ≤ n ∧ n ≤ 2 ^ 31 ∧
      ¬ 10 ^ 6 ∣ n ∧ ¬ (10 ^ 5 ∣ n ∧ n < 10 ^ 6)
  | _ => False

lemma belowMinusOne_minus_iff {n : ℕ} : BelowMinusOne (45 :: numeral n) ↔ 2 ≤ n ∧ n ≤ 2 ^ 31 := by
  constructor
  · rintro ⟨d, hd, -, hge, hle⟩
    obtain rfl := (List.cons_eq_cons.mp hd).2
    rw [value_numeral] at hge hle
    exact ⟨hge, hle⟩
  · rintro ⟨hge, hle⟩
    exact ⟨numeral n, rfl, isNumeral_numeral n, by rwa [value_numeral], by rwa [value_numeral]⟩

lemma not_belowMinusOne_numeral (n : ℕ) : ¬ BelowMinusOne (numeral n) := by
  rintro ⟨d, hd, -⟩
  have hmem : (45 : UInt8) ∈ numeral n := by simp [hd]
  exact (isNumeral_numeral n).notMem rfl hmem

/-- **The doubles with such a text.** -/
lemma belowMinusOne_toChars_iff (hstd : StandardToChars toChars) {d : Double} {q : ℚ}
    (hd : d.value = some q) :
    BelowMinusOne (toChars d) ↔ (Generic.double d).IsBelowMinusOne := by
  constructor
  · rintro ⟨t, heq, ht, hge, hle⟩
    have hq : q = ((-(Decimal.value t : ℤ) : ℤ) : ℚ) :=
      hstd.recovers d q _ hd (by rw [heq, fromCharsInt_minus ht hle])
    have hvalue : d.value = some (-((Decimal.value t : ℕ) : ℚ)) := by
      rw [hd, hq]
      push_cast
      rfl
    have htext := (hstd.integer d (Decimal.value t) (by omega) (by omega)).2 hvalue
    rw [heq] at htext
    have hfull : IsNumeral (shortestText (Decimal.value t)) := (List.cons_eq_cons.mp htext).2 ▸ ht
    exact ⟨_, hvalue, hge, hle, (isNumeral_shortestText_iff (by omega) (by omega)).mp hfull⟩
  · rintro ⟨n, hvalue, hge, hle, hfull⟩
    have htext := (hstd.integer d n (by omega) (by omega)).2 hvalue
    rw [htext, shortestText_eq ((isNumeral_shortestText_iff (by omega) (by omega)).mpr hfull)]
    exact belowMinusOne_minus_iff.mpr ⟨hge, hle⟩

/-- **The numbers with such a text.** -/
lemma belowMinusOne_genericToString_iff (hstd : StandardToChars toChars) {g : Generic} :
    BelowMinusOne (genericToString toChars g) ↔ g.IsBelowMinusOne := by
  have hnil : ¬ BelowMinusOne [] := by
    rintro ⟨d, hd, -⟩
    cases hd
  cases g with
  | string s => exact Iff.rfl
  | u64 n => exact iff_of_false (not_belowMinusOne_numeral _) id
  | i64 n =>
    rw [genericToString, toStringI64, Generic.IsBelowMinusOne]
    split_ifs with hneg
    · rw [belowMinusOne_minus_iff]
      omega
    · exact iff_of_false (not_belowMinusOne_numeral _) (by omega)
  | double d =>
    cases hd : d.value with
    | some q =>
      rw [genericToString, hd]
      exact belowMinusOne_toChars_iff hstd hd
    | none =>
      rw [genericToString, hd]
      refine iff_of_false hnil ?_
      rintro ⟨n, hvalue, -⟩
      rw [hd] at hvalue
      cases hvalue
  | null | bool | array | object => exact iff_of_false hnil id

end Ecmwf

/-- **The member of an entry.**  The NOMADS reader never returns a member below `-1`.  The
ECMWF reader returns none if and only if the text is rejected, or no line of it that is not the
control names a number below `-1`; by the standard these are the texts and the integers below `-1`,
and of the doubles those that hold such an integer and are written without an exponent. -/
theorem members_iff (read : Bytes → Option Generic) (toChars : Double → Bytes) (text : Bytes) :
    (∀ es, parseNomadsIdx text = .ok es → ∀ e ∈ es, -1 ≤ e.member) ∧
      ((∀ es, parseEcmwfIndex read toChars text = .ok es → ∀ e ∈ es, -1 ≤ e.member) ↔
        ((∀ line ∈ indexLines text, ∃ offset length, Locates read line offset length) →
          ∀ line ∈ indexLines text, ¬ NamesNegative read toChars line)) ∧
      (StandardToChars toChars → ∀ line, NamesNegative read toChars line ↔
        locator read line (ascii "type") ≠ some (.string (ascii "cf")) ∧
          ∃ number, locator read line (ascii "number") = some number ∧
            number.IsBelowMinusOne) := by
  refine ⟨fun es hes => neg_one_le_member_of_nomads hes, ?_, fun hstd line => by
    simp only [NamesNegative, belowMinusOne_genericToString_iff hstd]⟩
  have hne : ∀ line ∈ indexLines text, line ≠ [] := fun _ => ne_nil_of_mem_indexLines
  have hlines : ∀ es, parseEcmwfIndex read toChars text = .ok es →
      List.Forall₂ (fun line e => e.member < -1 ↔ NamesNegative read toChars line)
        (indexLines text) es := by
    intro es hes
    have hall := (List.forall₂_and_left _ _).mpr ⟨hne, parseEcmwfIndex_eq_ok_iff.mp hes⟩
    exact hall.imp fun _ _ h => member_lt_iff h.1 h.2
  constructor
  · intro hmem hpass
    obtain ⟨es, hes⟩ := accepted_of_locates toChars hpass
    have hboth := ((List.forall₂_and_left _ _).mpr ⟨hmem es hes, (hlines es hes).flip⟩).flip
    refine forall_mem_of_forall₂ hboth ?_
    rintro line e ⟨hge, hiff⟩
    rw [← hiff]
    omega
  · intro hno es hes
    have hpass : ∀ line ∈ indexLines text, ∃ offset length, Locates read line offset length :=
      forall_mem_of_forall₂ (locates_of_accepted hes) fun _ e h => ⟨e.offset, e.length, h⟩
    have hboth := ((List.forall₂_and_left _ _).mpr ⟨hno hpass, hlines es hes⟩).flip
    refine forall_mem_of_forall₂ hboth ?_
    rintro e line ⟨hline, hiff⟩
    rw [← hiff] at hline
    omega

/-! ### Two doubles -/

/-- A double that holds an integer. -/
def wholeDouble (n : ℤ) (h : |n| ≤ 2 ^ 53) : Double := .finite n (isBinary64_intCast h)

/-- A line of a perturbed member with a number of the given text. -/
def numberLine (number : Bytes) : Bytes :=
  ascii "\x7b\"_offset\":0,\"_length\":1,\"type\":\"pf\",\"number\":" ++ number ++ ascii "\x7d"

/-- An object for it. -/
def numberObject (d : Double) : Generic :=
  .object [(ascii "_offset", .u64 0), (ascii "_length", .u64 1),
    (ascii "type", .string (ascii "pf")), (ascii "number", .double d)]

/-- A reader of two lines. -/
def readDoubles (line : Bytes) : Option Generic :=
  if line = numberLine (ascii "-5.0") then
    some (numberObject (wholeDouble (-5) (by norm_num)))
  else if line = numberLine (ascii "-1e6") then
    some (numberObject (wholeDouble (-1000000) (by norm_num)))
  else none

/-- The first one yields a member below `-1`, and the second one, which is written with an exponent,
does not. -/
theorem members_iff_doubles :
    (∃ es, parseEcmwfIndex readDoubles integerToChars (numberLine (ascii "-5.0")) = .ok es ∧
      ∃ e ∈ es, e.member < -1) ∧
    ∀ es, parseEcmwfIndex readDoubles integerToChars (numberLine (ascii "-1e6")) = .ok es →
      ∀ e ∈ es, -1 ≤ e.member := by
  have hfive : readDoubles (numberLine (ascii "-5.0"))
      = some (numberObject (wholeDouble (-5) (by norm_num))) := if_pos rfl
  have hmillion : readDoubles (numberLine (ascii "-1e6"))
      = some (numberObject (wholeDouble (-1000000) (by norm_num))) :=
    (if_neg (by decide)).trans (if_pos rfl)
  have hfiveLines : indexLines (numberLine (ascii "-5.0")) = [numberLine (ascii "-5.0")] := by
    rw [indexLines, split_eq, List.splitOn_eq_singleton (by decide)]
    decide
  have hmillionLines : indexLines (numberLine (ascii "-1e6")) = [numberLine (ascii "-1e6")] := by
    rw [indexLines, split_eq, List.splitOn_eq_singleton (by decide)]
    decide
  constructor
  · obtain ⟨-, hiff, hnames⟩ := members_iff readDoubles integerToChars (numberLine (ascii "-5.0"))
    by_contra hno
    refine hiff.mp ?_ ?_ (numberLine (ascii "-5.0")) (by simp [hfiveLines])
      ((hnames standardToChars_integer _).mpr
        ⟨?_, .double (wholeDouble (-5) (by norm_num)), ?_, ?_⟩)
    · intro es hes e he
      by_contra hlt
      exact hno ⟨es, hes, e, he, by omega⟩
    · intro line hline
      rw [hfiveLines, List.mem_singleton] at hline
      subst hline
      refine ⟨0, 1, ⟨?_, ?_, by decide⟩⟩ <;>
      · rw [locator, hfive]
        rfl
    · intro hcf
      have htype : some (.string (ascii "pf")) = some (Generic.string (ascii "cf")) := by
        rw [← hcf, locator, hfive]
        rfl
      exact absurd (Generic.string.inj (Option.some.inj htype)) (by decide)
    · rw [locator, hfive]
      rfl
    · refine ⟨5, ?_, by norm_num, by norm_num, by norm_num, by norm_num⟩
      rw [wholeDouble, Double.value]
      norm_num
  · obtain ⟨-, hiff, hnames⟩ := members_iff readDoubles integerToChars (numberLine (ascii "-1e6"))
    refine hiff.mpr fun _ line hline hnegative => ?_
    rw [hmillionLines, List.mem_singleton] at hline
    subst hline
    obtain ⟨-, number, hnumber, hbelow⟩ := (hnames standardToChars_integer _).mp hnegative
    rw [locator, hmillion] at hnumber
    obtain rfl : .double (wholeDouble (-1000000) (by norm_num)) = number := Option.some.inj hnumber
    obtain ⟨n, hvalue, -, -, hfull, -⟩ := hbelow
    rw [wholeDouble, Double.value, Option.some.injEq] at hvalue
    have hn : n = 1000000 := by
      have hcast : (n : ℚ) = (1000000 : ℕ) := by
        rw [← neg_inj, ← hvalue]
        norm_num
      exact_mod_cast hcast
    exact hfull (by rw [hn]; norm_num)

/-! ### A negative number -/

/-- A line of a perturbed member with a negative number. -/
def minusFiveLine : Bytes :=
  ascii "\x7b\"_offset\":0,\"_length\":1,\"type\":\"pf\",\"number\":-5\x7d"

/-- What Glaze delivers for it. -/
def minusFiveObject : List (Bytes × Generic) :=
  [(ascii "_offset", .u64 0), (ascii "_length", .u64 1), (ascii "type", .string (ascii "pf")),
    (ascii "number", .i64 (-5))]

/-- Glaze on that line. -/
def minusFiveRead (line : Bytes) : Option Generic :=
  if line = minusFiveLine then some (.object minusFiveObject) else none

theorem minusFive_accepted :
    ∃ es, parseEcmwfIndex minusFiveRead (fun _ => []) minusFiveLine = .ok es ∧
      ∃ e ∈ es, e.member = -5 := by
  have hlines : indexLines minusFiveLine = [minusFiveLine] := by
    rw [indexLines, split_eq, List.splitOn_eq_singleton (by decide)]
    decide
  have hread : minusFiveRead minusFiveLine = some (.object minusFiveObject) := if_pos rfl
  have hloc : Locates minusFiveRead minusFiveLine 0 1 := by
    refine ⟨?_, ?_, by decide⟩
    · rw [locator, hread]
      rfl
    · rw [locator, hread]
      rfl
  have hline : ecmwfLine minusFiveRead (fun _ => []) minusFiveLine
      = .ok (some (ecmwfEntry (fun _ => []) minusFiveLine minusFiveObject 0 1)) :=
    (ecmwfLine_eq_ok_iff (by decide)).mpr ⟨_, _, _, hread, hloc, rfl⟩
  refine ⟨[ecmwfEntry (fun _ => []) minusFiveLine minusFiveObject 0 1],
    parseEcmwfIndex_eq_ok_iff.mpr ?_, _, List.mem_singleton_self _, ?_⟩
  · rw [hlines]
    exact List.Forall₂.cons hline List.Forall₂.nil
  · rfl

end GribCpp.Sidecar
