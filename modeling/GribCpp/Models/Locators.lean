/-
# The exactness of the locators

What the text of an ECMWF index says about its locators is a number in JSON syntax, that
is a rational number.  Glaze delivers an integer that fits as a 64-bit word and rounds
every other number to a nearest binary64 number, after which the parser cannot see any
more what the text has said.  For integers this does no harm; but a fraction may be
rounded to an integer, and is then taken for it.
-/
import GribCpp.Models.EcmwfIndex

namespace GribCpp.Sidecar

open Decimal Rounding

/-! ## Numbers in JSON syntax -/

/-- The exponent of a literal: its sign and its digits. -/
structure Exponent where
  upper : Bool := false
  sign : Option Bool := none
  digits : Bytes
  isNumeral : IsNumeral digits

namespace Exponent

/-- The number of the exponent. -/
def value (e : Exponent) : ℤ :=
  if e.sign = some true then -(Decimal.value e.digits : ℤ) else Decimal.value e.digits

/-- The text of the exponent; the sign is a minus, a plus or absent. -/
def bytes (e : Exponent) : Bytes :=
  (if e.upper then ascii "E" else ascii "e") ++
    e.sign.elim [] (fun minus => if minus then ascii "-" else ascii "+") ++ e.digits

end Exponent

/-- A number in JSON syntax. -/
structure Literal where
  negative : Bool := false
  whole : Bytes
  whole_isNumeral : IsNumeral whole
  fraction : Option Bytes := none
  fraction_isNumeral : ∀ s ∈ fraction, IsNumeral s := by simp
  exponent : Option Exponent := none

namespace Literal

/-- The text of the literal. -/
def bytes (lit : Literal) : Bytes :=
  (if lit.negative then ascii "-" else []) ++ lit.whole ++
    lit.fraction.elim [] (fun s => ascii "." ++ s) ++ lit.exponent.elim [] Exponent.bytes

/-- The rational number that the literal denotes. -/
def value (lit : Literal) : ℚ :=
  (if lit.negative then -1 else 1) *
    ((Decimal.value lit.whole : ℚ) +
      lit.fraction.elim 0 (fun s => (Decimal.value s : ℚ) / 10 ^ s.length)) *
    (10 : ℚ) ^ lit.exponent.elim 0 Exponent.value

/-- The literal has neither a fraction nor an exponent. -/
def IsIntegerSyntax (lit : Literal) : Prop := lit.fraction = none ∧ lit.exponent = none

/-- The literal denotes an integer. -/
def IsInteger (lit : Literal) : Prop := ∃ z : ℤ, lit.value = z

/-- The literal has integer syntax and fits in a 64-bit word, signed when it is negative. -/
def Fits (lit : Literal) : Prop :=
  lit.IsIntegerSyntax ∧
    if lit.negative then -2 ^ 63 ≤ lit.value else lit.value < 2 ^ 64

/-- The largest binary64 number. -/
def maxFinite : ℚ := (2 ^ 53 - 1) * 2 ^ 971

/-- The value that Glaze makes of a literal: the integer itself when it fits, and else a
nearest binary64 number, or an infinity beyond the largest of them. -/
inductive Delivered (lit : Literal) : Generic → Prop where
  | u64 (n : UInt64) (fits : lit.Fits) (nonneg : lit.negative = false)
      (eq : lit.value = n.toNat) : Delivered lit (.u64 n)
  | i64 (n : Int64) (fits : lit.Fits) (neg : lit.negative = true)
      (eq : lit.value = n.toInt) : Delivered lit (.i64 n)
  | double (d : Double) (q : ℚ) (not_fits : ¬ lit.Fits) (value_eq : d.value = some q)
      (nearest : IsNearest {q | IsBinary64 q} lit.value q) : Delivered lit (.double d)
  | overflow (d : Double) (not_fits : ¬ lit.Fits) (value_eq : d.value = none)
      (large : maxFinite < |lit.value|) : Delivered lit (.double d)

/-- A literal that is no integer, but is rounded to one that a locator may be. -/
def RoundsToLocator (lit : Literal) (g : Generic) : Prop :=
  ¬ lit.IsInteger ∧ ∃ (d : Double) (n : ℕ), g = .double d ∧ d.value = some (n : ℚ) ∧ n < 2 ^ 53

/-- The literal of a natural number. -/
def ofNat (n : ℕ) : Literal where
  whole := numeral n
  whole_isNumeral := isNumeral_numeral n

@[simp] lemma value_ofNat (n : ℕ) : (ofNat n).value = n := by simp [value, ofNat]

lemma delivered_ofNat {n : ℕ} (hn : n < 2 ^ 64) : (ofNat n).Delivered (.u64 (UInt64.ofNat n)) := by
  have hlt : (n : ℚ) < 2 ^ 64 := by exact_mod_cast hn
  refine .u64 _ ⟨⟨rfl, rfl⟩, ?_⟩ rfl ?_
  · rwa [if_neg (by simp [ofNat]), value_ofNat]
  · rw [value_ofNat, UInt64.toNat_ofNat_of_lt' hn]

end Literal

/-! ## What a locator keeps of its literal -/

section Exact

variable {lit : Literal} {g : Generic} {n : UInt64}

lemma toNat_ofNat_toNat {z : ℤ} (h0 : 0 ≤ z) (h : z < 2 ^ 64) :
    ((UInt64.ofNat z.toNat).toNat : ℤ) = z := by
  have hlt : z.toNat < UInt64.size := by
    have hsize : UInt64.size = 2 ^ 64 := rfl
    omega
  rw [UInt64.toNat_ofNat_of_lt' hlt, Int.toNat_of_nonneg h0]

/-- A double that passes the check holds the offset or length. -/
lemma exactU64_double {d : Double} (h : exactU64 (.double d) = some n) :
    d.value = some (n.toNat : ℚ) ∧ n.toNat < 2 ^ 53 := by
  rw [exactU64] at h
  cases hd : d.value with
  | none => simp [hd] at h
  | some q =>
    simp only [hd] at h
    split at h
    · rename_i hq
      obtain ⟨hnonneg, hlt, htrunc⟩ := hq
      obtain rfl := Option.some.inj h
      have htrunc0 : (0 : ℤ) ≤ trunc q := by
        rw [← htrunc] at hnonneg
        exact_mod_cast hnonneg
      have hlt' : trunc q < 2 ^ 53 := by
        rw [← htrunc] at hlt
        exact_mod_cast hlt
      have hnat := toNat_ofNat_toNat htrunc0 (hlt'.trans (by norm_num))
      refine ⟨?_, by omega⟩
      rw [← Int.cast_natCast, hnat, htrunc]
    · exact absurd h (by simp)

/-- **A locator is exact if and only if its literal denotes an integer.** -/
theorem exact_iff_isInteger (hd : lit.Delivered g) (h : exactU64 g = some n) :
    lit.value = n.toNat ↔ lit.IsInteger := by
  constructor
  · intro hval
    exact ⟨n.toNat, by rw [hval]; simp⟩
  · rintro ⟨z, hz⟩
    cases hd with
    | u64 m _ _ heq =>
      obtain rfl := Option.some.inj h
      exact heq
    | i64 m _ _ heq =>
      rw [exactU64] at h
      split at h
      · rename_i hnonneg
        obtain rfl := Option.some.inj h
        have hlt := m.toInt_lt
        rw [heq, ← Int.cast_natCast, toNat_ofNat_toNat hnonneg (by omega)]
      · exact absurd h (by simp)
    | double d q _ hvalue hnear =>
      -- the integer is not rounded to another one below `2 ^ 53`
      obtain ⟨hq, hlt⟩ := exactU64_double h
      obtain rfl := Option.some.inj (hvalue.symm.trans hq)
      have habs : |((n.toNat : ℕ) : ℚ)| < 2 ^ 53 := by
        rw [abs_of_nonneg (Nat.cast_nonneg _)]
        exact_mod_cast hlt
      rw [hz] at hnear ⊢
      exact (hnear.eq_intCast (by decide) (by decide) (by decide) habs).symm
    | overflow d _ hvalue _ =>
      rw [(exactU64_double h).1] at hvalue
      exact absurd hvalue (by simp)

/-- A literal that is no integer can only pass the check by being rounded. -/
lemma roundsToLocator_iff (hd : lit.Delivered g) (h : exactU64 g = some n) :
    lit.RoundsToLocator g ↔ ¬ lit.IsInteger := by
  constructor
  · exact And.left
  · intro hno
    refine ⟨hno, ?_⟩
    cases hd with
    | u64 m _ _ heq => exact absurd ⟨m.toNat, by rw [heq]; simp⟩ hno
    | i64 m _ _ heq => exact absurd ⟨m.toInt, heq⟩ hno
    | double d =>
      obtain ⟨hq, hlt⟩ := exactU64_double h
      exact ⟨d, n.toNat, rfl, hq, hlt⟩
    | overflow d _ hvalue _ =>
      rw [(exactU64_double h).1] at hvalue
      exact absurd hvalue (by simp)

end Exact

/-! ## What an index keeps of its locators -/

/-- Glaze as the reader of lines, and the literal that the text of a line has for a key. -/
structure Glaze where
  read : Bytes → Option Generic
  literal : Bytes → Bytes → Option Literal
  literal_text : ∀ {line key lit}, literal line key = some lit → lit.bytes <:+: line
  delivered : ∀ {line key g}, locator read line key = some g → g.isNumber = true →
    ∃ lit, literal line key = some lit ∧ lit.Delivered g

namespace Glaze

variable (G : Glaze)

/-- The literals of a line are integers, and the entry has them as its offset and length. -/
def StoredExactly (line : Bytes) (e : GribIndexEntry) : Prop :=
  ∃ off len, G.literal line (ascii "_offset") = some off ∧
    G.literal line (ascii "_length") = some len ∧
    off.value = e.offset.toNat ∧ len.value = e.length.toNat

/-- One of the two locators of a line is a fraction that is rounded to an integer. -/
def HasRounded (line : Bytes) : Prop :=
  ∃ key ∈ [ascii "_offset", ascii "_length"], ∃ lit g,
    G.literal line key = some lit ∧ locator G.read line key = some g ∧ lit.RoundsToLocator g

variable {G}

/-- A locator that passes the check, with its literal. -/
lemma exists_literal {line key : Bytes} {n : UInt64}
    (h : (locator G.read line key).bind exactU64 = some n) :
    ∃ lit g, G.literal line key = some lit ∧ locator G.read line key = some g ∧
      lit.Delivered g ∧ exactU64 g = some n := by
  obtain ⟨g, hg, hn⟩ := Option.bind_eq_some_iff.mp h
  obtain ⟨lit, hlit, hd⟩ := G.delivered hg (isNumber_of_exactU64 hn)
  exact ⟨lit, g, hlit, hg, hd, hn⟩

/-- A line that passes the checks is stored exactly unless a locator is rounded. -/
lemma storedExactly_iff {line : Bytes} {e : GribIndexEntry}
    (h : Locates G.read line e.offset e.length) : G.StoredExactly line e ↔ ¬ G.HasRounded line := by
  obtain ⟨off, go, hoff, hgo, hdo, hno⟩ := exists_literal h.offset_eq
  obtain ⟨len, gl, hlen, hgl, hdl, hnl⟩ := exists_literal h.length_eq
  have hstored : G.StoredExactly line e ↔ off.IsInteger ∧ len.IsInteger := by
    rw [← exact_iff_isInteger hdo hno, ← exact_iff_isInteger hdl hnl]
    constructor
    · rintro ⟨off', len', hoff', hlen', ho, hl⟩
      obtain rfl := Option.some.inj (hoff.symm.trans hoff')
      obtain rfl := Option.some.inj (hlen.symm.trans hlen')
      exact ⟨ho, hl⟩
    · rintro ⟨ho, hl⟩
      exact ⟨off, len, hoff, hlen, ho, hl⟩
  rw [hstored, ← not_iff_not, not_not, not_and_or, ← roundsToLocator_iff hdo hno,
    ← roundsToLocator_iff hdl hnl]
  constructor
  · rintro (hr | hr)
    · exact ⟨_, by simp, off, go, hoff, hgo, hr⟩
    · exact ⟨_, by simp, len, gl, hlen, hgl, hr⟩
  · rintro ⟨key, hkey, lit, g, hlit, hg, hr⟩
    simp only [List.mem_cons, List.not_mem_nil, or_false] at hkey
    rcases hkey with rfl | rfl
    · obtain rfl := Option.some.inj (hoff.symm.trans hlit)
      obtain rfl := Option.some.inj (hgo.symm.trans hg)
      exact Or.inl hr
    · obtain rfl := Option.some.inj (hlen.symm.trans hlit)
      obtain rfl := Option.some.inj (hgl.symm.trans hg)
      exact Or.inr hr

lemma lookup_pair {α : Type*} (key : Bytes) (a b : α) :
    [(ascii "_offset", a), (ascii "_length", b)].lookup key
      = if key = ascii "_offset" then some a
        else if key = ascii "_length" then some b
        else none := by
  by_cases ho : key = ascii "_offset"
  · rw [if_pos ho, ho, List.lookup_cons_self]
  · simp only [if_neg ho, List.lookup_cons, beq_false_of_ne ho]
    by_cases hl : key = ascii "_length"
    · simp [hl]
    · simp [hl, beq_false_of_ne hl]

/-- A reader that knows one line, an object that consists of the two locators. -/
def ofLine (line : Bytes) (off len : Literal) (goff glen : Generic)
    (hoff : off.bytes <:+: line) (hlen : len.bytes <:+: line) (hdo : off.Delivered goff)
    (hdl : len.Delivered glen) : Glaze where
  read s :=
    if s = line then some (.object [(ascii "_offset", goff), (ascii "_length", glen)]) else none
  literal s key :=
    if s = line then [(ascii "_offset", off), (ascii "_length", len)].lookup key else none
  literal_text := by
    intro s key lit h
    simp only [lookup_pair] at h
    split_ifs at h with hs
    · exact Option.some.inj h ▸ hs ▸ hoff
    · exact Option.some.inj h ▸ hs ▸ hlen
  delivered := by
    intro s key g h hnum
    by_cases hs : s = line
    · simp only [locator, hs, if_true, lookup_pair] at h ⊢
      split_ifs at h ⊢
      · exact ⟨off, rfl, Option.some.inj h ▸ hdo⟩
      · exact ⟨len, rfl, Option.some.inj h ▸ hdl⟩
    · simp [locator, hs] at h

section OfLine

variable {line : Bytes} {off len : Literal} {goff glen : Generic} {hoff : off.bytes <:+: line}
  {hlen : len.bytes <:+: line} {hdo : off.Delivered goff} {hdl : len.Delivered glen}

lemma locator_offset :
    locator (ofLine line off len goff glen hoff hlen hdo hdl).read line (ascii "_offset")
      = some goff := by
  simp [locator, ofLine]

lemma locator_length :
    locator (ofLine line off len goff glen hoff hlen hdo hdl).read line (ascii "_length")
      = some glen := by
  have hne : ascii "_length" ≠ ascii "_offset" := by decide
  simp [locator, ofLine, lookup_pair, hne]

end OfLine

end Glaze

section Index

variable {read : Bytes → Option Generic} {toChars : Double → Bytes} {text : Bytes}

/-- What holds of the first of any two related things holds of all first things. -/
lemma forall_mem_of_forall₂ {α β : Type*} {R : α → β → Prop} {P : α → Prop} {as : List α}
    {bs : List β} (h : List.Forall₂ R as bs) (hR : ∀ a b, R a b → P a) : ∀ a ∈ as, P a :=
  ((List.forall₂_and_left (R := fun _ _ => True) as bs).mp
    (h.imp fun a b hab => ⟨hR a b hab, trivial⟩)).1

lemma ne_nil_of_mem_indexLines {line : Bytes} (h : line ∈ indexLines text) : line ≠ [] := by
  simpa using (List.mem_filter.mp h).2

/-- The entries of an accepted text have the locators that their lines deliver. -/
lemma locates_of_accepted {es : List GribIndexEntry}
    (h : parseEcmwfIndex read toChars text = .ok es) :
    List.Forall₂ (fun line e => Locates read line e.offset e.length) (indexLines text) es := by
  rw [parseEcmwfIndex_eq_ok_iff] at h
  have hne : ∀ line ∈ indexLines text, line ≠ [] := fun _ => ne_nil_of_mem_indexLines
  refine ((List.forall₂_and_left _ _).mpr ⟨hne, h⟩).imp ?_
  rintro line e ⟨hline, hentry⟩
  obtain ⟨obj, offset, length, -, hloc, heq⟩ := (ecmwfLine_eq_ok_iff hline).mp hentry
  obtain rfl := Option.some.inj heq
  exact hloc

/-- A text all of whose lines pass the checks is accepted. -/
lemma accepted_of_locates (toChars : Double → Bytes)
    (h : ∀ line ∈ indexLines text, ∃ o l, Locates read line o l) :
    ∃ es, parseEcmwfIndex read toChars text = .ok es := by
  have hline : ∀ line ∈ indexLines text, ∃ e, ecmwfLine read toChars line = .ok (some e) := by
    intro line hmem
    obtain ⟨o, l, hloc⟩ := h line hmem
    obtain ⟨off, hoff, -⟩ := Option.bind_eq_some_iff.mp hloc.offset_eq
    rw [locator] at hoff
    split at hoff
    · rename_i obj hread
      exact ⟨_, (ecmwfLine_eq_ok_iff (ne_nil_of_mem_indexLines hmem)).mpr
        ⟨obj, o, l, hread, hloc, rfl⟩⟩
    · exact absurd hoff (by simp)
  simp only [parseEcmwfIndex_eq_ok_iff]
  -- one line after the other
  generalize indexLines text = lines at hline
  clear h
  induction lines with
  | nil => exact ⟨[], List.Forall₂.nil⟩
  | cons line lines ih =>
    obtain ⟨e, he⟩ := hline line (by simp)
    obtain ⟨es, hes⟩ := ih fun l hl => hline l (by simp [hl])
    exact ⟨e :: es, List.Forall₂.cons he hes⟩

end Index

/-- **The locators of an accepted text are exact if and only if none of them is a fraction
that is rounded to an integer.** -/
theorem storedExactly_index_iff (G : Glaze) (toChars : Double → Bytes) (text : Bytes) :
    (∀ es, parseEcmwfIndex G.read toChars text = .ok es →
        List.Forall₂ G.StoredExactly (indexLines text) es) ↔
      ((∀ line ∈ indexLines text, ∃ offset length, Locates G.read line offset length) →
        ∀ line ∈ indexLines text, ¬ G.HasRounded line) := by
  constructor
  · intro hexact hpass
    obtain ⟨es, hes⟩ := accepted_of_locates toChars hpass
    have hboth := List.Forall₂.mp (fun _ _ hloc hst => (Glaze.storedExactly_iff hloc).mp hst)
      (locates_of_accepted hes) (hexact es hes)
    exact forall_mem_of_forall₂ hboth fun _ _ hno => hno
  · intro hrounded es hes
    have hloc := locates_of_accepted hes
    have hpass : ∀ line ∈ indexLines text, ∃ offset length, Locates G.read line offset length :=
      forall_mem_of_forall₂ hloc fun _ e h => ⟨e.offset, e.length, h⟩
    have hno := hrounded hpass
    exact ((List.forall₂_and_left _ _).mpr ⟨hno, hloc⟩).imp fun _ _ h =>
      (Glaze.storedExactly_iff h.2).mpr h.1

/-! ### A fraction that is accepted -/

/-- The literal `0.99999999999999999999`. -/
def almostOne : Literal where
  whole := ascii "0"
  whole_isNumeral := by decide +kernel
  fraction := some (ascii "99999999999999999999")
  fraction_isNumeral := by
    intro s hs
    rw [← Option.mem_some.mp hs]
    decide +kernel

/-- A line whose offset is a fraction. -/
def almostOneLine : Bytes := ascii "\x7b\"_offset\":0.99999999999999999999,\"_length\":1\x7d"

lemma value_almostOne : almostOne.value = 1 - 1 / 10 ^ 20 := by
  have hfrac : Decimal.value (ascii "99999999999999999999") = 99999999999999999999 := by decide
  have hlen : (ascii "99999999999999999999").length = 20 := by decide
  have hwhole : Decimal.value (ascii "0") = 0 := by decide
  simp only [Literal.value, almostOne, Option.elim_some, Option.elim_none, hfrac, hlen, hwhole]
  norm_num

lemma isBinary64_one : IsBinary64 1 := by
  exact_mod_cast isBinary64_intCast (n := 1) (by decide)

/-- The literal is delivered as the double `1`. -/
lemma delivered_almostOne : almostOne.Delivered (.double (.finite 1 isBinary64_one)) := by
  refine .double _ 1 (fun h => absurd h.1.1 (by simp [almostOne])) rfl ?_
  rw [value_almostOne]
  exact isNearest_one (by decide) (by decide) (by decide) (by norm_num) (by norm_num)

/-- Glaze on that line. -/
def almostOneGlaze : Glaze :=
  Glaze.ofLine almostOneLine almostOne (.ofNat 1) _ _ (by decide) (by decide) delivered_almostOne
    (Literal.delivered_ofNat (by decide))

lemma value_almostOne_not_isInteger : ¬ almostOne.IsInteger := by
  rintro ⟨z, hz⟩
  rw [value_almostOne] at hz
  have hlt : (z : ℚ) < 1 := by rw [← hz]; norm_num
  have hgt : (0 : ℚ) < z := by rw [← hz]; norm_num
  have hlt' : z < 1 := by exact_mod_cast hlt
  have hgt' : 0 < z := by exact_mod_cast hgt
  omega

/-- The parser takes the line for one with offset `1`. -/
lemma locates_almostOne : Locates almostOneGlaze.read almostOneLine 1 1 := by
  have htrunc : trunc 1 = 1 := by simp [trunc]
  refine ⟨?_, ?_, by decide⟩
  · rw [almostOneGlaze, Glaze.locator_offset, Option.bind_some]
    simp only [exactU64, Double.value, htrunc]
    norm_num
  · rw [almostOneGlaze, Glaze.locator_length]
    rfl

lemma indexLines_almostOne : indexLines almostOneLine = [almostOneLine] := by
  rw [indexLines, split_eq, List.splitOn_eq_singleton (by decide)]
  decide

theorem almostOne_accepted :
    ∃ es, parseEcmwfIndex almostOneGlaze.read (fun _ => []) almostOneLine = .ok es ∧
      ¬ List.Forall₂ almostOneGlaze.StoredExactly (indexLines almostOneLine) es := by
  have hpass : ∀ line ∈ indexLines almostOneLine, ∃ o l, Locates almostOneGlaze.read line o l := by
    rw [indexLines_almostOne]
    intro line hline
    rw [List.mem_singleton.mp hline]
    exact ⟨1, 1, locates_almostOne⟩
  obtain ⟨es, hes⟩ := accepted_of_locates (fun _ => []) hpass
  refine ⟨es, hes, fun hstored => ?_⟩
  have hno := List.Forall₂.mp (fun _ _ hloc hst => (Glaze.storedExactly_iff hloc).mp hst)
    (locates_of_accepted hes) hstored
  rw [indexLines_almostOne] at hno
  cases hno with
  | cons hhead _ =>
    exact hhead ⟨ascii "_offset", by simp, almostOne, _, rfl, Glaze.locator_offset,
      value_almostOne_not_isInteger, _, 1, rfl, by simp [Double.value], by norm_num⟩

end GribCpp.Sidecar
