/-
# Which NOMADS texts are accepted

`parse_nomads_idx` looks at the lines with at least five colons.  Each of them becomes an entry if
its first two fields are numbers of the right size, and one that does not ends the reading; then
the offsets have to increase.  Here this is said in one equivalence for every text, together with
the entries that come out.
-/
import GribCpp.Models.Inventory

namespace GribCpp.Sidecar

open Decimal Search

/-! ## Inventory lines -/

/-- The lines of a text that the reader takes for records. -/
def inventoryLines (text : Bytes) : List Bytes :=
  ((split text 10).map stripCr).filter fun line => line ≠ [] ∧ 5 ≤ line.count 58

/-- A field of a line. -/
def fieldOf (line : Bytes) (i : ℕ) : Bytes := (split line 58).getD i []

/-- The first two fields are the number of a record and an offset. -/
structure IsRecordLine (line : Bytes) : Prop where
  number : IsNumeral (fieldOf line 0)
  one_le : 1 ≤ value (fieldOf line 0)
  number_le : value (fieldOf line 0) ≤ 2 ^ 32 - 1
  offset : IsNumeral (fieldOf line 1)
  offset_lt : value (fieldOf line 1) < 2 ^ 64

/-- The entry of an inventory line, before its length is known. -/
def lineEntry (line : Bytes) : GribIndexEntry where
  param := fieldOf line 3
  level := fieldOf line 4
  step := fieldOf line 5
  raw := line
  offset := UInt64.ofNat (value (fieldOf line 1))
  record := UInt32.ofNat (value (fieldOf line 0))
  member := parseNomadsMember (((split line 58).drop 6).flatMap (· ++ [58]))

section Line

variable {line : Bytes} {o : Option GribIndexEntry}

/-- Five colons make six fields. -/
lemma exists_split_eq (h : 5 ≤ line.count 58) :
    ∃ f0 f1 f2 f3 f4 f5 trailing,
      split line 58 = f0 :: f1 :: f2 :: f3 :: f4 :: f5 :: trailing := by
  have hlen := length_splitOn (58 : UInt8) line
  rw [← split_eq] at hlen
  generalize split line 58 = fs at hlen ⊢
  rcases fs with _ | ⟨f0, _ | ⟨f1, _ | ⟨f2, _ | ⟨f3, _ | ⟨f4, _ | ⟨f5, trailing⟩⟩⟩⟩⟩⟩
  case cons.cons.cons.cons.cons.cons => exact ⟨f0, f1, f2, f3, f4, f5, trailing, rfl⟩
  all_goals simp only [List.length_nil, List.length_cons] at hlen; omega

lemma toU64_of_isNumeral {s : Bytes} (h : IsNumeral s) (hlt : value s < 2 ^ 64) :
    toU64 s = some (UInt64.ofNat (value s)) :=
  toU64_eq_some_iff.mpr ⟨h, (UInt64.toNat_ofNat_of_lt' hlt).symm⟩

/-- **What becomes of an inventory line.** -/
theorem nomadsLine_eq_ok_iff (h : 5 ≤ line.count 58) :
    nomadsLine line = .ok o ↔ IsRecordLine line ∧ o = some (lineEntry line) := by
  have hne : line ≠ [] := by
    rintro rfl
    simp at h
  obtain ⟨f0, f1, f2, f3, f4, f5, trailing, hsplit⟩ := exists_split_eq h
  have h0 : fieldOf line 0 = f0 := by rw [fieldOf, hsplit]; rfl
  have h1 : fieldOf line 1 = f1 := by rw [fieldOf, hsplit]; rfl
  have hentry : ∀ rec offset : UInt64, toU64 f0 = some rec → toU64 f1 = some offset →
      lineEntry line =
        { raw := line
          record := rec.toUInt32
          offset := offset
          param := f3
          level := f4
          step := f5
          member := parseNomadsMember (trailing.flatMap (· ++ [58])) } := by
    intro rec offset hrec hoffset
    have hrec' := (toU64_eq_some_iff.mp hrec).2
    have hoffset' := (toU64_eq_some_iff.mp hoffset).2
    rw [lineEntry, h0, h1, hrec', hoffset', UInt64.ofNat_toNat, fieldOf, fieldOf, fieldOf, hsplit]
    rfl
  constructor
  · intro hok
    cases o with
    | none =>
      -- no inventory line is skipped
      rw [nomadsLine, if_neg hne, hsplit] at hok
      simp only at hok
      cases hrecord : nomadsRecord line f0 f1 f3 f4 f5 trailing <;>
        simp [hrecord, Except.map] at hok
    | some e =>
      obtain ⟨g0, g1, g2, g3, g4, g5, rest, rec, offset, hsplit', hrec, hpos, hlt, hoffset, rfl⟩ :=
        nomadsLine_eq_some hok
      rw [hsplit] at hsplit'
      simp only [List.cons.injEq] at hsplit'
      obtain ⟨rfl, rfl, rfl, rfl, rfl, rfl, rfl⟩ := hsplit'
      obtain ⟨hnum, hvalue⟩ := toU64_eq_some_iff.mp hrec
      obtain ⟨hnum', hvalue'⟩ := toU64_eq_some_iff.mp hoffset
      have hpos' : rec.toNat ≠ 0 := fun hzero => hpos (UInt64.toNat_inj.mp hzero)
      refine ⟨⟨?_, ?_, ?_, ?_, ?_⟩, by rw [hentry rec offset hrec hoffset]⟩
      · rwa [h0]
      · rw [h0, hvalue]
        omega
      · rw [h0, hvalue]
        omega
      · rwa [h1]
      · rw [h1, hvalue']
        exact offset.toNat_lt
  · rintro ⟨⟨hnum, hone, hle, hnum', hlt⟩, rfl⟩
    rw [h0] at hnum hone hle
    rw [h1] at hnum' hlt
    have hrec := toU64_of_isNumeral hnum (by omega)
    have hoffset := toU64_of_isNumeral hnum' hlt
    have hnat : (UInt64.ofNat (value f0)).toNat = value f0 :=
      UInt64.toNat_ofNat_of_lt' (hle.trans_lt (by norm_num))
    have hrange : ¬ (UInt64.ofNat (value f0) = 0 ∨
        2 ^ 32 - 1 < (UInt64.ofNat (value f0)).toNat) := by
      rw [hnat]
      rintro (hzero | hlarge)
      · rw [hzero] at hnat
        rw [← hnat] at hone
        exact absurd hone (by decide)
      · omega
    rw [nomadsLine, if_neg hne, hsplit]
    simp only [nomadsRecord, hrec, if_neg hrange, hoffset, Except.map]
    rw [hentry _ _ hrec hoffset]

end Line

/-! ## The loop over the lines -/

/-- The entries of a text, before their lengths are known, are those of its inventory lines. -/
lemma collect_nomadsLine_eq_ok_iff {lines : List Bytes} {es : List GribIndexEntry} :
    collect nomadsLine lines = .ok es ↔
      (∀ line ∈ (lines.map stripCr).filter fun line => line ≠ [] ∧ 5 ≤ line.count 58,
        IsRecordLine line) ∧
      es = ((lines.map stripCr).filter fun line => line ≠ [] ∧ 5 ≤ line.count 58).map
        lineEntry := by
  induction lines generalizing es with
  | nil => simp [eq_comm]
  | cons line lines ih =>
    rw [collect_cons_eq_ok_iff, List.map_cons]
    by_cases hline : 5 ≤ (stripCr line).count 58
    · have hne : stripCr line ≠ [] := by
        intro hnil
        simp [hnil] at hline
      rw [List.filter_cons_of_pos (by simp [hne, hline]), List.forall_mem_cons, List.map_cons]
      simp only [nomadsLine_eq_ok_iff hline, ih]
      constructor
      · rintro ⟨_, _, ⟨hrecord, rfl⟩, ⟨hrest, rfl⟩, rfl⟩
        exact ⟨⟨hrecord, hrest⟩, rfl⟩
      · rintro ⟨⟨hrecord, hrest⟩, rfl⟩
        exact ⟨_, _, ⟨hrecord, rfl⟩, ⟨hrest, rfl⟩, rfl⟩
    · -- a line with fewer colons is skipped
      rw [List.filter_cons_of_neg (by simp [hline]), ← ih]
      simp [Line.nomadsLine_other (not_le.mp hline)]

/-- The lengths of entries: each one reaches to the next, and the last is open. -/
def withLengths : List GribIndexEntry → List GribIndexEntry
  | e :: next :: es => { e with length := next.offset - e.offset } :: withLengths (next :: es)
  | es => es

lemma setLengths_eq_ok_iff {es es' : List GribIndexEntry} :
    setLengths es = .ok es' ↔
      (es.map (·.offset)).IsChain (· < ·) ∧ es' = withLengths es := by
  induction es generalizing es' with
  | nil => simp [setLengths, withLengths, eq_comm]
  | cons e es ih =>
    cases es with
    | nil => simp [setLengths, withLengths, eq_comm]
    | cons next es =>
      rw [setLengths_cons_cons_eq_ok_iff, List.map_cons, List.map_cons, List.isChain_cons_cons]
      simp only [ih, withLengths, List.map_cons]
      constructor
      · rintro ⟨hlt, _, ⟨hchain, rfl⟩, rfl⟩
        exact ⟨⟨hlt, hchain⟩, rfl⟩
      · rintro ⟨⟨hlt, hchain⟩, rfl⟩
        exact ⟨hlt, _, ⟨hchain, rfl⟩, rfl⟩

/-- **What the reader makes of a text.** -/
theorem parseNomadsIdx_eq_ok_iff {text : Bytes} {es : List GribIndexEntry} :
    parseNomadsIdx text = .ok es ↔
      (∀ line ∈ inventoryLines text, IsRecordLine line) ∧
      (((inventoryLines text).map lineEntry).map (·.offset)).IsChain (· < ·) ∧
      es = withLengths ((inventoryLines text).map lineEntry) := by
  rw [parseNomadsIdx_eq_ok]
  constructor
  · rintro ⟨entries, hcollect, hset⟩
    obtain ⟨hrecords, rfl⟩ := collect_nomadsLine_eq_ok_iff.mp hcollect
    exact ⟨hrecords, setLengths_eq_ok_iff.mp hset⟩
  · rintro ⟨hrecords, hset⟩
    exact ⟨_, collect_nomadsLine_eq_ok_iff.mpr ⟨hrecords, rfl⟩, setLengths_eq_ok_iff.mpr hset⟩

/-! ## The main result -/

/-- The offsets of entries increase as those of their lines do. -/
lemma isChain_offsets_iff {lines : List Bytes} (h : ∀ line ∈ lines, IsRecordLine line) :
    ((lines.map lineEntry).map (·.offset)).IsChain (· < ·) ↔
      (lines.map fun line => value (fieldOf line 1)).IsChain (· < ·) := by
  have hvalues : ((lines.map lineEntry).map (·.offset)).map UInt64.toNat
      = lines.map fun line => value (fieldOf line 1) := by
    rw [List.map_map, List.map_map]
    refine List.map_congr_left fun line hline => ?_
    exact UInt64.toNat_ofNat_of_lt' (h line hline).offset_lt
  rw [← hvalues, List.isChain_map (f := UInt64.toNat)]
  simp only [UInt64.lt_iff_toNat_lt]

/-- **Exact acceptance.**  A text is accepted if and only if every inventory line has a record
number and an offset for its first two fields, and the offsets increase from one inventory line to
the next.  Then there is one entry for each inventory line, in order, and otherwise an error in
the place of entries. -/
theorem nomads_accepts_iff (text : Bytes) :
    ((∃ es, parseNomadsIdx text = .ok es) ↔
      (∀ line ∈ inventoryLines text, IsRecordLine line) ∧
        ((inventoryLines text).map fun line => value (fieldOf line 1)).IsChain (· < ·)) ∧
    (∀ es, parseNomadsIdx text = .ok es →
      List.Forall₂ (fun line e => e.raw = line ∧ e.record.toNat = value (fieldOf line 0) ∧
        e.offset.toNat = value (fieldOf line 1)) (inventoryLines text) es) ∧
    ∀ e, parseNomadsIdx text = .error e → ∀ es, parseNomadsIdx text ≠ .ok es := by
  refine ⟨?_, ?_, ?_⟩
  · simp only [parseNomadsIdx_eq_ok_iff]
    constructor
    · rintro ⟨_, hrecords, hchain, -⟩
      exact ⟨hrecords, (isChain_offsets_iff hrecords).mp hchain⟩
    · rintro ⟨hrecords, hchain⟩
      exact ⟨_, hrecords, (isChain_offsets_iff hrecords).mpr hchain, rfl⟩
  · intro es hes
    obtain ⟨hrecords, hset⟩ := parseNomadsIdx_eq_ok_iff.mp hes
    have hlengths := setLengths_forall₂ (setLengths_eq_ok_iff.mpr hset)
    rw [List.forall₂_map_left_iff] at hlengths
    refine ((List.forall₂_and_left _ _).mpr ⟨hrecords, hlengths⟩).imp ?_
    rintro line e ⟨hrecord, heq⟩
    rw [heq]
    have hnumber := hrecord.number_le
    exact ⟨rfl, UInt32.toNat_ofNat_of_lt' (by change _ < 2 ^ 32; omega),
      UInt64.toNat_ofNat_of_lt' hrecord.offset_lt⟩
  · intro e he es hes
    rw [he] at hes
    exact absurd hes (by simp)

end GribCpp.Sidecar
