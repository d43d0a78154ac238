/-
# Inventories that are cut off

What stands in front of a cut has the lines of the whole text up to the cut, and then a line that
the cut may have shortened.  That one is dropped, when it has lost a colon that makes it an
inventory line, or kept with the fields in front of its fifth colon.  So a cut never changes an
offset, and the only length that it changes is the last one, which is open.
-/
import GribCpp.Models.Acceptance

namespace GribCpp.Sidecar

open Decimal Search

/-! ## Lines that are cut off -/

section Cut

variable {p q : Bytes}

/-- A cut line without its carriage return stands in front of the whole one without its own. -/
lemma stripCr_of_front (h : p <+: q) : stripCr p <+: stripCr q := by
  have hle : stripCr p <+: p := by
    rw [stripCr]
    split
    · exact List.dropLast_prefix p
    · exact List.prefix_rfl
  obtain ⟨r, rfl⟩ := h
  by_cases hr : r = []
  · rw [hr, List.append_nil]
  · have hdrop : p <+: (p ++ r).dropLast := by
      rw [List.dropLast_append_of_ne_nil hr]
      exact List.prefix_append _ _
    rw [stripCr.eq_def (p ++ r)]
    split
    · exact hle.trans hdrop
    · exact hle.trans (List.prefix_append _ _)

/-- The fields in front of the fifth colon survive a cut behind it. -/
lemma fieldOf_of_front (h : p <+: q) (hp : 5 ≤ p.count 58) {i : ℕ} (hi : i < 5) :
    fieldOf p i = fieldOf q i := by
  obtain ⟨fs, f, g, gs, hsp, hsq, -⟩ := splitOn_cut (58 : UInt8) h
  have hlen := length_splitOn (58 : UInt8) p
  rw [hsp, List.length_append, List.length_singleton] at hlen
  have hfs : i < fs.length := by omega
  rw [fieldOf, fieldOf, split_eq, split_eq, hsp, hsq, List.getD_append _ _ _ _ hfs,
    List.getD_append _ _ _ _ hfs]

end Cut

/-- The two lines have the same fields in front of the fifth colon. -/
def SameFront (a b : Bytes) : Prop := ∀ i < 5, fieldOf a i = fieldOf b i

lemma SameFront.isRecordLine {a b : Bytes} (h : SameFront a b) (hb : IsRecordLine b) :
    IsRecordLine a := by
  obtain ⟨hnumber, hone, hle, hoffset, hlt⟩ := hb
  rw [← h 0 (by decide)] at hnumber hone hle
  rw [← h 1 (by decide)] at hoffset hlt
  exact ⟨hnumber, hone, hle, hoffset, hlt⟩

/-- **The inventory lines in front of a cut**: there are none, or they are those of the whole text
up to one, of which at least the fields in front of the fifth colon are left. -/
lemma inventoryLines_cut {P T : Bytes} (h : P <+: T) :
    inventoryLines P = [] ∨ ∃ lines a b rest, inventoryLines P = lines ++ [a] ∧
      inventoryLines T = lines ++ b :: rest ∧ SameFront a b := by
  obtain ⟨ps, p, q, qs, hsP, hsT, hpq⟩ := splitOn_cut (10 : UInt8) h
  rw [inventoryLines, inventoryLines, split_eq, split_eq, hsP, hsT, List.map_append,
    List.map_append, List.filter_append, List.filter_append, List.map_singleton, List.map_cons]
  generalize (ps.map stripCr).filter (fun line => line ≠ [] ∧ 5 ≤ line.count 58) = lines
  have hfront := stripCr_of_front hpq
  by_cases hline : 5 ≤ (stripCr p).count 58
  · -- the line of the cut is kept
    have hcount := hfront.sublist.count_le 58
    have hkeep : ∀ line : Bytes, 5 ≤ line.count 58 → line ≠ [] := by
      rintro line hle rfl
      simp at hle
    have hq : 5 ≤ (stripCr q).count 58 := hline.trans hcount
    rw [List.filter_cons_of_pos (by simp [hline, hkeep _ hline]), List.filter_nil,
      List.filter_cons_of_pos (by simp [hq, hkeep _ hq])]
    exact Or.inr ⟨lines, _, _, _, rfl, rfl, fun i hi => fieldOf_of_front hfront hline hi⟩
  · -- and here it is dropped, so that the line before it is the last one
    rw [List.filter_cons_of_neg (by simp [hline]), List.filter_nil, List.append_nil]
    rcases List.eq_nil_or_concat lines with rfl | ⟨lines, b, rfl⟩
    · exact Or.inl rfl
    · rw [List.concat_eq_append]
      exact Or.inr ⟨lines, b, b, _, rfl, (List.append_cons _ _ _).symm, fun _ _ => rfl⟩

/-! ## Entries that are cut off -/

/-- The lengths up to an entry depend on its offset, and on nothing behind it. -/
lemma withLengths_append (es rest : List GribIndexEntry) {a b : GribIndexEntry}
    (h : a.offset = b.offset) :
    ∃ front b' rest', withLengths (es ++ [a]) = front ++ [a] ∧
      withLengths (es ++ b :: rest) = front ++ b' :: rest' ∧ front.length = es.length ∧
      b' = { b with length := b'.length } := by
  induction es with
  | nil =>
    cases rest with
    | nil => exact ⟨[], b, [], rfl, rfl, rfl, rfl⟩
    | cons next rest => exact ⟨[], _, _, rfl, rfl, rfl, rfl⟩
  | cons e es ih =>
    obtain ⟨front, b', rest', ha, hb, hlen, hb'⟩ := ih
    cases es with
    | nil =>
      refine ⟨{ e with length := a.offset - e.offset } :: front, b', rest', ?_, ?_, by simp [hlen],
        hb'⟩
      · exact congrArg _ ha
      · rw [h]
        exact congrArg _ hb
    | cons next es =>
      refine ⟨{ e with length := next.offset - e.offset } :: front, b', rest', ?_, ?_,
        by simp [hlen], hb'⟩
      · exact congrArg _ ha
      · exact congrArg _ hb

/-! ## The main result -/

/-- **A cut never yields a wrong locator.**  What stands in front of a cut of an accepted text is
accepted.  All of its entries but the last are entries of the whole text, and the last one has
the record, the offset, the parameter and the level of an entry of the text, and is open. -/
theorem nomads_truncated (T P : Bytes) (hcut : P <+: T) (es : List GribIndexEntry)
    (hT : parseNomadsIdx T = .ok es) :
    ∃ es', parseNomadsIdx P = .ok es' ∧ es'.length ≤ es.length ∧
      (∀ i, i + 1 < es'.length → es'[i]? = es[i]?) ∧
      ∀ e', es'.getLast? = some e' → ∃ e, es[es'.length - 1]? = some e ∧
        e'.record = e.record ∧ e'.offset = e.offset ∧ e'.param = e.param ∧ e'.level = e.level ∧
        e'.length = 0 := by
  obtain ⟨hrecords, hchain, rfl⟩ := parseNomadsIdx_eq_ok_iff.mp hT
  simp only [parseNomadsIdx_eq_ok_iff]
  rcases inventoryLines_cut hcut with hnil | ⟨lines, a, b, rest, hP, hT', hfront⟩
  · -- no inventory line is left
    refine ⟨_, ⟨by simp [hnil], by simp [hnil], rfl⟩, ?_⟩
    simp [hnil, withLengths]
  · rw [hT'] at hrecords hchain ⊢
    rw [hP]
    have hoffset : (lineEntry a).offset = (lineEntry b).offset := by
      rw [lineEntry, lineEntry, hfront 1 (by decide)]
    obtain ⟨front, b', rest', hwa, hwb, hlen, hb'⟩ :=
      withLengths_append (lines.map lineEntry) (rest.map lineEntry) hoffset
    have hmapP : (lines ++ [a]).map lineEntry = lines.map lineEntry ++ [lineEntry a] := by simp
    have hmapT : (lines ++ b :: rest).map lineEntry
        = lines.map lineEntry ++ lineEntry b :: rest.map lineEntry := by simp
    rw [hmapT] at hchain
    rw [hmapP, hmapT, hwa, hwb]
    rw [List.map_append, List.map_cons, List.append_cons] at hchain
    refine ⟨_, ⟨?_, ?_, rfl⟩, ?_, ?_, ?_⟩
    · intro line hline
      rcases List.mem_append.mp hline with hline | hline
      · exact hrecords line (by simp [hline])
      · rw [List.mem_singleton.mp hline]
        exact hfront.isRecordLine (hrecords b (by simp))
    · rw [List.map_append, List.map_singleton, hoffset]
      exact hchain.left_of_append
    · simp
    · intro i hi
      have hi' : i < front.length := by simpa using hi
      rw [List.getElem?_append_left hi', List.getElem?_append_left hi']
    · intro e' he'
      have ha : lineEntry a = e' := by simpa using he'
      refine ⟨b', by simp, ?_⟩
      rw [← ha, hb']
      exact ⟨by simp [lineEntry, hfront 0], hoffset, hfront 3 (by decide), hfront 4 (by decide),
        rfl⟩

/-- Two records. -/
def twoRecords : Bytes := ascii "1:0:d=2026:TMP:sfc:anl:\n2:50:d=2026:RH:sfc:anl:\n"

lemma inventoryLines_twoRecords : inventoryLines twoRecords
    = [ascii "1:0:d=2026:TMP:sfc:anl:", ascii "2:50:d=2026:RH:sfc:anl:"] := by
  rw [inventoryLines, split_eq]
  rfl

lemma isRecordLine_twoRecords : ∀ line ∈ inventoryLines twoRecords, IsRecordLine line := by
  intro line hline
  simp only [inventoryLines_twoRecords, List.mem_cons, List.not_mem_nil, or_false] at hline
  rcases hline with rfl | rfl <;>
    constructor <;> rw [fieldOf, split_eq] <;> decide +kernel

/-- The lines of the two records. -/
lemma lineEntry_twoRecords :
    ((lineEntry (ascii "1:0:d=2026:TMP:sfc:anl:")).record = 1 ∧
      (lineEntry (ascii "1:0:d=2026:TMP:sfc:anl:")).offset = 0 ∧
      (lineEntry (ascii "1:0:d=2026:TMP:sfc:anl:")).param = ascii "TMP") ∧
    (lineEntry (ascii "2:50:d=2026:RH:sfc:anl:")).record = 2 ∧
      (lineEntry (ascii "2:50:d=2026:RH:sfc:anl:")).offset = 50 ∧
      (lineEntry (ascii "2:50:d=2026:RH:sfc:anl:")).param = ascii "RH" ∧
      (lineEntry (ascii "2:50:d=2026:RH:sfc:anl:")).level = ascii "sfc" := by
  simp only [lineEntry, fieldOf, split_eq]
  decide +kernel

/-- The second record is cut off behind the colon of its level, and in front of it. -/
theorem nomads_truncated_two :
    (∃ first last, parseNomadsIdx (twoRecords.take 43) = .ok [first, last] ∧
      first.record = 1 ∧ first.offset = 0 ∧ first.length = 50 ∧
      last.record = 2 ∧ last.offset = 50 ∧ last.param = ascii "RH" ∧ last.level = ascii "sfc" ∧
      last.length = 0) ∧
    ∃ first, parseNomadsIdx (twoRecords.take 42) = .ok [first] ∧
      first.record = 1 ∧ first.offset = 0 ∧ first.param = ascii "TMP" ∧ first.length = 0 := by
  have hwhole := parseNomadsIdx_eq_ok_iff.mpr ⟨isRecordLine_twoRecords, by
    rw [isChain_offsets_iff isRecordLine_twoRecords, inventoryLines_twoRecords]
    simp only [List.map_cons, List.map_nil, fieldOf, split_eq]
    decide, rfl⟩
  rw [inventoryLines_twoRecords] at hwhole
  have hone : inventoryLines (twoRecords.take 43)
      = [ascii "1:0:d=2026:TMP:sfc:anl:", ascii "2:50:d=2026:RH:sfc:"] := by
    rw [inventoryLines, split_eq]
    rfl
  have htwo : inventoryLines (twoRecords.take 42) = [ascii "1:0:d=2026:TMP:sfc:anl:"] := by
    rw [inventoryLines, split_eq]
    rfl
  obtain ⟨hfst, hsnd⟩ := lineEntry_twoRecords
  constructor
  · obtain ⟨es', hes', -, hfront, hlast⟩ :=
      nomads_truncated twoRecords (twoRecords.take 43) (List.take_prefix _ _) _ hwhole
    have hentries := (parseNomadsIdx_eq_ok_iff.mp hes').2.2
    rw [hone] at hentries
    subst hentries
    obtain ⟨e, he, hrecord, hoffset, hparam, hlevel, hlength⟩ := hlast _ rfl
    obtain rfl := Option.some.inj he
    have hfirst := Option.some.inj (hfront 0 (by decide))
    refine ⟨_, _, hes', (congrArg (·.record) hfirst).trans hfst.1,
      (congrArg (·.offset) hfirst).trans hfst.2.1, (congrArg (·.length) hfirst).trans ?_,
      hrecord.trans hsnd.1, hoffset.trans hsnd.2.1, hparam.trans hsnd.2.2.1,
      hlevel.trans hsnd.2.2.2, hlength⟩
    change _ - _ = _
    rw [hfst.2.1, hsnd.2.1]
    rfl
  · obtain ⟨es', hes', -, -, hlast⟩ :=
      nomads_truncated twoRecords (twoRecords.take 42) (List.take_prefix _ _) _ hwhole
    have hentries := (parseNomadsIdx_eq_ok_iff.mp hes').2.2
    rw [htwo] at hentries
    subst hentries
    obtain ⟨e, he, hrecord, hoffset, hparam, -, hlength⟩ := hlast _ rfl
    obtain rfl := Option.some.inj he
    exact ⟨_, hes', hrecord.trans hfst.1, hoffset.trans hfst.2.1, hparam.trans hfst.2.2, hlength⟩

end GribCpp.Sidecar
