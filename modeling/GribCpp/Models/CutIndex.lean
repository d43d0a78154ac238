/-
# Indexes that are cut off

A line of an ECMWF index is a JSON object, and of an object that is cut off nothing can be read.
So an index that is cut off in the middle of a line is refused, with an error that names what is
left of the line; and when the cut spares the object, the index is accepted with the entries in
front of the cut, which have the locators of the whole index.
-/
import GribCpp.Models.Linewise
import GribCpp.Models.Truncation

namespace GribCpp.Sidecar

open Search

/-- What Glaze reads is self-delimiting: of an object that is cut off nothing can be read, unless
only white space behind it is missing. -/
def SelfDelimiting (read : Bytes → Option Generic) : Prop :=
  ∀ line obj front, read line = some (.object obj) → front <+: line → front ≠ [] →
    read front = none ∨ read front = some (.object obj)

/-- The error of a line that is no JSON. -/
def invalidJson (line : Bytes) : Error :=
  .parse (ascii "ecmwf .index: invalid JSON line: " ++ line)

variable {read : Bytes → Option Generic} {toChars : Double → Bytes}

/-! ## The line of the cut -/

/-- **The lines in front of a cut**: those of the whole text up to one, and what is left of it. -/
lemma indexLines_cut {P T : Bytes} (h : P <+: T) :
    ∃ lines front, (∃ rest, indexLines T = lines ++ rest ∧
        (front ≠ [] → ∃ line rest', rest = line :: rest' ∧ front <+: line)) ∧
      indexLines P = lines ++ if front = [] then [] else [front] := by
  obtain ⟨ps, p, q, qs, hsP, hsT, hpq⟩ := splitOn_cut (10 : UInt8) h
  have hfront := stripCr_of_front hpq
  refine ⟨(ps.map stripCr).filter (· ≠ []), stripCr p,
    ⟨((q :: qs).map stripCr).filter (· ≠ []), ?_, fun hp => ?_⟩, ?_⟩
  · rw [indexLines, split_eq, hsT, List.map_append, List.filter_append]
  · have hq : stripCr q ≠ [] := by
      intro hnil
      rw [hnil] at hfront
      exact hp (List.prefix_nil.mp hfront)
    rw [List.map_cons, List.filter_cons_of_pos (by simpa using hq)]
    exact ⟨_, _, rfl, hfront⟩
  · rw [indexLines, split_eq, hsP, List.map_append, List.filter_append, List.map_singleton]
    by_cases hp : stripCr p = []
    · rw [if_pos hp, List.filter_cons_of_neg (by simpa using hp), List.filter_nil]
    · rw [if_neg hp, List.filter_cons_of_pos (by simpa using hp), List.filter_nil]

/-- The entry of a line depends on the object that is read from it, but for the text of the
line. -/
lemma ecmwfLine_congr {line line' : Bytes} {e : GribIndexEntry} (hline : line ≠ [])
    (hline' : line' ≠ []) (hread : read line' = read line)
    (h : ecmwfLine read toChars line = .ok (some e)) :
    ecmwfLine read toChars line' = .ok (some { e with raw := line' }) := by
  obtain ⟨obj, offset, length, hobj, hlocates, he⟩ := (ecmwfLine_eq_ok_iff hline).mp h
  obtain rfl := Option.some.inj he
  have hlocator : ∀ key, locator read line' key = locator read line key := by
    intro key
    rw [locator, locator, hread]
  refine (ecmwfLine_eq_ok_iff hline').mpr
    ⟨obj, offset, length, hread.trans hobj, ⟨?_, ?_, hlocates.fits⟩, rfl⟩
  · rw [hlocator]
    exact hlocates.offset_eq
  · rw [hlocator]
    exact hlocates.length_eq

lemma ecmwfLine_invalidJson {line : Bytes} (hline : line ≠ []) (hread : read line = none) :
    ecmwfLine read toChars line = .error (invalidJson line) := by
  rw [ecmwfLine, if_neg hline, hread]
  rfl

/-- The first line that is refused decides. -/
lemma foldr_addLine_error {lines rest : List Bytes} {line : Bytes} {es : List GribIndexEntry}
    {e : Error}
    (h : List.Forall₂ (fun line e => ecmwfLine read toChars line = .ok (some e)) lines es)
    (hline : ecmwfLine read toChars line = .error e) :
    (lines ++ line :: rest).foldr (addLine (ecmwfLine read toChars)) (.ok []) = .error e := by
  induction h with
  | nil =>
    rw [List.nil_append, List.foldr_cons, addLine, hline]
    rfl
  | cons hhead _ ih =>
    rw [List.cons_append, List.foldr_cons, ih, addLine, hhead]
    rfl

/-- The entries of an accepted text are those of its lines. -/
lemma map_raw_of_accepted {text : Bytes} {es : List GribIndexEntry}
    (h : parseEcmwfIndex read toChars text = .ok es) : es.map (·.raw) = indexLines text := by
  have hraw := (parseEcmwfIndex_eq_ok_iff.mp h).imp fun _ _ h => raw_of_ecmwfLine h
  rw [← List.forall₂_eq_eq_eq, List.forall₂_map_left_iff]
  exact hraw.flip

/-! ## The main result -/

/-- **A cut never yields a wrong locator.**  What stands in front of a cut of an accepted index is
refused for its last line, of which the cut has left no JSON, or accepted with an entry for every
line in front of the cut.  All of these but the last are then entries of the whole index, and so is
the last one, but for the end of the text of its line. -/
theorem ecmwf_truncated (hread : SelfDelimiting read) (toChars : Double → Bytes) (T P : Bytes)
    (hcut : P <+: T) (es : List GribIndexEntry) (hT : parseEcmwfIndex read toChars T = .ok es) :
    (∃ line, (indexLines P).getLast? = some line ∧ read line = none ∧
        parseEcmwfIndex read toChars P = .error (invalidJson line)) ∨
      ∃ es', parseEcmwfIndex read toChars P = .ok es' ∧ es'.map (·.raw) = indexLines P ∧
        es'.length ≤ es.length ∧ (∀ i, i + 1 < es'.length → es'[i]? = es[i]?) ∧
        ∀ e', es'.getLast? = some e' → ∃ e, es[es'.length - 1]? = some e ∧
          e'.raw <+: e.raw ∧ e' = { e with raw := e'.raw } := by
  obtain ⟨lines, front, ⟨rest, hlinesT, hrest⟩, hlinesP⟩ := indexLines_cut hcut
  have hall := parseEcmwfIndex_eq_ok_iff.mp hT
  rw [hlinesT] at hall
  -- the entries in front of the line of the cut
  have hes : es = es.take lines.length ++ es.drop lines.length := (List.take_append_drop _ _).symm
  have hfronts : List.Forall₂ (fun line e => ecmwfLine read toChars line = .ok (some e)) lines
      (es.take lines.length) := by
    have h := List.forall₂_take lines.length hall
    rwa [List.take_left] at h
  have hrests : List.Forall₂ (fun line e => ecmwfLine read toChars line = .ok (some e)) rest
      (es.drop lines.length) := by
    have h := List.forall₂_drop lines.length hall
    rwa [List.drop_left] at h
  have hlen := hfronts.length_eq
  generalize es.take lines.length = es₁ at hes hfronts hlen
  generalize es.drop lines.length = es₂ at hes hrests
  subst hes
  by_cases hfront : front = []
  · -- nothing is left of the line
    rw [if_pos hfront, List.append_nil] at hlinesP
    have hP : parseEcmwfIndex read toChars P = .ok es₁ := by
      rwa [parseEcmwfIndex_eq_ok_iff, hlinesP]
    refine Or.inr ⟨es₁, hP, map_raw_of_accepted hP, by simp, fun i hi => ?_,
      fun e' he' => ⟨e', ?_, List.prefix_rfl, rfl⟩⟩
    · rw [List.getElem?_append_left (by omega)]
    · rw [List.getLast?_eq_getElem?] at he'
      have hlt := (List.getElem?_eq_some_iff.mp he').1
      rw [List.getElem?_append_left hlt, he']
  · rw [if_neg hfront] at hlinesP
    obtain ⟨line, rest', rfl, hprefix⟩ := hrest hfront
    cases hrests with
    | @cons _ e _ es₃ hline _ =>
      have hne : line ≠ [] := by
        rintro rfl
        exact hfront (List.prefix_nil.mp hprefix)
      obtain ⟨obj, offset, length, hobj, -, -⟩ := (ecmwfLine_eq_ok_iff hne).mp hline
      rcases hread line obj front hobj hprefix hfront with hnone | hsome
      · refine Or.inl ⟨front, by rw [hlinesP, List.getLast?_concat], hnone, ?_⟩
        rw [parseEcmwfIndex_eq_foldr, hlinesP]
        exact foldr_addLine_error hfronts (ecmwfLine_invalidJson hfront hnone)
      · have hraw := raw_of_ecmwfLine hline
        have hentry := ecmwfLine_congr hne hfront (hsome.trans hobj.symm) hline
        have hP : parseEcmwfIndex read toChars P = .ok (es₁ ++ [{ e with raw := front }]) := by
          rw [parseEcmwfIndex_eq_ok_iff, hlinesP]
          exact List.rel_append hfronts (List.Forall₂.cons hentry List.Forall₂.nil)
        refine Or.inr ⟨_, hP, map_raw_of_accepted hP, by simp, fun i hi => ?_,
          fun e' he' => ⟨e, ?_, ?_, ?_⟩⟩
        · rw [List.length_append, List.length_singleton] at hi
          rw [List.getElem?_append_left (by omega), List.getElem?_append_left (by omega)]
        · simp
        · obtain rfl : { e with raw := front } = e' := by simpa using he'
          rw [hraw]
          exact hprefix
        · obtain rfl : { e with raw := front } = e' := by simpa using he'
          rfl

/-- An object. -/
def firstObject : Bytes := ascii "\x7b\"_offset\":0,\"_length\":50\x7d"

/-- Another one. -/
def secondObject : Bytes := ascii "\x7b\"_offset\":50,\"_length\":7\x7d"

/-- A reader of the two. -/
def readTwoObjects (line : Bytes) : Option Generic :=
  if line = firstObject then
    some (.object [(ascii "_offset", .u64 0), (ascii "_length", .u64 50)])
  else if line = secondObject then
    some (.object [(ascii "_offset", .u64 50), (ascii "_length", .u64 7)])
  else none

lemma selfDelimiting_two : SelfDelimiting readTwoObjects := by
  have hapart : ¬ firstObject <+: secondObject ∧ ¬ secondObject <+: firstObject := by decide
  intro line obj front hline hprefix _
  by_cases hfront : front = line
  · exact Or.inr (hfront ▸ hline)
  · left
    have hcases : line = firstObject ∨ line = secondObject := by
      by_contra hnot
      rw [not_or] at hnot
      rw [readTwoObjects, if_neg hnot.1, if_neg hnot.2] at hline
      exact absurd hline (by simp)
    rcases hcases with rfl | rfl
    · rw [readTwoObjects, if_neg hfront, if_neg]
      rintro rfl
      exact hapart.2 hprefix
    · rw [readTwoObjects, if_neg, if_neg hfront]
      rintro rfl
      exact hapart.1 hprefix

/-- The second one is cut off in front of its length, or altogether. -/
theorem ecmwf_truncated_two :
    let T := firstObject ++ 10 :: secondObject
    parseEcmwfIndex readTwoObjects (fun _ => []) (T.take 43)
        = .error (invalidJson (secondObject.take 16)) ∧
      parseEcmwfIndex readTwoObjects (fun _ => []) (T.take 27)
        = .ok [{ raw := firstObject, offset := 0, length := 50 }] := by
  intro T
  have hlines : indexLines T = [firstObject, secondObject] := by
    rw [indexLines, split_eq]
    rfl
  have hT : parseEcmwfIndex readTwoObjects (fun _ => []) T
      = .ok [{ raw := firstObject, offset := 0, length := 50 },
          { raw := secondObject, offset := 50, length := 7 }] := by
    rw [parseEcmwfIndex_eq_ok_iff, hlines]
    exact List.Forall₂.cons rfl (List.Forall₂.cons rfl List.Forall₂.nil)
  constructor
  · have hcut : indexLines (T.take 43) = [firstObject, secondObject.take 16] := by
      rw [indexLines, split_eq]
      rfl
    rcases ecmwf_truncated selfDelimiting_two (fun _ => []) T (T.take 43) (List.take_prefix _ _) _
      hT with ⟨line, hline, -, herror⟩ | ⟨es', hes', -⟩
    · rw [hcut] at hline
      obtain rfl := Option.some.inj hline
      exact herror
    · -- nothing can be read of the second line
      have hall := parseEcmwfIndex_eq_ok_iff.mp hes'
      rw [hcut] at hall
      obtain - | ⟨-, hrest⟩ := hall
      obtain - | ⟨hsecond, -⟩ := hrest
      have hnone : readTwoObjects (secondObject.take 16) = none :=
        (if_neg (by decide)).trans (if_neg (by decide))
      rw [ecmwfLine_invalidJson (by decide) hnone] at hsecond
      cases hsecond
  · have hcut : indexLines (T.take 27) = [firstObject] := by
      rw [indexLines, split_eq]
      rfl
    rcases ecmwf_truncated selfDelimiting_two (fun _ => []) T (T.take 27) (List.take_prefix _ _) _
      hT with ⟨line, hline, hnone, -⟩ | ⟨es', hes', hraw, -, -, hlast⟩
    · rw [hcut] at hline
      obtain rfl := Option.some.inj hline
      exact absurd hnone (by simp [readTwoObjects])
    · rw [hcut] at hraw
      obtain ⟨e', rfl, hraw'⟩ := List.map_eq_singleton_iff.mp hraw
      obtain ⟨e, he, -, heq⟩ := hlast e' rfl
      obtain rfl := Option.some.inj he
      rw [hes', heq, hraw']

end GribCpp.Sidecar
