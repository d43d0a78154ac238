/-
# An ECMWF index is read line by line

What `parse_ecmwf_index` makes of a text depends on its non-empty lines only, each of them taken
alone.  So the entries of two texts joined by a newline are those of the first one followed by
those of the second one, the first error wins, and neither blank lines nor the kind of a line end
make a difference.
-/
import GribCpp.Models.EcmwfIndex
import GribCpp.Models.Inventory

namespace GribCpp.Sidecar

open Search

/-! ## The loop over the lines -/

section Collect

variable {entry : Bytes → Result (Option GribIndexEntry)}

/-- The lines of a first text come first. -/
lemma collect_append (xs ys : List Bytes) :
    collect entry (xs ++ ys) = do
      let a ← collect entry xs
      let b ← collect entry ys
      return a ++ b := by
  induction xs with
  | nil =>
    rw [List.nil_append]
    cases collect entry ys <;> rfl
  | cons x xs ih =>
    rw [List.cons_append, collect, collect, ih]
    cases entry (stripCr x) with
    | error e => rfl
    | ok e =>
      cases collect entry xs with
      | error e => rfl
      | ok a =>
        cases collect entry ys with
        | error e => rfl
        | ok b => exact congrArg Except.ok (List.append_assoc _ _ _).symm

/-- One round of the loop. -/
def addLine (entry : Bytes → Result (Option GribIndexEntry)) (line : Bytes)
    (rest : Result (List GribIndexEntry)) : Result (List GribIndexEntry) := do
  let e ← entry line
  let es ← rest
  return e.toList ++ es

/-- Lines that are empty without their carriage return make no difference. -/
lemma collect_eq_foldr (hnil : entry [] = .ok none) (lines : List Bytes) :
    collect entry lines
      = ((lines.map stripCr).filter (· ≠ [])).foldr (addLine entry) (.ok []) := by
  induction lines with
  | nil => rfl
  | cons line lines ih =>
    rw [collect, List.map_cons, ih]
    by_cases hline : stripCr line = []
    · rw [List.filter_cons_of_neg (by simpa using hline), hline, hnil]
      generalize ((lines.map stripCr).filter (· ≠ [])).foldr (addLine entry) (.ok []) = rest
      cases rest <;> rfl
    · rw [List.filter_cons_of_pos (by simpa using hline)]
      rfl

end Collect

/-! ## Texts with the same lines -/

/-- One text is another one with a blank line, or with a carriage return in front of a newline. -/
inductive Reformats : Bytes → Bytes → Prop
  | firstLine (B : Bytes) (eol : Eol) : Reformats B (eol.bytes ++ B)
  | innerLine (A B : Bytes) (eol : Eol) : Reformats (A ++ 10 :: B) (A ++ 10 :: (eol.bytes ++ B))
  | lastLine (A : Bytes) (eol : Eol) : Reformats A (A ++ 10 :: eol.cr)
  | lineEnd (A B : Bytes) (hcr : A.getLast? ≠ some 13) :
      Reformats (A ++ 10 :: B) (A ++ 13 :: 10 :: B)

lemma indexLines_append (A B : Bytes) :
    indexLines (A ++ 10 :: B) = indexLines A ++ indexLines B := by
  rw [indexLines, indexLines, indexLines, split_eq, split_eq, split_eq,
    List.splitOn_append_cons_self, List.map_append, List.filter_append]

/-- A line end without a line. -/
lemma indexLines_cr (eol : Eol) : indexLines eol.cr = [] := by
  rw [indexLines, split_eq]
  cases eol <;> rfl

/-- A carriage return at the end of a text whose last line has none. -/
lemma indexLines_append_cr {A : Bytes} (hcr : A.getLast? ≠ some 13) :
    indexLines (A ++ [13]) = indexLines A := by
  obtain ⟨ps, p, hsplit, hA⟩ := exists_splitOn_eq (10 : UInt8) A
  have hpieces : ∀ q ∈ ps ++ [p], (10 : UInt8) ∉ q := by
    rw [← hsplit]
    exact fun q hq => notMem_of_mem_splitOn hq
  have hlast : (10 : UInt8) ∉ p ++ [13] := by
    rw [List.mem_append, not_or]
    exact ⟨hpieces p (by simp), by decide⟩
  have hcut : (A ++ [13]).splitOn 10 = ps ++ [p ++ [13]] := by
    rw [hA, List.append_assoc, splitOn_flatMap_append 10 ps fun q hq => hpieces q (by simp [hq]),
      List.splitOn_eq_singleton hlast]
  have hp : p.getLast? ≠ some 13 := by
    intro h13
    refine hcr ?_
    rw [hA, List.getLast?_append, h13]
    rfl
  rw [indexLines, indexLines, split_eq, split_eq, hcut, hsplit, List.map_append, List.map_append,
    List.map_singleton, List.map_singleton, stripCr_append_cr, stripCr_of_getLast? hp]

/-- **Blank lines and the kind of a line end leave the lines as they are.** -/
theorem Reformats.indexLines_eq {t t' : Bytes} (h : Reformats t t') :
    indexLines t' = indexLines t := by
  cases h with
  | firstLine B eol =>
    rw [Eol.bytes, List.append_assoc, List.singleton_append, indexLines_append, indexLines_cr,
      List.nil_append]
  | innerLine A B eol =>
    rw [Eol.bytes, List.append_assoc, List.singleton_append, indexLines_append, indexLines_append,
      indexLines_append, indexLines_cr, List.nil_append]
  | lastLine A eol => rw [indexLines_append, indexLines_cr, List.append_nil]
  | lineEnd A B hcr =>
    rw [List.append_cons, indexLines_append, indexLines_append, indexLines_append_cr hcr]

/-! ## The main result -/

section Main

variable {read : Bytes → Option Generic} {toChars : Double → Bytes}

/-- The reader looks at the non-empty lines only. -/
lemma parseEcmwfIndex_eq_foldr (text : Bytes) :
    parseEcmwfIndex read toChars text
      = (indexLines text).foldr (addLine (ecmwfLine read toChars)) (.ok []) :=
  collect_eq_foldr (if_pos rfl) _

lemma parseEcmwfIndex_append (A B : Bytes) :
    parseEcmwfIndex read toChars (A ++ 10 :: B) = do
      let a ← parseEcmwfIndex read toChars A
      let b ← parseEcmwfIndex read toChars B
      return a ++ b := by
  rw [parseEcmwfIndex, split_eq, List.splitOn_append_cons_self, collect_append,
    parseEcmwfIndex, parseEcmwfIndex, split_eq, split_eq]

/-- An entry carries its line. -/
lemma raw_of_ecmwfLine {line : Bytes} {e : GribIndexEntry}
    (h : ecmwfLine read toChars line = .ok (some e)) : e.raw = line := by
  by_cases hline : line = []
  · rw [ecmwfLine, if_pos hline] at h
    exact absurd h (by simp)
  · obtain ⟨obj, offset, length, -, -, he⟩ := (ecmwfLine_eq_ok_iff hline).mp h
    rw [Option.some.inj he]
    rfl

/-- **An index is read line by line.**  Two texts joined by a newline are accepted if and only if
both are, with the entries of the one and then of the other, and otherwise the error is that of
the first one that has one; every non-empty line of an accepted text gives one entry, which
carries it; and blank lines and line ends of either kind may be exchanged at will. -/
theorem ecmwf_linewise (read : Bytes → Option Generic) (toChars : Double → Bytes) :
    (∀ A B es, parseEcmwfIndex read toChars (A ++ 10 :: B) = .ok es ↔
      ∃ a b, parseEcmwfIndex read toChars A = .ok a ∧ parseEcmwfIndex read toChars B = .ok b ∧
        es = a ++ b) ∧
    (∀ A B e, parseEcmwfIndex read toChars (A ++ 10 :: B) = .error e ↔
      parseEcmwfIndex read toChars A = .error e ∨
        (∃ a, parseEcmwfIndex read toChars A = .ok a) ∧
          parseEcmwfIndex read toChars B = .error e) ∧
    (∀ text es, parseEcmwfIndex read toChars text = .ok es →
      es.map (·.raw) = indexLines text) ∧
    ∀ t t', Relation.EqvGen Reformats t t' →
      parseEcmwfIndex read toChars t = parseEcmwfIndex read toChars t' := by
  refine ⟨?_, ?_, ?_, ?_⟩
  · intro A B es
    rw [parseEcmwfIndex_append]
    cases parseEcmwfIndex read toChars A <;> cases parseEcmwfIndex read toChars B <;>
      simp [bind, Except.bind, pure, Except.pure, eq_comm]
  · intro A B e
    rw [parseEcmwfIndex_append]
    cases parseEcmwfIndex read toChars A <;> cases parseEcmwfIndex read toChars B <;>
      simp [bind, Except.bind, pure, Except.pure]
  · intro text es hes
    have hraw := (parseEcmwfIndex_eq_ok_iff.mp hes).imp fun _ _ h => raw_of_ecmwfLine h
    generalize indexLines text = lines at hraw
    clear hes
    induction hraw with
    | nil => rfl
    | cons hhead _ ih => rw [List.map_cons, hhead, ih]
  · intro t t' h
    have hlines : indexLines t = indexLines t' := by
      induction h with
      | rel _ _ h => exact h.indexLines_eq.symm
      | refl => rfl
      | symm _ _ _ ih => exact ih.symm
      | trans _ _ _ _ _ ih₁ ih₂ => exact ih₁.trans ih₂
    rw [parseEcmwfIndex_eq_foldr, parseEcmwfIndex_eq_foldr, hlines]

end Main

end GribCpp.Sidecar
