/-
# Inventories that grow

While a model runs, its inventory gets longer.  What `parse_nomads_idx` makes of two texts joined
by a newline is determined by what it makes of the one and of the other: the entries of the first
text stay as they are, but for the last one, which is closed by the first entry of the second
text; and the errors of lines win against the error of offsets that do not increase, which is only
looked for when all lines have been read.
-/
import GribCpp.Models.Acceptance
import GribCpp.Models.Linewise

namespace GribCpp.Sidecar

open Search

/-! ## Results that are joined -/

/-- The error of offsets that do not increase. -/
def outOfOrder : Error := .parse (ascii "nomads .idx: offsets must increase")

/-- The last of some entries reaches to the next offset. -/
def closeLast (next : UInt64) : List GribIndexEntry → List GribIndexEntry
  | [] => []
  | [e] => [{ e with length := next - e.offset }]
  | e :: es => e :: closeLast next es

/-- Entries with others behind them. -/
def joinEntries (a b : List GribIndexEntry) : List GribIndexEntry :=
  match b with
  | [] => a
  | next :: _ => closeLast next.offset a ++ b

/-- The offsets of some entries are behind those of others. -/
def Follows (a b : List GribIndexEntry) : Prop :=
  ∀ x ∈ (a.map (·.offset)).getLast?, ∀ y ∈ (b.map (·.offset)).head?, x < y

instance (a b : List GribIndexEntry) : Decidable (Follows a b) := by
  unfold Follows
  infer_instance

/-- What comes of a text, from what comes of its two halves. -/
def joinResults : Result (List GribIndexEntry) → Result (List GribIndexEntry) →
    Result (List GribIndexEntry)
  | .ok a, .ok b => if Follows a b then .ok (joinEntries a b) else .error outOfOrder
  | .ok _, .error e => .error e
  | .error e, .ok _ => .error e
  | .error e, .error e' => if e = outOfOrder then .error e' else .error e

/-! ## The lengths -/

section Lengths

variable {a b : List GribIndexEntry}

lemma closeLast_cons (next : UInt64) (e : GribIndexEntry) (h : a ≠ []) :
    closeLast next (e :: a) = e :: closeLast next a := by
  cases a with
  | nil => exact absurd rfl h
  | cons x a => rfl

lemma offsets_withLengths (es : List GribIndexEntry) :
    (withLengths es).map (·.offset) = es.map (·.offset) := by
  induction es with
  | nil => rfl
  | cons e es ih =>
    cases es with
    | nil => rfl
    | cons next es => exact congrArg (e.offset :: ·) ih

lemma withLengths_ne_nil (h : a ≠ []) : withLengths a ≠ [] := by
  intro hnil
  have hoffsets := offsets_withLengths a
  rw [hnil] at hoffsets
  exact h (List.map_eq_nil_iff.mp hoffsets.symm)

/-- The length of an entry depends on the entry behind it only. -/
lemma withLengths_append_eq (a b : List GribIndexEntry) :
    withLengths (a ++ b) = joinEntries (withLengths a) (withLengths b) := by
  cases b with
  | nil =>
    rw [List.append_nil]
    rfl
  | cons next b =>
    have hhead : ∃ next' rest, withLengths (next :: b) = next' :: rest ∧
        next'.offset = next.offset := by
      cases b with
      | nil => exact ⟨next, [], rfl, rfl⟩
      | cons y b => exact ⟨_, _, rfl, rfl⟩
    obtain ⟨next', rest, heq, hoffset⟩ := hhead
    rw [heq, joinEntries]
    simp only [hoffset]
    induction a with
    | nil => exact heq
    | cons e a ih =>
      cases a with
      | nil =>
        rw [List.cons_append, List.nil_append, withLengths, heq]
        rfl
      | cons x a =>
        have hne : withLengths (x :: a) ≠ [] := withLengths_ne_nil (List.cons_ne_nil x a)
        rw [List.cons_append, List.cons_append, withLengths, ← List.cons_append, ih, withLengths,
          closeLast_cons _ _ hne, List.cons_append]

lemma setLengths_of_chain {es : List GribIndexEntry}
    (h : (es.map (·.offset)).IsChain (· < ·)) : setLengths es = .ok (withLengths es) :=
  setLengths_eq_ok_iff.mpr ⟨h, rfl⟩

/-- The last loop of the reader has one error. -/
lemma eq_outOfOrder {es : List GribIndexEntry} {e : Error} (h : setLengths es = .error e) :
    e = outOfOrder := by
  induction es with
  | nil => exact absurd h (by simp [setLengths])
  | cons x es ih =>
    cases es with
    | nil => exact absurd h (by simp [setLengths])
    | cons next es =>
      rw [setLengths] at h
      split at h
      · exact (Except.error.inj h).symm
      · cases hrest : setLengths (next :: es) with
        | error e' =>
          rw [hrest] at h
          obtain rfl : e' = e := Except.error.inj h
          exact ih hrest
        | ok rest =>
          rw [hrest] at h
          exact absurd h (by simp [bind, Except.bind, pure, Except.pure])

lemma setLengths_of_not_chain {es : List GribIndexEntry}
    (h : ¬ (es.map (·.offset)).IsChain (· < ·)) : setLengths es = .error outOfOrder := by
  cases hes : setLengths es with
  | error e => rw [eq_outOfOrder hes]
  | ok es' => exact absurd (setLengths_eq_ok_iff.mp hes).1 h

/-- The lengths of some entries and of others behind them. -/
lemma setLengths_append (a b : List GribIndexEntry) :
    setLengths (a ++ b) = joinResults (setLengths a) (setLengths b) := by
  have hchain : ((a ++ b).map (·.offset)).IsChain (· < ·) ↔
      (a.map (·.offset)).IsChain (· < ·) ∧ (b.map (·.offset)).IsChain (· < ·) ∧ Follows a b := by
    rw [List.map_append, List.isChain_append, Follows]
  have hfollows : Follows (withLengths a) (withLengths b) ↔ Follows a b := by
    rw [Follows, Follows, offsets_withLengths, offsets_withLengths]
  by_cases ha : (a.map (·.offset)).IsChain (· < ·)
  · by_cases hb : (b.map (·.offset)).IsChain (· < ·)
    · rw [setLengths_of_chain ha, setLengths_of_chain hb, joinResults]
      by_cases hab : Follows a b
      · rw [if_pos (hfollows.mpr hab), setLengths_of_chain (hchain.mpr ⟨ha, hb, hab⟩),
          withLengths_append_eq]
      · rw [if_neg (mt hfollows.mp hab), setLengths_of_not_chain fun h => hab (hchain.mp h).2.2]
    · rw [setLengths_of_chain ha, setLengths_of_not_chain hb,
        setLengths_of_not_chain fun h => hb (hchain.mp h).2.1]
      rfl
  · rw [setLengths_of_not_chain ha, setLengths_of_not_chain fun h => ha (hchain.mp h).1]
    by_cases hb : (b.map (·.offset)).IsChain (· < ·)
    · rw [setLengths_of_chain hb]
      rfl
    · rw [setLengths_of_not_chain hb, joinResults, if_pos rfl]

end Lengths

/-! ## The errors of lines -/

/-- The two errors of a line are no error of the order. -/
lemma ne_outOfOrder_of_nomadsLine {line : Bytes} {e : Error} (h : nomadsLine line = .error e) :
    e ≠ outOfOrder := by
  have hfront : ∀ text : Bytes, ¬ ascii "nomads .idx: o" <+: text →
      Error.parse text ≠ outOfOrder := by
    rintro text hno heq
    have hmessage : text = ascii "nomads .idx: offsets must increase" :=
      congrArg Error.message heq
    rw [hmessage] at hno
    exact hno (by decide)
  have hrecord : ∀ f0 f1 f3 f4 f5 trailing,
      nomadsRecord line f0 f1 f3 f4 f5 trailing = .error e → e ≠ outOfOrder := by
    intro f0 f1 f3 f4 f5 trailing hrecord
    rw [nomadsRecord] at hrecord
    split at hrecord
    · obtain rfl := Except.error.inj hrecord
      exact hfront _ (by decide)
    · split at hrecord
      · obtain rfl := Except.error.inj hrecord
        exact hfront _ (by decide)
      · split at hrecord
        · obtain rfl := Except.error.inj hrecord
          refine hfront _ fun hprefix => ?_
          have hshort := List.prefix_of_prefix_length_le hprefix (List.prefix_append _ line)
            (by decide)
          exact absurd hshort (by decide)
        · exact absurd hrecord (by simp)
  rw [nomadsLine] at h
  split at h
  · exact absurd h (by simp)
  · split at h
    · rename_i f0 f1 f2 f3 f4 f5 trailing hsplit
      cases hres : nomadsRecord line f0 f1 f3 f4 f5 trailing with
      | error e' =>
        rw [hres] at h
        obtain rfl : e' = e := Except.error.inj h
        exact hrecord _ _ _ _ _ _ hres
      | ok x =>
        rw [hres] at h
        exact absurd h (by simp [Except.map])
    · exact absurd h (by simp)

lemma ne_outOfOrder_of_collect {lines : List Bytes} {e : Error}
    (h : collect nomadsLine lines = .error e) : e ≠ outOfOrder := by
  induction lines with
  | nil => exact absurd h (by simp [collect])
  | cons line lines ih =>
    rw [collect] at h
    cases hline : nomadsLine (stripCr line) with
    | error e' =>
      rw [hline] at h
      obtain rfl : e' = e := Except.error.inj h
      exact ne_outOfOrder_of_nomadsLine hline
    | ok o =>
      rw [hline] at h
      cases hrest : collect nomadsLine lines with
      | error e' =>
        rw [hrest] at h
        obtain rfl : e' = e := Except.error.inj h
        exact ih hrest
      | ok es =>
        rw [hrest] at h
        exact absurd h (by simp [bind, Except.bind, pure, Except.pure])

/-! ## Lines that are skipped -/

section Skipped

variable {entry : Bytes → Result (Option GribIndexEntry)}

lemma collect_eq_foldr_map (lines : List Bytes) :
    collect entry lines = (lines.map stripCr).foldr (addLine entry) (.ok []) := by
  induction lines with
  | nil => rfl
  | cons line lines ih =>
    rw [collect, ih]
    rfl

/-- Lines without an entry make no difference. -/
lemma foldr_addLine_filter {p : Bytes → Bool} (h : ∀ line, p line = false → entry line = .ok none)
    (lines : List Bytes) :
    lines.foldr (addLine entry) (.ok []) = (lines.filter p).foldr (addLine entry) (.ok []) := by
  induction lines with
  | nil => rfl
  | cons line lines ih =>
    rw [List.foldr_cons, ih]
    cases hp : p line with
    | true =>
      rw [List.filter_cons_of_pos hp]
      rfl
    | false =>
      rw [List.filter_cons_of_neg (by simp [hp]), addLine, h line hp]
      cases (lines.filter p).foldr (addLine entry) (.ok []) <;> rfl

end Skipped

/-- The reader looks at the inventory lines only. -/
lemma parseNomadsIdx_eq_inventoryLines (text : Bytes) :
    parseNomadsIdx text
      = ((inventoryLines text).foldr (addLine nomadsLine) (.ok [])).bind setLengths := by
  have hskip : ∀ line : Bytes, decide (line ≠ [] ∧ 5 ≤ line.count 58) = false →
      nomadsLine line = .ok none := by
    intro line hline
    by_cases hnil : line = []
    · rw [nomadsLine, if_pos hnil]
    · have hfew : ¬ 5 ≤ line.count 58 := fun hle => by simp [hnil, hle] at hline
      exact Line.nomadsLine_other (not_le.mp hfew)
  rw [parseNomadsIdx, collect_eq_foldr_map, foldr_addLine_filter hskip]
  rfl

lemma inventoryLines_eq (text : Bytes) :
    inventoryLines text = (indexLines text).filter fun line => 5 ≤ line.count 58 := by
  rw [inventoryLines, indexLines, List.filter_filter]
  refine List.filter_congr fun line _ => ?_
  rw [Bool.decide_and, Bool.and_comm]

/-! ## The main result -/

/-- The reader, from its two loops. -/
lemma parseNomadsIdx_eq (text : Bytes) :
    parseNomadsIdx text = (collect nomadsLine (split text 10)).bind setLengths := rfl

/-- The result of a text whose lines are read. -/
lemma joinResults_setLengths {a : List GribIndexEntry} {e : Error} :
    joinResults (setLengths a) (.error e) = .error e := by
  cases ha : setLengths a with
  | error e' => rw [joinResults, if_pos (eq_outOfOrder ha)]
  | ok a' => rfl

/-- **Inventories that grow.**  What is made of two texts joined by a newline is what the results
of the two texts come to when they are joined: the entries of the first one, of which the last is
closed, and those of the second one, or the first error of a line, or else the error of the order;
and what is made of a text does not depend on blank lines, on the kind of its line ends, or on
lines with fewer than five colons. -/
theorem nomads_append :
    (∀ A B, parseNomadsIdx (A ++ 10 :: B)
      = joinResults (parseNomadsIdx A) (parseNomadsIdx B)) ∧
    (∀ t t', Relation.EqvGen Reformats t t' → parseNomadsIdx t = parseNomadsIdx t') ∧
    ∀ t t', inventoryLines t = inventoryLines t' → parseNomadsIdx t = parseNomadsIdx t' := by
  have hlines : ∀ t t', inventoryLines t = inventoryLines t' →
      parseNomadsIdx t = parseNomadsIdx t' := by
    intro t t' h
    rw [parseNomadsIdx_eq_inventoryLines, parseNomadsIdx_eq_inventoryLines, h]
  refine ⟨fun A B => ?_, fun t t' h => hlines t t' ?_, hlines⟩
  · rw [parseNomadsIdx_eq, parseNomadsIdx_eq, parseNomadsIdx_eq, split_eq, split_eq, split_eq,
      List.splitOn_append_cons_self, collect_append]
    cases hA : collect nomadsLine (A.splitOn 10) with
    | error e =>
      -- an error of a line is never that of the order
      have hne := ne_outOfOrder_of_collect hA
      change Except.error e = joinResults (.error e) _
      generalize (collect nomadsLine (B.splitOn 10)).bind setLengths = r
      cases r with
      | error e' => rw [joinResults, if_neg hne]
      | ok b => rfl
    | ok a =>
      cases collect nomadsLine (B.splitOn 10) with
      | error e' => exact joinResults_setLengths.symm
      | ok b => exact setLengths_append a b
  · have hsame : Relation.EqvGen (fun t t' => indexLines t = indexLines t') t t' :=
      h.mono fun _ _ hr => hr.indexLines_eq.symm
    rw [inventoryLines_eq, inventoryLines_eq,
      ((eq_equivalence.comap indexLines).eqvGen_iff).mp hsame]

end GribCpp.Sidecar
