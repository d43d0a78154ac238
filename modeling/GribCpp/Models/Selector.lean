/-
# Selectors

The model of `GribSelector` in `include/grib/sidecar.hpp` and of `select` in
`src/models/sidecar.cpp`.  A criterion that is not set holds of every entry; the texts have to
occur somewhere in their fields, the member has to be the same.
-/
import GribCpp.Models.Sidecar

namespace GribCpp.Sidecar

open Search

/-- `GribSelector`. -/
structure GribSelector where
  param : Option Bytes := none
  level : Option Bytes := none
  step : Option Bytes := none
  member : Option ℤ := none
deriving DecidableEq, Repr

/-- A text that is set is not found in the field. -/
def missing (text : Option Bytes) (field : Bytes) : Bool :=
  text.any fun t => (indexOf? t field).isNone

/-- `select`: the loop over the entries. -/
def select (entries : List GribIndexEntry) (sel : GribSelector) : List GribIndexEntry :=
  match entries with
  | [] => []
  | e :: es =>
    if missing sel.param e.param then select es sel
    else if missing sel.level e.level then select es sel
    else if missing sel.step e.step then select es sel
    else if sel.member.any fun n => e.member ≠ n then select es sel
    else e :: select es sel

/-! ## What is selected -/

/-- An entry that meets the criteria. -/
structure Meets (sel : GribSelector) (e : GribIndexEntry) : Prop where
  param : ∀ t, sel.param = some t → t <:+: e.param
  level : ∀ t, sel.level = some t → t <:+: e.level
  step : ∀ t, sel.step = some t → t <:+: e.step
  member : ∀ n, sel.member = some n → e.member = n

section Select

variable {sel : GribSelector} {e : GribIndexEntry} {es : List GribIndexEntry}

lemma missing_eq_false_iff {text : Option Bytes} {field : Bytes} :
    missing text field = false ↔ ∀ t, text = some t → t <:+: field := by
  cases text with
  | none => simp [missing]
  | some t =>
    rw [missing, Option.any_some, ← Bool.not_eq_true, Option.isNone_iff_eq_none,
      indexOf?_eq_none_iff, not_not]
    simp

lemma meets_iff :
    Meets sel e ↔ missing sel.param e.param = false ∧ missing sel.level e.level = false ∧
      missing sel.step e.step = false ∧ (sel.member.any fun n => e.member ≠ n) = false := by
  have hmember : (sel.member.any fun n => e.member ≠ n) = false ↔
      ∀ n, sel.member = some n → e.member = n := by
    cases sel.member <;> simp
  rw [missing_eq_false_iff, missing_eq_false_iff, missing_eq_false_iff, hmember]
  exact ⟨fun h => ⟨h.1, h.2, h.3, h.4⟩, fun h => ⟨h.1, h.2.1, h.2.2.1, h.2.2.2⟩⟩

/-- A selector of a parameter. -/
lemma meets_param_iff {t : Bytes} : Meets { param := some t } e ↔ t <:+: e.param := by
  refine ⟨fun h => h.param t rfl, fun h => ⟨?_, by simp, by simp, by simp⟩⟩
  simpa using h

/-- A selector of a parameter and a level. -/
lemma meets_param_level_iff {t t' : Bytes} :
    Meets { param := some t, level := some t' } e ↔ t <:+: e.param ∧ t' <:+: e.level := by
  refine ⟨fun h => ⟨h.param t rfl, h.level t' rfl⟩, fun h => ⟨?_, ?_, by simp, by simp⟩⟩
  · simpa using h.1
  · simpa using h.2

/-- A selector of a member. -/
lemma meets_member_iff {n : ℤ} : Meets { member := some n } e ↔ e.member = n := by
  refine ⟨fun h => h.member n rfl, fun h => ⟨by simp, by simp, by simp, ?_⟩⟩
  simpa using h

instance (sel : GribSelector) (e : GribIndexEntry) : Decidable (Meets sel e) :=
  decidable_of_iff _ meets_iff.symm

/-- The loop keeps the entries that meet the criteria, in their order. -/
lemma select_eq_filter (es : List GribIndexEntry) (sel : GribSelector) :
    select es sel = es.filter (Meets sel ·) := by
  induction es with
  | nil => rfl
  | cons e es ih =>
    rw [select, ih]
    by_cases hmeets : Meets sel e
    · obtain ⟨hparam, hlevel, hstep, hmember⟩ := meets_iff.mp hmeets
      rw [List.filter_cons_of_pos (by simpa using hmeets), hparam, hlevel, hstep, hmember]
      rfl
    · -- one of the criteria is not met
      rw [List.filter_cons_of_neg (by simpa using hmeets)]
      split_ifs with hparam hlevel hstep hmember
      · rfl
      · rfl
      · rfl
      · rfl
      · refine absurd (meets_iff.mpr ⟨?_, ?_, ?_, ?_⟩) hmeets <;>
          exact eq_false_of_ne_true ‹_›

lemma mem_select : e ∈ select es sel ↔ e ∈ es ∧ Meets sel e := by
  rw [select_eq_filter, List.mem_filter, decide_eq_true_eq]

lemma select_sublist (es : List GribIndexEntry) (sel : GribSelector) :
    (select es sel).Sublist es := by
  rw [select_eq_filter]
  exact List.filter_sublist

/-- Without criteria everything is selected. -/
lemma select_empty (es : List GribIndexEntry) : select es {} = es := by
  rw [select_eq_filter, List.filter_eq_self]
  intro e _
  exact decide_eq_true ⟨by simp, by simp, by simp, by simp⟩

/-- A selection from a selection. -/
lemma select_select (es : List GribIndexEntry) (sel sel' : GribSelector) :
    select (select es sel) sel' = es.filter fun e => Meets sel e ∧ Meets sel' e := by
  rw [select_eq_filter, select_eq_filter, List.filter_filter]
  refine List.filter_congr fun e _ => ?_
  rw [Bool.decide_and, Bool.and_comm]

/-- The first entry that is selected is the first one that meets the criteria. -/
lemma head?_select_eq_some_iff :
    (select es sel).head? = some e ↔ ∃ before after, es = before ++ e :: after ∧ Meets sel e ∧
      ∀ e' ∈ before, ¬ Meets sel e' := by
  rw [select_eq_filter, List.head?_filter, List.find?_eq_some_iff_append]
  constructor
  · rintro ⟨hmeets, before, after, rfl, hbefore⟩
    exact ⟨before, after, rfl, by simpa using hmeets, by simpa using hbefore⟩
  · rintro ⟨before, after, rfl, hmeets, hbefore⟩
    exact ⟨by simpa using hmeets, before, after, rfl, by simpa using hbefore⟩

lemma head?_select_of_getElem? {i : ℕ} (he : es[i]? = some e) (hmeets : Meets sel e)
    (hbefore : ∀ j < i, ∀ e', es[j]? = some e' → ¬ Meets sel e') :
    (select es sel).head? = some e := by
  obtain ⟨hi, rfl⟩ := List.getElem?_eq_some_iff.mp he
  refine head?_select_eq_some_iff.mpr ⟨es.take i, es.drop (i + 1), ?_, hmeets, fun e' he' => ?_⟩
  · rw [← List.drop_eq_getElem_cons hi, List.take_append_drop]
  · obtain ⟨j, hj, rfl⟩ := List.mem_take_iff_getElem.mp he'
    exact hbefore j (by omega) _ (List.getElem?_eq_getElem _)

end Select

end GribCpp.Sidecar
