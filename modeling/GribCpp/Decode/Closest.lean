/-
# The point of a search

`GribHandle::nearest` in `src/decode/handle.cpp` goes once over the points that ecCodes has found.
The comparison of their distances is that of floating-point numbers, where a NaN is neither
smaller nor larger than anything.
-/
import GribCpp.Decode.Nearest
import GribCpp.Lib.Leftmost

namespace GribCpp.Decode

open Leftmost Sidecar

/-! ## The comparison of floating-point numbers -/

/-- The numbers with the infinities around them; a NaN stands for nothing here. -/
def extended : Double → WithBot (WithTop ℚ)
  | .infinity true => ⊥
  | .infinity false => ((⊤ : WithTop ℚ) : WithBot (WithTop ℚ))
  | d => ((d.value.getD 0 : ℚ) : WithTop ℚ)

lemma less_iff {x y : Double} :
    less x y = true ↔ x ≠ .nan ∧ y ≠ .nan ∧ extended x < extended y := by
  rcases x with ⟨q, hq⟩ | _ | (_ | _) | _ <;> rcases y with ⟨q', hq'⟩ | _ | (_ | _) | _ <;>
    simp only [less, extended, Double.value, Option.getD_some, Option.getD_none, ne_eq,
      reduceCtorEq, not_false_eq_true, not_true_eq_false, true_and, false_and, and_false,
      WithBot.coe_lt_coe, WithTop.coe_lt_coe, WithTop.coe_lt_top, decide_eq_true_eq,
      WithBot.bot_lt_coe, lt_self_iff_false, not_top_lt, not_lt_bot, Bool.false_eq_true]
  -- two finite numbers
  all_goals exact decide_eq_true_iff

/-- `<` orders what is not a NaN. -/
lemma comparison_less : Comparison less (· ≠ .nan) where
  left h := (less_iff.mp h).1
  right h := (less_iff.mp h).2.1
  asymm h := by
    by_contra h'
    have hlt := (less_iff.mp h).2.2
    exact lt_asymm hlt (less_iff.mp (Bool.eq_true_of_not_eq_false h')).2.2
  cotrans {a b c} h hb := by
    obtain ⟨ha, hc, hlt⟩ := less_iff.mp h
    rcases lt_or_ge (extended a) (extended b) with hab | hba
    · exact .inl (less_iff.mpr ⟨ha, hb, hab⟩)
    · exact .inr (less_iff.mpr ⟨hb, hc, hba.trans_lt hlt⟩)

/-! ## The closest point -/

/-- A smaller distance. -/
def closer (p q : GridPoint) : Bool := less p.dist q.dist

/-- A point with a distance. -/
def HasDistance (p : GridPoint) : Prop := p.dist ≠ .nan

lemma comparison_closer : Comparison closer HasDistance where
  left h := comparison_less.left h
  right h := comparison_less.right h
  asymm h := comparison_less.asymm h
  cotrans h hb := comparison_less.cotrans h hb

lemma bestPoint_eq_keepLeast (best : GridPoint) (ps : List GridPoint) :
    bestPoint best ps = keepLeast closer best ps := by
  induction ps generalizing best with
  | nil => rfl
  | cons p ps ih => exact ih _

/-- The first closest point: none is closer, and those before it are farther or have no distance;
a first point without a distance is taken. -/
abbrev IsClosest (points : List GridPoint) (p : GridPoint) : Prop :=
  ∃ i, IsLeftmost closer HasDistance points i p

lemma not_isClosest_nil (p : GridPoint) : ¬ IsClosest [] p := fun ⟨_, h⟩ => by
  cases h.get

/-- The second half of a search returns the value of the first closest point. -/
lemma foundValue_ok_iff {H N : Type*} {api : NearestApi H N} {found : ℤ × List GridPoint}
    {v : Double} :
    foundValue api found = .ok v ↔
      found.1 = codesSuccess ∧ ∃ p, IsClosest found.2 p ∧ p.value = v := by
  obtain ⟨err, points⟩ := found
  cases points with
  | nil => simp [foundValue, not_isClosest_nil]
  | cons p ps =>
    rw [foundValue]
    by_cases herr : err = codesSuccess
    · rw [if_neg (not_not.mpr herr), Except.ok.injEq]
      constructor
      · intro h
        exact ⟨herr, _, (keepLeast_eq_iff comparison_closer).mp rfl,
          (congrArg GridPoint.value (bestPoint_eq_keepLeast p ps)).symm.trans h⟩
      · rintro ⟨-, q, hq, rfl⟩
        rw [bestPoint_eq_keepLeast, (keepLeast_eq_iff comparison_closer).mpr hq]
    · simp [herr]

/-! ## The result of a search -/

section Result

variable {H N : Type*}

/-- The nearest object that a search uses: the cached one, or else one that ecCodes creates
without an error. -/
def GribHandle.Searcher (g : GribHandle H N) (api : NearestApi H N) (h : H) (near : N) : Prop :=
  g.nearest = some near ∨ g.nearest = none ∧ api.nearestNew h = (some near, codesSuccess)

lemma validCoordinates_iff {lat lon : Double} :
    validCoordinates lat lon = true ↔
      (∃ x, lat.value = some x ∧ -90 ≤ x ∧ x ≤ 90) ∧ ∃ y, lon.value = some y := by
  rw [validCoordinates]
  cases lat.value <;> cases lon.value <;> simp

/-- **A search has a value** if and only if the handle is not empty, the point is one of the
earth, there is an object to search with, and ecCodes finds some points without an error; the
value is then that of the first closest one. -/
theorem nearestValue_ok_iff (g : GribHandle H N) (api : NearestApi H N) (lat lon v : Double) :
    (g.nearestValue api lat lon).result = .ok v ↔
      ∃ h near points p, g.h = some h ∧
        ((∃ x, lat.value = some x ∧ -90 ≤ x ∧ x ≤ 90) ∧ ∃ y, lon.value = some y) ∧
        g.Searcher api h near ∧
        api.nearestFind near h lat (wrapLongitude lon) = (codesSuccess, points) ∧
        IsClosest points p ∧ p.value = v := by
  rw [← validCoordinates_iff]
  have hfound (near : N) (h : H) :
      foundValue api (api.nearestFind near h lat (wrapLongitude lon)) = .ok v ↔
        ∃ points p, api.nearestFind near h lat (wrapLongitude lon) = (codesSuccess, points) ∧
          IsClosest points p ∧ p.value = v := by
    rw [foundValue_ok_iff]
    generalize api.nearestFind near h lat (wrapLongitude lon) = found
    obtain ⟨err, points⟩ := found
    constructor
    · rintro ⟨herr, p, hp, hv⟩
      exact ⟨points, p, Prod.ext herr rfl, hp, hv⟩
    · rintro ⟨points', p, heq, hp, hv⟩
      obtain ⟨herr, rfl⟩ := Prod.mk.inj heq
      exact ⟨herr, p, hp, hv⟩
  rw [GribHandle.nearestValue]
  cases hh : g.h with
  | none => simp
  | some h =>
    by_cases hvalid : validCoordinates lat lon = true
    · simp only [hvalid, Bool.true_eq_false, if_false, true_and, GribHandle.Searcher]
      cases hn : g.nearest with
      | some near => simp [hfound]
      | none =>
        rcases hnew : api.nearestNew h with ⟨_ | created, err⟩
        · simp [hnew]
        · by_cases herr : err = codesSuccess
          · simp [hnew, herr, hfound]
          · simp [hnew, herr]
    · simp [hvalid]

end Result

end GribCpp.Decode
