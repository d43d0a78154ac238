/-
# The first least element of a list

One pass that replaces the best element so far by a strictly smaller one finds the first of the
least elements.  The order need not compare everything: an element that nothing is compared with
(a NaN, say) is passed over, except in the first place, where nothing replaces it.
-/
import Mathlib

namespace GribCpp.Leftmost

variable {α : Type*}

/-- A strict order of the elements that are comparable; the others are unrelated to everything. -/
structure Comparison (lt : α → α → Bool) (comparable : α → Prop) : Prop where
  left : ∀ {a b}, lt a b = true → comparable a
  right : ∀ {a b}, lt a b = true → comparable b
  asymm : ∀ {a b}, lt a b = true → lt b a = false
  cotrans : ∀ {a b c}, lt a c = true → comparable b → lt a b = true ∨ lt b c = true

/-- The element at `i` is a least one, and the first of these; comparable elements before it are
larger. -/
structure IsLeftmost (lt : α → α → Bool) (comparable : α → Prop) (l : List α) (i : ℕ) (a : α) :
    Prop where
  get : l[i]? = some a
  least : ∀ {j : ℕ} {b : α}, l[j]? = some b → lt b a = false
  first : ∀ {j : ℕ} {b : α}, j < i → l[j]? = some b → lt a b = true ∨ 0 < j ∧ ¬ comparable b

/-- One pass over a list. -/
def keepLeast (lt : α → α → Bool) (best : α) (l : List α) : α :=
  l.foldl (fun best a => if lt a best then a else best) best

variable {lt : α → α → Bool} {comparable : α → Prop} {l : List α} {i : ℕ} {a : α}

lemma getElem?_concat_cases {j : ℕ} {x b : α} (h : (l ++ [x])[j]? = some b) :
    j < l.length ∧ l[j]? = some b ∨ j = l.length ∧ x = b := by
  rcases lt_trichotomy j l.length with hj | rfl | hj
  · rw [List.getElem?_append_left hj] at h
    exact .inl ⟨hj, h⟩
  · rw [List.getElem?_concat_length] at h
    exact .inr ⟨rfl, Option.some.inj h⟩
  · rw [List.getElem?_eq_none (by simpa using hj)] at h
    cases h

/-- What comes before the first least element leaves it comparable, unless it is the first of
all. -/
lemma IsLeftmost.comparable_of_pos (hc : Comparison lt comparable)
    (h : IsLeftmost lt comparable l i a) (hi : 0 < i) : comparable a := by
  have hlt := (List.getElem?_eq_some_iff.mp h.get).1
  obtain ⟨b, hb⟩ : ∃ b, l[0]? = some b := ⟨_, List.getElem?_eq_getElem (by omega)⟩
  rcases h.first hi hb with hab | ⟨hpos, -⟩
  · exact hc.left hab
  · exact absurd hpos (lt_irrefl 0)

lemma isLeftmost_singleton (hc : Comparison lt comparable) (a : α) :
    IsLeftmost lt comparable [a] 0 a where
  get := rfl
  least := by
    intro j b hb
    obtain rfl : b = a := by
      have hmem := List.mem_of_getElem? hb
      exact List.mem_singleton.mp hmem
    by_contra hself
    exact hself (hc.asymm (Bool.eq_true_of_not_eq_false hself))
  first := fun hj => absurd hj (Nat.not_lt_zero _)

/-- **One step**: the next element replaces the first least one if it is smaller. -/
theorem IsLeftmost.concat (hc : Comparison lt comparable) (h : IsLeftmost lt comparable l i a)
    (x : α) :
    if lt x a then IsLeftmost lt comparable (l ++ [x]) l.length x
    else IsLeftmost lt comparable (l ++ [x]) i a := by
  have hlen := (List.getElem?_eq_some_iff.mp h.get).1
  split_ifs with hxa
  · refine ⟨List.getElem?_concat_length, ?_, ?_⟩
    · intro j b hb
      rcases getElem?_concat_cases hb with ⟨-, hb⟩ | ⟨-, rfl⟩
      · by_contra hbx
        rcases hc.cotrans (Bool.eq_true_of_not_eq_false hbx) (hc.right hxa) with hba | hax
        · rw [h.least hb] at hba
          cases hba
        · rw [hc.asymm hxa] at hax
          cases hax
      · by_contra hself
        exact hself (hc.asymm (Bool.eq_true_of_not_eq_false hself))
    · intro j b hj hb
      rw [List.getElem?_append_left hj] at hb
      by_cases hnum : comparable b
      · -- an element as small as the new one would be smaller than the old one
        rcases hc.cotrans hxa hnum with hxb | hba
        · exact .inl hxb
        · rw [h.least hb] at hba
          cases hba
      · refine .inr ⟨Nat.pos_of_ne_zero fun hzero => hnum ?_, hnum⟩
        subst hzero
        rcases Nat.eq_zero_or_pos i with rfl | hi
        · have hab : a = b := Option.some.inj (h.get.symm.trans hb)
          exact hab ▸ hc.right hxa
        · rcases h.first hi hb with hab | ⟨hpos, -⟩
          · exact hc.right hab
          · exact absurd hpos (lt_irrefl 0)
  · refine ⟨by rw [List.getElem?_append_left hlen, h.get], ?_, ?_⟩
    · intro j b hb
      rcases getElem?_concat_cases hb with ⟨-, hb⟩ | ⟨-, rfl⟩
      · exact h.least hb
      · exact Bool.eq_false_of_not_eq_true hxa
    · intro j b hj hb
      rw [List.getElem?_append_left (hj.trans hlen)] at hb
      exact h.first hj hb

/-- **One pass**: from the first least element of a part to that of the whole. -/
theorem IsLeftmost.keepLeast (hc : Comparison lt comparable)
    (h : IsLeftmost lt comparable l i a) (rest : List α) :
    ∃ k, IsLeftmost lt comparable (l ++ rest) k (keepLeast lt a rest) := by
  induction rest generalizing l i a with
  | nil => exact ⟨i, by rwa [List.append_nil]⟩
  | cons x rest ih =>
    have hstep := h.concat hc x
    rw [Leftmost.keepLeast, List.foldl_cons]
    split_ifs at hstep ⊢ with hxa
    · obtain ⟨k, hk⟩ := ih hstep
      rw [List.append_assoc] at hk
      exact ⟨k, hk⟩
    · obtain ⟨k, hk⟩ := ih hstep
      rw [List.append_assoc] at hk
      exact ⟨k, hk⟩

/-- There is only one. -/
theorem IsLeftmost.unique (hc : Comparison lt comparable) {k : ℕ} {b : α}
    (h : IsLeftmost lt comparable l i a) (h' : IsLeftmost lt comparable l k b) :
    i = k ∧ a = b := by
  have hle {i k : ℕ} {a b : α} (h : IsLeftmost lt comparable l i a)
      (h' : IsLeftmost lt comparable l k b) : k ≤ i := by
    by_contra hlt
    rw [not_le] at hlt
    rcases h'.first hlt h.get with hba | ⟨hpos, hnum⟩
    · rw [h.least h'.get] at hba
      cases hba
    · exact hnum (h.comparable_of_pos hc hpos)
  obtain rfl : i = k := (hle h' h).antisymm (hle h h')
  exact ⟨rfl, Option.some.inj (h.get.symm.trans h'.get)⟩

/-- **One pass finds the first least element, and nothing else.** -/
theorem keepLeast_eq_iff (hc : Comparison lt comparable) {b : α} :
    keepLeast lt a l = b ↔ ∃ k, IsLeftmost lt comparable (a :: l) k b := by
  obtain ⟨k, hk⟩ := (isLeftmost_singleton hc a).keepLeast hc l
  rw [List.singleton_append] at hk
  constructor
  · rintro rfl
    exact ⟨k, hk⟩
  · rintro ⟨k', hk'⟩
    exact (hk.unique hc hk').2

end GribCpp.Leftmost
