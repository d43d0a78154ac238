/-
# Occurrences of a pattern in a list, and pieces between delimiters

`OccursAt pat s i` says that the list `pat` stands in `s` from position `i` on, and
`indexOf? pat s` computes the first such position.  A pattern none of whose proper
suffixes is one of its prefixes cannot overlap itself, so it cannot begin in a list
where it does not occur and run into a copy of itself placed after that list.  The last
part adds to the library's `List.splitOn` what the readers of delimited text need.
-/
import Mathlib

namespace GribCpp.Search

variable {α : Type*}

/-- The list `pat` stands in `s` from position `i` on. -/
def OccursAt (pat s : List α) (i : ℕ) : Prop := pat <+: s.drop i

instance [DecidableEq α] (pat s : List α) (i : ℕ) : Decidable (OccursAt pat s i) :=
  inferInstanceAs (Decidable (pat <+: s.drop i))

lemma OccursAt.add_le {pat s : List α} {i : ℕ} (h : OccursAt pat s i) (hpat : pat ≠ []) :
    i + pat.length ≤ s.length := by
  have hle := List.IsPrefix.length_le h
  have hpos : 0 < pat.length := List.length_pos_iff.mpr hpat
  rw [List.length_drop] at hle
  omega

lemma occursAt_append {pat s : List α} (t : List α) (i : ℕ) :
    OccursAt pat (t ++ s) (t.length + i) ↔ OccursAt pat s i := by
  rw [OccursAt, OccursAt, List.drop_append, List.drop_eq_nil_of_le (by omega),
    Nat.add_sub_cancel_left, List.nil_append]

lemma OccursAt.isInfix {pat s : List α} {i : ℕ} (h : OccursAt pat s i) : pat <:+: s :=
  (List.IsPrefix.isInfix h).trans (List.drop_suffix i s).isInfix

/-- A pattern without the delimiter stands on one of the sides of it. -/
lemma infix_append_cons_iff {pat : List α} {d : α} (hd : d ∉ pat) {s t : List α} :
    pat <:+: s ++ d :: t ↔ pat <:+: s ∨ pat <:+: t := by
  constructor
  · intro h
    rcases List.infix_append_iff.mp h with h | h | ⟨p, q, rfl, hp, hq⟩
    · exact Or.inl h
    · rcases List.infix_cons_iff.mp h with h | h
      · -- a pattern that starts at the delimiter is empty
        cases pat with
        | nil => exact Or.inl List.nil_infix
        | cons c pat =>
          obtain rfl := (List.cons_prefix_cons.mp h).1
          exact absurd List.mem_cons_self hd
      · exact Or.inr h
    · cases q with
      | nil => exact Or.inl (by simpa using hp.isInfix)
      | cons c q =>
        obtain rfl := (List.cons_prefix_cons.mp hq).1
        exact absurd (by simp) hd
  · rintro (h | h)
    · exact h.trans (List.prefix_append _ _).isInfix
    · exact h.trans ((List.suffix_cons d t).isInfix.trans (List.suffix_append _ _).isInfix)

/-- A pattern without the delimiter stands in one of the pieces. -/
lemma infix_flatMap_iff {pat : List α} {d : α} (hd : d ∉ pat) (hpat : pat ≠ [])
    {ps : List (List α)} : pat <:+: ps.flatMap (· ++ [d]) ↔ ∃ p ∈ ps, pat <:+: p := by
  induction ps with
  | nil => simp [hpat]
  | cons p ps ih =>
    rw [List.flatMap_cons, List.append_assoc, List.singleton_append, infix_append_cons_iff hd, ih]
    simp

/-! ## The first occurrence -/

section IndexOf

variable [DecidableEq α]

/-- The first position at which `pat` stands in the list. -/
def indexOf? (pat : List α) : List α → Option ℕ
  | [] => if pat = [] then some 0 else none
  | a :: s => if pat <+: a :: s then some 0 else (indexOf? pat s).map (· + 1)

lemma indexOf?_eq_some_iff {pat s : List α} {i : ℕ} :
    indexOf? pat s = some i ↔
      i ≤ s.length ∧ OccursAt pat s i ∧ ∀ j < i, ¬ OccursAt pat s j := by
  induction s generalizing i with
  | nil =>
    simp only [indexOf?, OccursAt, List.drop_nil, List.prefix_nil, List.length_nil,
      Nat.le_zero]
    constructor
    · intro h
      split at h
      · rename_i hp
        simp only [Option.some.injEq] at h
        exact ⟨h.symm, hp, by omega⟩
      · exact absurd h (by simp)
    · rintro ⟨rfl, hp, -⟩
      simp [hp]
  | cons a s ih =>
    rw [indexOf?]
    split
    · rename_i hp
      constructor
      · intro h
        simp only [Option.some.injEq] at h
        subst h
        exact ⟨by omega, hp, by omega⟩
      · rintro ⟨-, -, hfirst⟩
        cases i with
        | zero => rfl
        | succ i => exact absurd hp (hfirst 0 (by omega))
    · rename_i hp
      cases i with
      | zero =>
        constructor
        · intro h
          simp at h
        · rintro ⟨-, h, -⟩
          exact absurd h hp
      | succ i =>
        have hmap : ((indexOf? pat s).map (· + 1) = some (i + 1)) ↔ indexOf? pat s = some i := by
          simp [Option.map_eq_some_iff]
        -- behind the front an occurrence is one in the tail
        rw [hmap, ih]
        constructor
        · rintro ⟨hle, hocc, hfirst⟩
          refine ⟨by simpa using hle, hocc, ?_⟩
          intro j hj
          cases j with
          | zero => exact hp
          | succ j => exact hfirst j (by omega)
        · rintro ⟨hle, hocc, hfirst⟩
          exact ⟨by simpa using hle, hocc, fun j hj => hfirst (j + 1) (by omega)⟩

lemma indexOf?_eq_none_iff {pat s : List α} : indexOf? pat s = none ↔ ¬ pat <:+: s := by
  induction s with
  | nil => simp [indexOf?]
  | cons a s ih =>
    rw [indexOf?, List.infix_cons_iff]
    split
    · rename_i hp
      simp [hp]
    · rename_i hp
      simp [hp, ih]

/-- The first occurrence after a list in which no occurrence begins. -/
lemma indexOf?_append {pat t s : List α} (hs : OccursAt pat s 0)
    (ht : ∀ j < t.length, ¬ OccursAt pat (t ++ s) j) : indexOf? pat (t ++ s) = some t.length := by
  rw [indexOf?_eq_some_iff]
  refine ⟨by simp, ?_, ht⟩
  have h : OccursAt pat (t ++ s) (t.length + 0) := (occursAt_append t 0).mpr hs
  rwa [Nat.add_zero] at h

end IndexOf

/-! ## Patterns without a border -/

/-- No proper nonempty suffix of the pattern is one of its prefixes. -/
def Unbordered (pat : List α) : Prop :=
  ∀ k, 0 < k → k < pat.length → pat.drop k ≠ pat.take (pat.length - k)

/-- **A pattern that cannot overlap itself does not begin before its own copy.**  If `pat`
does not occur in `t`, then it does not begin inside `t` in the list `t ++ pat ++ r`. -/
theorem Unbordered.not_occursAt_append {pat : List α} (h : Unbordered pat) {t : List α}
    (ht : ¬ pat <:+: t) (r : List α) {i : ℕ} (hi : i < t.length) :
    ¬ OccursAt pat (t ++ (pat ++ r)) i := by
  intro hocc
  have hpre : pat <+: t.drop i ++ (pat ++ r) := by
    have h' := hocc
    rwa [OccursAt, List.drop_append_of_le_length (by omega)] at h'
  by_cases hlen : pat.length ≤ (t.drop i).length
  · exact ht ((List.prefix_of_prefix_length_le hpre (List.prefix_append _ _) hlen).isInfix.trans
      (List.drop_suffix i t).isInfix)
  · -- the occurrence begins in `t` and ends inside the copy: its tail is a border
    have hk : (t.drop i).length = t.length - i := List.length_drop
    set k := (t.drop i).length with hkdef
    have htail : pat.drop k <+: pat ++ r := by
      obtain ⟨q, hq⟩ := hpre
      refine ⟨q, ?_⟩
      have h' := congrArg (List.drop k) hq
      rwa [List.drop_append_of_le_length (by omega), hkdef, List.drop_left] at h'
    have heq : pat.drop k = pat.take (pat.length - k) := by
      have hp := List.prefix_of_prefix_length_le htail (List.prefix_append pat r)
        (by rw [List.length_drop]; omega)
      rw [List.prefix_iff_eq_take] at hp
      rwa [List.length_drop] at hp
    exact h k (by omega) (by omega) heq

/-! ## Pieces between delimiters -/

section Split

variable [DecidableEq α]

/-- The pieces of a list of delimiter-free pieces, each of them followed by the delimiter,
then by a rest. -/
lemma splitOn_flatMap_append (d : α) (ps : List (List α)) (hps : ∀ p ∈ ps, d ∉ p)
    (s : List α) : (ps.flatMap (· ++ [d]) ++ s).splitOn d = ps ++ s.splitOn d := by
  induction ps with
  | nil => rfl
  | cons p ps ih =>
    have hp : d ∉ p := hps p (by simp)
    have hih := ih (fun q hq => hps q (by simp [hq]))
    rw [List.flatMap_cons, List.append_assoc, List.append_assoc, List.singleton_append,
      List.splitOn_append_cons_self_of_not_mem hp, hih]
    rfl

lemma length_splitOn (d : α) (s : List α) : (s.splitOn d).length = s.count d + 1 := by
  induction s with
  | nil => simp
  | cons a s ih =>
    rw [List.splitOn_cons_eq_if_modifyHead]
    by_cases had : a = d
    · subst had
      simp [ih]
    · simp [had, ih]

lemma notMem_of_mem_splitOn {d : α} {s p : List α} (hp : p ∈ s.splitOn d) : d ∉ p := by
  induction s generalizing p with
  | nil =>
    rw [List.splitOn_nil, List.mem_singleton] at hp
    simp [hp]
  | cons a s ih =>
    rw [List.splitOn_cons_eq_if_modifyHead] at hp
    split at hp
    · rcases List.mem_cons.mp hp with rfl | hp
      · exact List.not_mem_nil
      · exact ih hp
    · rename_i had
      cases hs : s.splitOn d with
      | nil => exact absurd hs (List.splitOn_ne_nil d s)
      | cons q qs =>
        rw [hs] at ih hp
        rcases List.mem_cons.mp hp with rfl | hp
        · have hne : a ≠ d := by simpa using had
          rw [List.mem_cons, not_or]
          exact ⟨hne.symm, ih List.mem_cons_self⟩
        · exact ih (List.mem_cons_of_mem _ hp)

/-- A list is its pieces, each of them but the last followed by the delimiter. -/
lemma exists_splitOn_eq (d : α) (s : List α) :
    ∃ ps p, s.splitOn d = ps ++ [p] ∧ s = ps.flatMap (· ++ [d]) ++ p := by
  induction s with
  | nil => exact ⟨[], [], by simp, rfl⟩
  | cons a s ih =>
    obtain ⟨ps, p, hsplit, hs⟩ := ih
    rw [List.splitOn_cons_eq_if_modifyHead, hsplit]
    split
    · rename_i had
      rw [beq_iff_eq] at had
      exact ⟨[] :: ps, p, rfl, by rw [had, List.flatMap_cons, List.append_assoc, ← hs]; rfl⟩
    · cases ps with
      | nil => exact ⟨[], a :: p, rfl, congrArg _ hs⟩
      | cons q ps => exact ⟨(a :: q) :: ps, p, rfl, congrArg _ hs⟩

/-- What stands in front of a cut has the same pieces, up to the last one, which the cut may
have shortened. -/
lemma splitOn_cut (d : α) {t s : List α} (h : t <+: s) :
    ∃ ps p q qs, t.splitOn d = ps ++ [p] ∧ s.splitOn d = ps ++ q :: qs ∧ p <+: q := by
  induction t generalizing s with
  | nil =>
    cases hs : s.splitOn d with
    | nil => exact absurd hs (List.splitOn_ne_nil d s)
    | cons q qs => exact ⟨[], [], q, qs, by simp, rfl, List.nil_prefix⟩
  | cons a t ih =>
    obtain ⟨r, rfl⟩ := h
    obtain ⟨ps, p, q, qs, ht, hs, hpq⟩ := ih (List.prefix_append t r)
    rw [List.cons_append, List.splitOn_cons_eq_if_modifyHead, List.splitOn_cons_eq_if_modifyHead,
      ht, hs]
    split
    · exact ⟨[] :: ps, p, q, qs, rfl, rfl, hpq⟩
    · cases ps with
      | nil =>
        -- the letter belongs to the piece that the cut has shortened
        exact ⟨[], a :: p, a :: q, qs, rfl, rfl, (List.prefix_cons_inj a).mpr hpq⟩
      | cons p₀ ps => exact ⟨(a :: p₀) :: ps, p, q, qs, rfl, rfl, hpq⟩

end Split

end GribCpp.Search
