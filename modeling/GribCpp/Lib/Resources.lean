/-
# Resources that are issued, used and released

A trace says in which order resources are issued, used and released.  A resource may be issued
on behalf of another one, its owner.  In a disciplined trace a resource is issued once, used
only while it is live, and released while it is live and after everything that was issued on its
behalf.

A disciplined trace grows at its end, one allowed effect at a time; what that means for the
trace as a whole is derived here: every effect was allowed where it stands, nothing is released
twice, and what has been issued and is not live at the end has been released exactly once.
-/
import Mathlib

namespace GribCpp.Resources

variable {ρ : Type*}

/-- What an event does to resources. -/
inductive Effect (ρ : Type*) where
  | issue (r : ρ) (owner : Option ρ)
  | use (rs : List ρ)
  | release (r : ρ)
deriving DecidableEq

/-- The resource has been issued. -/
def Issued (t : List (Effect ρ)) (r : ρ) : Prop := ∃ owner, .issue r owner ∈ t

/-- The resource has been issued and not been released. -/
def Live (t : List (Effect ρ)) (r : ρ) : Prop := Issued t r ∧ .release r ∉ t

/-- The effect may come next. -/
def Allowed (t : List (Effect ρ)) : Effect ρ → Prop
  | .issue r owner => ¬ Issued t r ∧ ∀ q, owner = some q → Live t q
  | .use rs => ∀ r ∈ rs, Live t r
  | .release r => Live t r ∧ ∀ c, .issue c (some r) ∈ t → .release c ∈ t

/-- The traces all of whose effects are allowed. -/
inductive Disciplined : List (Effect ρ) → Prop
  | nil : Disciplined []
  | snoc {t : List (Effect ρ)} {e : Effect ρ} (h : Disciplined t) (he : Allowed t e) :
      Disciplined (t ++ [e])

section Append

variable {t : List (Effect ρ)} {e : Effect ρ} {r : ρ}

lemma Issued.append (h : Issued t r) (t' : List (Effect ρ)) : Issued (t ++ t') r := by
  obtain ⟨owner, hmem⟩ := h
  exact ⟨owner, by simp [hmem]⟩

lemma issued_snoc_iff : Issued (t ++ [e]) r ↔ Issued t r ∨ ∃ owner, e = .issue r owner := by
  simp only [Issued, List.mem_append, List.mem_singleton]
  constructor
  · rintro ⟨owner, h | h⟩
    · exact Or.inl ⟨owner, h⟩
    · exact Or.inr ⟨owner, h.symm⟩
  · rintro (⟨owner, h⟩ | ⟨owner, rfl⟩)
    · exact ⟨owner, Or.inl h⟩
    · exact ⟨owner, Or.inr rfl⟩

/-- A live resource stays live until it is released. -/
lemma Live.snoc (h : Live t r) (he : e ≠ .release r) : Live (t ++ [e]) r := by
  refine ⟨h.1.append [e], ?_⟩
  rw [List.mem_append, List.mem_singleton, not_or]
  exact ⟨h.2, he.symm⟩

/-- Nothing is live that has not been live before or just been issued. -/
lemma Live.of_snoc (h : Live (t ++ [e]) r) : Live t r ∨ ∃ owner, e = .issue r owner := by
  obtain ⟨hissued, hnot⟩ := h
  rcases issued_snoc_iff.mp hissued with h | h
  · exact Or.inl ⟨h, fun hmem => hnot (by simp [hmem])⟩
  · exact Or.inr h

end Append

namespace Disciplined

variable {t pre post : List (Effect ρ)} {e : Effect ρ} {r c : ρ}

/-- Every piece at the front of a disciplined trace is disciplined. -/
lemma front (h : Disciplined (pre ++ post)) : Disciplined pre := by
  induction post using List.reverseRecOn with
  | nil => rwa [List.append_nil] at h
  | append_singleton post e ih =>
    rw [← List.append_assoc] at h
    generalize ht : pre ++ post ++ [e] = t at h
    cases h with
    | nil => exact absurd ht (by simp)
    | snoc h he =>
      obtain ⟨rfl, -⟩ := List.append_inj' ht rfl
      exact ih h

/-- Every effect was allowed where it stands. -/
lemma allowed (h : Disciplined (pre ++ e :: post)) : Allowed pre e := by
  rw [← List.singleton_append, ← List.append_assoc] at h
  have h' := h.front
  generalize ht : pre ++ [e] = t at h'
  cases h' with
  | nil => exact absurd ht (by simp)
  | snoc _ he =>
    obtain ⟨rfl, heq⟩ := List.append_inj' ht rfl
    obtain rfl := List.singleton_inj.mp heq
    exact he

/-- Only what has been issued is released. -/
lemma issued_of_released (h : Disciplined t) (hr : .release r ∈ t) : Issued t r := by
  obtain ⟨pre, post, rfl⟩ := List.append_of_mem hr
  exact h.allowed.1.1.append _

/-- A resource is issued on behalf of one owner. -/
lemma owner_unique (h : Disciplined t) {owner owner' : Option ρ} (ho : .issue r owner ∈ t)
    (ho' : .issue r owner' ∈ t) : owner = owner' := by
  induction h with
  | nil => simp at ho
  | @snoc t e _ he ih =>
    rw [List.mem_append, List.mem_singleton] at ho ho'
    rcases ho with ho | rfl <;> rcases ho' with ho' | heq
    · exact ih ho ho'
    · subst heq
      exact absurd ⟨owner, ho⟩ he.1
    · exact absurd ⟨owner', ho'⟩ he.1
    · exact ((Effect.issue.inj heq).2).symm

/-- What is issued on behalf of a resource is released before it. -/
lemma released_before_owner (h : Disciplined (pre ++ .release r :: post))
    (hc : .issue c (some r) ∈ pre ++ .release r :: post) : .release c ∈ pre := by
  rcases List.mem_append.mp hc with hpre | hpost
  · exact h.allowed.2 c hpre
  · -- behind its release, nothing is issued on its behalf
    rw [List.mem_cons] at hpost
    rcases hpost with heq | hpost
    · exact absurd heq (by simp)
    · obtain ⟨mid, rest, rfl⟩ := List.append_of_mem hpost
      rw [← List.cons_append, ← List.append_assoc] at h
      exact absurd (by simp) (h.allowed.2 r rfl).2

/-- **Nothing is released twice.** -/
theorem count_release [DecidableEq ρ] (h : Disciplined t) (hr : .release r ∈ t) :
    t.count (.release r) = 1 := by
  induction h with
  | nil => simp at hr
  | @snoc t e _ he ih =>
    rw [List.count_append, List.count_singleton]
    by_cases hmem : .release r ∈ t
    · have hne : e ≠ .release r := by
        rintro rfl
        exact he.1.2 hmem
      rw [ih hmem, if_neg (by simpa using hne)]
    · rw [List.mem_append, List.mem_singleton] at hr
      rw [List.count_eq_zero_of_not_mem hmem, ← hr.resolve_left hmem]
      simp

end Disciplined

end GribCpp.Resources
