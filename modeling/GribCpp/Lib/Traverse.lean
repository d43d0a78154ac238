/-
# Traversals that stop at the first error

A traversal of a list applies a function that may fail to its elements, in order.  It succeeds
when all of them do, with their results in order, and otherwise fails as the first one does.
-/
import Mathlib

namespace GribCpp.Traverse

universe u v w

variable {α : Type u} {ε : Type v} {β : Type w} {f : α → Except ε β} {l : List α}

lemma mapM_cons_ok {a : α} {b : β} (h : f a = .ok b) :
    (a :: l).mapM f = (l.mapM f).map (b :: ·) := by
  rw [List.mapM_cons, h]
  cases l.mapM f <;> rfl

lemma mapM_cons_error {a : α} {e : ε} (h : f a = .error e) : (a :: l).mapM f = .error e := by
  rw [List.mapM_cons, h]
  rfl

/-- **Success.**  The results are those of the elements, in order. -/
theorem mapM_eq_ok_iff {bs : List β} :
    l.mapM f = .ok bs ↔ List.Forall₂ (fun a b => f a = .ok b) l bs := by
  induction l generalizing bs with
  | nil => cases bs <;> simp [pure, Except.pure]
  | cons a l ih =>
    cases ha : f a with
    | error e =>
      rw [mapM_cons_error ha, List.forall₂_cons_left_iff]
      simp [ha]
    | ok b =>
      rw [mapM_cons_ok ha, List.forall₂_cons_left_iff]
      simp only [← ih]
      cases l.mapM f <;> simp [ha, Except.map, eq_comm]

theorem exists_mapM_eq_ok_iff :
    (∃ bs, l.mapM f = .ok bs) ↔ ∀ a ∈ l, ∃ b, f a = .ok b := by
  induction l with
  | nil => simp [pure, Except.pure]
  | cons a l ih =>
    cases ha : f a with
    | error e =>
      rw [mapM_cons_error ha]
      simp [ha]
    | ok b =>
      rw [mapM_cons_ok ha, List.forall_mem_cons, ← ih]
      cases l.mapM f <;> simp [ha, Except.map]

/-- **Failure.**  The error is that of the first element that fails. -/
theorem mapM_eq_error {pre post : List α} {a : α} {e : ε}
    (hpre : ∀ x ∈ pre, ∃ b, f x = .ok b) (ha : f a = .error e) :
    (pre ++ a :: post).mapM f = .error e := by
  induction pre with
  | nil => exact mapM_cons_error ha
  | cons x pre ih =>
    obtain ⟨b, hb⟩ := hpre x (by simp)
    rw [List.cons_append, mapM_cons_ok hb, ih fun y hy => hpre y (by simp [hy])]
    rfl

/-- Two lists that match through some element at every place match through a list. -/
lemma exists_forall₂ {α β γ : Type*} {R : α → γ → Prop} {S : β → γ → Prop} {as : List α}
    {bs : List β} (h : List.Forall₂ (fun a b => ∃ c, R a c ∧ S b c) as bs) :
    ∃ cs, List.Forall₂ R as cs ∧ List.Forall₂ S bs cs := by
  induction h with
  | nil => exact ⟨[], .nil, .nil⟩
  | cons hab _ ih =>
    obtain ⟨c, hR, hS⟩ := hab
    obtain ⟨cs, hRs, hSs⟩ := ih
    exact ⟨c :: cs, .cons hR hRs, .cons hS hSs⟩

end GribCpp.Traverse
