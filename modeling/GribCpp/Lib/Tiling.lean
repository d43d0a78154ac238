/-
# Starting points that tile

A strictly increasing list of starting points cuts what lies behind the first of them into
half-open pieces: each piece reaches up to the next starting point, and the last piece has no
end.  Every position from the first starting point on lies in exactly one piece.
-/
import Mathlib

namespace GribCpp.Tiling

variable {α : Type*} [LinearOrder α]

/-- Position `x` lies in the piece with number `i`. -/
def InPiece (starts : List α) (i : ℕ) (x : α) : Prop :=
  ∃ a, starts[i]? = some a ∧ a ≤ x ∧ ∀ b, starts[i + 1]? = some b → x < b

variable {a : α} {starts : List α} {i : ℕ} {x : α}

@[simp] lemma not_inPiece_nil : ¬ InPiece ([] : List α) i x := by simp [InPiece]

@[simp] lemma inPiece_cons_succ : InPiece (a :: starts) (i + 1) x ↔ InPiece starts i x := by
  simp [InPiece]

lemma inPiece_cons_zero :
    InPiece (a :: starts) 0 x ↔ a ≤ x ∧ ∀ b, starts[0]? = some b → x < b := by
  simp [InPiece]

/-- No piece begins in front of the first starting point. -/
lemma InPiece.head_le (h : InPiece (a :: starts) i x) (hs : (a :: starts).Pairwise (· < ·)) :
    a ≤ x := by
  obtain ⟨c, hc, hle, -⟩ := h
  rw [List.pairwise_cons] at hs
  rcases List.mem_cons.mp (List.mem_of_getElem? hc) with rfl | hmem
  · exact hle
  · exact (hs.1 c hmem).le.trans hle

/-- **The pieces tile.**  Every position from the first starting point on lies in exactly one
piece. -/
theorem existsUnique_inPiece (hs : (a :: starts).Pairwise (· < ·)) (hx : a ≤ x) :
    ∃! i, InPiece (a :: starts) i x := by
  induction starts generalizing a with
  | nil =>
    refine ⟨0, inPiece_cons_zero.mpr ⟨hx, by simp⟩, ?_⟩
    rintro (_ | j) hj
    · rfl
    · exact absurd (inPiece_cons_succ.mp hj) not_inPiece_nil
  | cons b rest ih =>
    have hrest := (List.pairwise_cons.mp hs).2
    rcases lt_or_ge x b with hlt | hle
    · -- in front of the second starting point there is only the first piece
      refine ⟨0, inPiece_cons_zero.mpr ⟨hx, by simpa using hlt⟩, ?_⟩
      rintro (_ | j) hj
      · rfl
      · exact absurd ((inPiece_cons_succ.mp hj).head_le hrest) (not_le.mpr hlt)
    · obtain ⟨i, hi, huniq⟩ := ih hrest hle
      refine ⟨i + 1, inPiece_cons_succ.mpr hi, ?_⟩
      rintro (_ | j) hj
      · exact absurd ((inPiece_cons_zero.mp hj).2 b rfl) (not_lt.mpr hle)
      · rw [huniq j (inPiece_cons_succ.mp hj)]

end GribCpp.Tiling
