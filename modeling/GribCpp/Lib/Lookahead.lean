/-
# Scanners that look ahead only so far

What a scanner says of a position may depend on everything behind it.  Here it depends on a frame,
if one stands there, and else on a few letters only.  Then a scan of a list that is cut off finds
exactly those frames that a scan of the whole list finds and that the cut has left whole.
-/
import GribCpp.Lib.Framing

namespace GribCpp.Framing

variable {α : Type*}

/-- A frame is seen from its own letters, and that nothing stands at a position from the next
`ahead` letters; these are no more than the shortest frame has. -/
structure Scanner.LooksAhead (S : Scanner α) (ahead : ℕ) : Prop where
  le_minLen : ahead ≤ S.minLen
  found_iff : ∀ {s r : List α} {len : ℕ}, len ≤ s.length →
    (S.head (s ++ r) = .found len ↔ S.head s = .found len)
  skip_iff : ∀ {s r : List α}, ahead ≤ s.length →
    (S.head (s ++ r) = .skip ↔ S.head s = .skip)

variable {S : Scanner α} {buf r : List α} {pos start len ahead : ℕ}

/-- What a scan from a position finds: the first frame behind it. -/
lemma scan_drop_eq_found_iff :
    scan S (buf.drop pos) pos = .found start len ↔
      pos ≤ start ∧ start + len ≤ buf.length ∧ S.head (buf.drop start) = .found len ∧
        ∀ j, pos ≤ j → j < start → S.head (buf.drop j) = .skip := by
  constructor
  · intro h
    obtain ⟨hle, hhead, hlen, hbefore⟩ := scan_drop_eq_found h
    exact ⟨hle, hlen, hhead, hbefore⟩
  · rintro ⟨hle, hlen, hhead, hbefore⟩
    have hmin := (S.bounds hhead).1
    have hpos := S.minLen_pos
    refine scan_eq_found_iff.mpr ⟨start - pos, ?_, by omega, ?_, fun j hj => ?_⟩
    · rw [List.length_drop]
      omega
    · rwa [List.drop_drop, Nat.add_sub_cancel' hle]
    · rw [List.drop_drop]
      exact hbefore (pos + j) (by omega) (by omega)

/-- **The scan of a list that is cut off** finds the frames that are left whole. -/
theorem Scanner.LooksAhead.scan_iff (hS : S.LooksAhead ahead) :
    scan S (buf.drop pos) pos = .found start len ↔
      scan S ((buf ++ r).drop pos) pos = .found start len ∧ start + len ≤ buf.length := by
  rw [scan_drop_eq_found_iff, scan_drop_eq_found_iff]
  have hdrop : ∀ j ≤ buf.length, (buf ++ r).drop j = buf.drop j ++ r :=
    fun j hj => List.drop_append_of_le_length hj
  have hhead : start + len ≤ buf.length →
      (S.head ((buf ++ r).drop start) = .found len ↔ S.head (buf.drop start) = .found len) := by
    intro hlen
    rw [hdrop start (by omega)]
    exact hS.found_iff (by rw [List.length_drop]; omega)
  -- in front of a frame there are enough letters to see that nothing stands there
  have hskip : start + len ≤ buf.length → S.minLen ≤ len → ∀ j < start,
      (S.head ((buf ++ r).drop j) = .skip ↔ S.head (buf.drop j) = .skip) := by
    intro hlen hmin j hj
    have hle := hS.le_minLen
    rw [hdrop j (by omega)]
    exact hS.skip_iff (by rw [List.length_drop]; omega)
  constructor
  · rintro ⟨hle, hlen, hfound, hbefore⟩
    have hmin := (S.bounds hfound).1
    refine ⟨⟨hle, by rw [List.length_append]; omega, (hhead hlen).mpr hfound, ?_⟩, hlen⟩
    exact fun j hpj hj => (hskip hlen hmin j hj).mpr (hbefore j hpj hj)
  · rintro ⟨⟨hle, -, hfound, hbefore⟩, hlen⟩
    have hmin := (S.bounds hfound).1
    refine ⟨hle, hlen, (hhead hlen).mp hfound, ?_⟩
    exact fun j hpj hj => (hskip hlen hmin j hj).mp (hbefore j hpj hj)

/-- A frame that is left whole has its letters. -/
lemma Slice.of_append {f : Slice} (h : f.stop ≤ buf.length) (r : List α) :
    f.of (buf ++ r) = f.of buf := by
  have hlen : f.len ≤ (buf.drop f.start).length := by
    rw [List.length_drop]
    have := h
    rw [Slice.stop] at this
    omega
  by_cases hstart : f.start ≤ buf.length
  · rw [Slice.of, Slice.of, List.drop_append_of_le_length hstart,
      List.take_append_of_le_length hlen]
  · exact absurd h (by rw [Slice.stop]; omega)

end GribCpp.Framing
