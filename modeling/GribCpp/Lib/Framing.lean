/-
# Scanning a buffer for self-delimiting frames

At every position of a buffer a scanner says what stands there: nothing, a frame of some
length, or something that should have been a frame and is none.  A scan goes to the first
position where the answer is not "nothing".  A cursor that always moves behind the frame
it has found traverses the buffer; `Traversed` collects what such a traversal guarantees,
and is kept by every further frame.
-/
import Mathlib

namespace GribCpp.Framing

/-- What stands at the front of a list. -/
inductive Head where
  | skip
  | found (len : ℕ)
  | invalid
deriving DecidableEq, Repr

/-- A scanner over an alphabet; every frame lies inside the list it is found in, and has
at least `minLen` letters. -/
structure Scanner (α : Type*) where
  head : List α → Head
  minLen : ℕ
  minLen_pos : 0 < minLen
  bounds : ∀ {s len}, head s = .found len → minLen ≤ len ∧ len ≤ s.length

/-- The end of a scan: a frame with its position, the end of the list, or a position that
should have held a frame. -/
inductive Outcome where
  | found (start len : ℕ)
  | atEnd
  | invalid
deriving DecidableEq, Repr

variable {α : Type*} (S : Scanner α)

/-- The scan of a list that stands at position `i` of a buffer. -/
def scan : List α → ℕ → Outcome
  | [], _ => .atEnd
  | a :: s, i =>
    match S.head (a :: s) with
    | .skip => scan s (i + 1)
    | .found len => .found i len
    | .invalid => .invalid

/-- The end of a scan that stops at a position with the given head. -/
def Head.outcome (start : ℕ) : Head → Outcome
  | .skip => .atEnd
  | .found len => .found start len
  | .invalid => .invalid

section Scan

variable {S} {s : List α} {i start len : ℕ}

/-- A scan stops at the first position at which something stands. -/
lemma scan_of_first {k : ℕ} (hk : k < s.length) (hstop : S.head (s.drop k) ≠ .skip)
    (hbefore : ∀ j < k, S.head (s.drop j) = .skip) :
    scan S s i = (S.head (s.drop k)).outcome (i + k) := by
  induction k generalizing s i with
  | zero =>
    cases s with
    | nil => exact absurd hk (by simp)
    | cons a s =>
      rw [List.drop_zero] at hstop ⊢
      rw [scan]
      cases hhead : S.head (a :: s) with
      | skip => exact absurd hhead hstop
      | found len => rfl
      | invalid => rfl
  | succ k ih =>
    cases s with
    | nil => exact absurd hk (by simp)
    | cons a s =>
      -- nothing stands in front, so that the scan goes on behind the first letter
      have hskip : S.head (a :: s) = .skip := hbefore 0 (by omega)
      have hrest := ih (i := i + 1) (by simpa using hk) hstop
        fun j hj => hbefore (j + 1) (by omega)
      simp only [scan, hskip]
      rw [hrest, List.drop_succ_cons, Nat.add_assoc, Nat.add_comm 1 k]

/-- A scan of a list at whose front something stands. -/
lemma scan_of_head (hpos : 0 < s.length) (hstop : S.head s ≠ .skip) :
    scan S s i = (S.head s).outcome i :=
  scan_of_first (k := 0) hpos hstop (by omega)

/-- A scan of a list in which nothing stands. -/
lemma scan_of_skip (h : ∀ j < s.length, S.head (s.drop j) = .skip) : scan S s i = .atEnd := by
  induction s generalizing i with
  | nil => rfl
  | cons a s ih =>
    have hskip : S.head (a :: s) = .skip := h 0 (by simp)
    simp only [scan, hskip]
    exact ih fun j hj => h (j + 1) (by simpa using hj)

/-- Nothing stands in a list, or there is a first position at which something does. -/
lemma skip_or_first (S : Scanner α) (s : List α) :
    (∀ j < s.length, S.head (s.drop j) = .skip) ∨
      ∃ k < s.length, S.head (s.drop k) ≠ .skip ∧ ∀ j < k, S.head (s.drop j) = .skip := by
  by_cases hex : ∃ k, k < s.length ∧ S.head (s.drop k) ≠ .skip
  · obtain ⟨hlt, hstop⟩ := Nat.find_spec hex
    refine Or.inr ⟨Nat.find hex, hlt, hstop, fun j hj => ?_⟩
    by_contra hne
    exact Nat.find_min hex hj ⟨hj.trans hlt, hne⟩
  · left
    intro j hj
    by_contra hne
    exact hex ⟨j, hj, hne⟩

lemma scan_eq_found_iff : scan S s i = .found start len ↔
    ∃ k < s.length, start = i + k ∧ S.head (s.drop k) = .found len ∧
      ∀ j < k, S.head (s.drop j) = .skip := by
  constructor
  · intro h
    rcases skip_or_first S s with hall | ⟨k, hk, hstop, hbefore⟩
    · rw [scan_of_skip hall] at h
      exact absurd h (by simp)
    · rw [scan_of_first hk hstop hbefore] at h
      cases hhead : S.head (s.drop k) with
      | skip => exact absurd hhead hstop
      | found len' =>
        rw [hhead] at h
        obtain ⟨rfl, rfl⟩ := Outcome.found.inj h
        exact ⟨k, hk, rfl, hhead, hbefore⟩
      | invalid =>
        rw [hhead] at h
        exact absurd h (by simp [Head.outcome])
  · rintro ⟨k, hk, rfl, hfound, hbefore⟩
    rw [scan_of_first hk (by simp [hfound]) hbefore, hfound]
    rfl

lemma scan_eq_atEnd_iff : scan S s i = .atEnd ↔ ∀ j < s.length, S.head (s.drop j) = .skip := by
  constructor
  · intro h
    rcases skip_or_first S s with hall | ⟨k, hk, hstop, hbefore⟩
    · exact hall
    · rw [scan_of_first hk hstop hbefore] at h
      cases hhead : S.head (s.drop k) with
      | skip => exact absurd hhead hstop
      | found len | invalid =>
        rw [hhead] at h
        exact absurd h (by simp [Head.outcome])
  · exact scan_of_skip

end Scan

/-! ## Traversals -/

/-- A part of a buffer. -/
structure Slice where
  start : ℕ
  len : ℕ
deriving DecidableEq, Repr

namespace Slice

/-- The position behind the slice. -/
def stop (f : Slice) : ℕ := f.start + f.len

/-- The contents of the slice. -/
def of (f : Slice) (buf : List α) : List α := (buf.drop f.start).take f.len

/-- The position lies in the slice. -/
def Covers (f : Slice) (j : ℕ) : Prop := f.start ≤ j ∧ j < f.stop

end Slice

/-- The frames `fs` have been found in the buffer up to the position `pos`. -/
structure Traversed (buf : List α) (fs : List Slice) (pos : ℕ) : Prop where
  le_length : pos ≤ buf.length
  frames : ∀ f ∈ fs, S.head (buf.drop f.start) = .found f.len
  increasing : fs.Pairwise fun f g => f.stop ≤ g.start
  stop_le : ∀ f ∈ fs, f.stop ≤ pos
  gaps : ∀ j < pos, (∀ f ∈ fs, ¬ f.Covers j) → S.head (buf.drop j) = .skip
  count : fs.length * S.minLen ≤ pos

section Traversed

variable {S} {buf : List α} {fs : List Slice} {pos start len : ℕ}

lemma Traversed.nil (buf : List α) : Traversed S buf [] 0 where
  le_length := Nat.zero_le _
  frames := by simp
  increasing := List.Pairwise.nil
  stop_le := by simp
  gaps := by omega
  count := by simp

/-- What a scan from a position finds in the buffer. -/
lemma scan_drop_eq_found (h : scan S (buf.drop pos) pos = .found start len) :
    pos ≤ start ∧ S.head (buf.drop start) = .found len ∧ start + len ≤ buf.length ∧
      ∀ j, pos ≤ j → j < start → S.head (buf.drop j) = .skip := by
  obtain ⟨k, hk, rfl, hfound, hbefore⟩ := scan_eq_found_iff.mp h
  rw [List.drop_drop] at hfound
  have hlen := (S.bounds hfound).2
  rw [List.length_drop] at hk hlen
  refine ⟨by omega, hfound, by omega, ?_⟩
  intro j hpj hj
  have hskip := hbefore (j - pos) (by omega)
  rwa [List.drop_drop, Nat.add_sub_cancel' hpj] at hskip

lemma scan_drop_eq_atEnd (h : scan S (buf.drop pos) pos = .atEnd) {j : ℕ} (hpj : pos ≤ j)
    (hj : j < buf.length) : S.head (buf.drop j) = .skip := by
  have hskip := scan_eq_atEnd_iff.mp h (j - pos) (by rw [List.length_drop]; omega)
  rwa [List.drop_drop, Nat.add_sub_cancel' hpj] at hskip

/-- **One more frame.**  A scan from the end of a traversal extends it. -/
theorem Traversed.found (hT : Traversed S buf fs pos)
    (h : scan S (buf.drop pos) pos = .found start len) :
    Traversed S buf (fs ++ [⟨start, len⟩]) (start + len) := by
  obtain ⟨hle, hhead, hlen, hbefore⟩ := scan_drop_eq_found h
  have hmin := (S.bounds hhead).1
  refine ⟨hlen, ?_, ?_, ?_, ?_, ?_⟩
  · intro f hf
    rw [List.mem_append, List.mem_singleton] at hf
    rcases hf with hf | rfl
    · exact hT.frames f hf
    · exact hhead
  · rw [List.pairwise_append]
    refine ⟨hT.increasing, List.pairwise_singleton _ _, ?_⟩
    intro f hf g hg
    obtain rfl := List.mem_singleton.mp hg
    exact (hT.stop_le f hf).trans hle
  · intro f hf
    rw [List.mem_append, List.mem_singleton] at hf
    rcases hf with hf | rfl
    · have := hT.stop_le f hf
      omega
    · exact le_refl _
  · intro j hj hout
    by_cases hpj : pos ≤ j
    · -- behind the old frames: in front of the new one, as it does not cover `j`
      have hnew := hout ⟨start, len⟩ (by simp)
      simp only [Slice.Covers, Slice.stop] at hnew
      exact hbefore j hpj (by omega)
    · exact hT.gaps j (by omega) fun f hf => hout f (by simp [hf])
  · have := hT.count
    rw [List.length_append, List.length_singleton, Nat.add_mul, Nat.one_mul]
    omega

/-- A frame behind a gap in which nothing stands. -/
lemma scan_gap {g m r : List α} {i : ℕ}
    (hg : ∀ j < g.length, S.head ((g ++ (m ++ r)).drop j) = .skip)
    (hm : S.head (m ++ r) = .found m.length) :
    scan S (g ++ (m ++ r)) i = .found (i + g.length) m.length := by
  have hpos := (S.bounds hm).1
  have hmin := S.minLen_pos
  have hlt : g.length < (g ++ (m ++ r)).length := by
    simp only [List.length_append]
    omega
  have hstop : S.head ((g ++ (m ++ r)).drop g.length) = .found m.length := by
    rwa [List.drop_left]
  have hne : S.head ((g ++ (m ++ r)).drop g.length) ≠ .skip := by
    rw [hstop]
    simp
  rw [scan_of_first hlt hne hg, hstop]
  rfl

end Traversed

end GribCpp.Framing
