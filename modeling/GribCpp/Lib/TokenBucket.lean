/-
# The ideal token bucket

A bucket holds a credit, a number of an arbitrary ordered field `K`.  The credit grows at
a constant rate up to a capacity; a take succeeds when at least one whole unit is there
and removes it, a peek answers the whole part of the credit, and a reset sets the credit
back to an initial value.  A level is the credit at the instant of the last request.

The main results bound the number of successful takes in a run without resets:
`takes_le` from the start of the run, and `takes_window_le` in any window of time.  Both
are counted on the trace of the run, and need only that the instants of the requests
never decrease.
-/
import GribCpp.Lib.Machine

namespace GribCpp.TokenBucket

open Machine

variable {K : Type*}

/-- A bucket: its capacity, the credit earned per unit of time, and the credit after a
reset. -/
structure Bucket (K : Type*) where
  capacity : K
  rate : K
  initial : K

/-- The credit of a bucket at the instant of the last request. -/
@[ext] structure Level (K : Type*) where
  credit : K
  since : K

/-- The requests, each with its instant. -/
inductive Request (K : Type*) where
  | take (t : K)
  | peek (t : K)
  | reset (t : K)

/-- The instant of a request. -/
def Request.time : Request K → K
  | .take t | .peek t | .reset t => t

/-- The answers: whether a take succeeded, or the whole part of the credit. -/
inductive Answer where
  | taken (ok : Bool)
  | available (n : ℤ)
  | reset
deriving DecidableEq, Repr

/-- The requests of a run without resets. -/
def NoReset (rs : List (Request K)) : Prop := ∀ r ∈ rs, ∀ t, r ≠ .reset t

section Count

variable [LinearOrder K] {s t u : K}

/-- The guard of a run: no request comes before the instant of the one before it. -/
def NotBefore (l : Level K) (r : Request K) : Prop := l.since ≤ r.time

/-- The number of takes that succeed at an instant of the window `[s, t]`. -/
def takesIn (s t : K) (tr : List (Request K × Answer)) : ℕ :=
  tr.countP fun p => p.2 = .taken true ∧ s ≤ p.1.time ∧ p.1.time ≤ t

@[simp] lemma takesIn_nil : takesIn s t ([] : List (Request K × Answer)) = 0 := rfl

lemma takesIn_cons (p : Request K × Answer) (tr : List (Request K × Answer)) :
    takesIn s t (p :: tr)
      = takesIn s t tr + if p.2 = .taken true ∧ s ≤ p.1.time ∧ p.1.time ≤ t then 1 else 0 := by
  simp [takesIn, List.countP_cons]

end Count

variable [Field K] [LinearOrder K] (b : Bucket K)

/-- The level at a later instant, when nothing is taken in between. -/
def Bucket.advance (l : Level K) (t : K) : Level K :=
  ⟨min b.capacity (l.credit + b.rate * (t - l.since)), t⟩

variable {b} {l : Level K} {r : Request K} {rs : List (Request K)} {s t u : K}

@[simp] lemma Bucket.advance_since : (b.advance l t).since = t := rfl

lemma Bucket.advance_credit :
    (b.advance l t).credit = min b.capacity (l.credit + b.rate * (t - l.since)) := rfl

lemma Bucket.advance_credit_le : (b.advance l t).credit ≤ b.capacity := min_le_left _ _

lemma Bucket.advance_credit_le_add :
    (b.advance l t).credit ≤ l.credit + b.rate * (t - l.since) := min_le_right _ _

variable [FloorRing K]

/-- One request. -/
def Bucket.step (b : Bucket K) (l : Level K) : Request K → Answer × Level K
  | .take t =>
    if 1 ≤ (b.advance l t).credit then
      (.taken true, { b.advance l t with credit := (b.advance l t).credit - 1 })
    else (.taken false, b.advance l t)
  | .peek t => (.available ⌊(b.advance l t).credit⌋, b.advance l t)
  | .reset t => (.reset, ⟨b.initial, t⟩)

@[simp] lemma Bucket.step_since : (b.step l r).2.since = r.time := by
  cases r with
  | take t => rw [Bucket.step]; split <;> rfl
  | peek t => rfl
  | reset t => rfl

/-- What one request other than a reset does to the credit: a successful take removes a
unit of it. -/
lemma Bucket.step_credit_add (hr : ∀ t, r ≠ .reset t) :
    (b.step l r).2.credit + (if (b.step l r).1 = .taken true then 1 else 0)
      = (b.advance l r.time).credit := by
  cases r with
  | take t =>
    rw [Bucket.step]
    split
    · simp [Request.time]
    · simp [Request.time]
  | peek t => simp [Bucket.step, Request.time]
  | reset t => exact absurd rfl (hr t)

/-- A request after which the level is what it would be without it: a peek, or a take that
fails. -/
def Silent (b : Bucket K) (l : Level K) : Request K → Prop
  | .take t => (b.step l (.take t)).1 = .taken false
  | .peek _ => True
  | .reset _ => False

lemma Silent.step_eq (h : Silent b l r) : (b.step l r).2 = b.advance l r.time := by
  cases r with
  | take t =>
    simp only [Silent, Bucket.step] at h ⊢
    split at h
    · exact absurd h (by simp)
    · rename_i hlt
      rw [if_neg hlt]
      rfl
  | peek t => rfl
  | reset t => exact h.elim

variable [IsStrictOrderedRing K]

/-! ## Letting time pass -/

omit [FloorRing K] in
/-- Letting time pass in two steps is letting it pass in one. -/
lemma Bucket.advance_advance (hrate : 0 ≤ b.rate) (htu : t ≤ u) :
    b.advance (b.advance l t) u = b.advance l u := by
  have hgrow : 0 ≤ b.rate * (u - t) := mul_nonneg hrate (sub_nonneg.mpr htu)
  have hsum : l.credit + b.rate * (t - l.since) + b.rate * (u - t)
      = l.credit + b.rate * (u - l.since) := by ring
  ext
  · rw [advance_credit, advance_credit, advance_since, ← min_add_add_right, hsum, ← min_assoc,
      min_eq_left (by linarith : b.capacity ≤ b.capacity + b.rate * (u - t)), ← advance_credit]
  · rfl

/-- A request is answered alike before and after time is let pass up to its instant. -/
lemma Bucket.step_advance (hrate : 0 ≤ b.rate) (hr : t ≤ r.time) :
    b.step (b.advance l t) r = b.step l r := by
  cases r with
  | take u => simp only [Bucket.step, advance_advance hrate (show t ≤ u from hr)]
  | peek u => simp only [Bucket.step, advance_advance hrate (show t ≤ u from hr)]
  | reset u => rfl

/-- So is a whole run whose first request does not come before that instant. -/
lemma Bucket.answers_advance (hrate : 0 ≤ b.rate) (hrs : ∀ r ∈ rs.head?, t ≤ r.time) :
    answers b.step (b.advance l t) rs = answers b.step l rs := by
  cases rs with
  | nil => rfl
  | cons r rs =>
    rw [answers_cons, answers_cons, step_advance hrate (hrs r (by simp))]

/-- **A silent request changes no later answer.** -/
theorem answers_of_silent (hrate : 0 ≤ b.rate) (h : Silent b l r)
    (hrs : ∀ r' ∈ rs.head?, r.time ≤ r'.time) :
    answers b.step (b.step l r).2 rs = answers b.step l rs := by
  rw [h.step_eq, Bucket.answers_advance hrate hrs]

omit [IsStrictOrderedRing K] in
/-- A run that is in order from one instant on is in order from any earlier one. -/
lemma admissible_of_since_le {v w : Level K} (hvw : v.since ≤ w.since)
    (h : Admissible NotBefore b.step w rs) : Admissible NotBefore b.step v rs := by
  induction rs generalizing v w with
  | nil => trivial
  | cons r rs ih =>
    refine ⟨hvw.trans h.1, ih ?_ h.2⟩
    rw [Bucket.step_since, Bucket.step_since]

omit [IsStrictOrderedRing K] in
lemma since_final_le (hl : l.since ≤ t) (hrs : ∀ r ∈ rs, r.time ≤ t) :
    (final b.step l rs).since ≤ t := by
  induction rs generalizing l with
  | nil => exact hl
  | cons r rs ih =>
    refine ih ?_ (fun q hq => hrs q (by simp [hq]))
    rw [Bucket.step_since]
    exact hrs r (by simp)

/-! ## The credit stays between zero and the capacity -/

/-- The level of a bucket in use. -/
def Filled (b : Bucket K) (l : Level K) : Prop := 0 ≤ l.credit ∧ l.credit ≤ b.capacity

omit [FloorRing K] in
lemma Filled.advance (hl : Filled b l) (hrate : 0 ≤ b.rate) (ht : l.since ≤ t) :
    Filled b (b.advance l t) := by
  have hgrow : 0 ≤ b.rate * (t - l.since) := mul_nonneg hrate (sub_nonneg.mpr ht)
  exact ⟨le_min (hl.1.trans hl.2) (by linarith [hl.1]), Bucket.advance_credit_le⟩

lemma Filled.step (hl : Filled b l) (hrate : 0 ≤ b.rate)
    (hinit : 0 ≤ b.initial ∧ b.initial ≤ b.capacity) (hr : NotBefore l r) :
    Filled b (b.step l r).2 := by
  cases r with
  | take t =>
    have hadv := hl.advance hrate (show l.since ≤ t from hr)
    rw [Bucket.step]
    split
    · rename_i hone
      exact ⟨by simpa using hone, by simpa using hadv.2.trans (by linarith)⟩
    · exact hadv
  | peek t => exact hl.advance hrate hr
  | reset t => exact hinit

/-! ## Counting the successful takes -/

omit [IsStrictOrderedRing K] in
/-- No take succeeds before the run begins. -/
lemma takesIn_eq_zero (hok : Admissible NotBefore b.step l rs) (ht : t < l.since) :
    takesIn s t (trace b.step l rs) = 0 := by
  induction rs generalizing l with
  | nil => rfl
  | cons r rs ih =>
    obtain ⟨hr, hrs⟩ := hok
    have hlate : t < r.time := ht.trans_le hr
    rw [trace_cons, takesIn_cons, ih hrs (by rwa [Bucket.step_since]),
      if_neg (fun h => absurd h.2.2 (not_le.mpr hlate))]

/-- **The bound from the start of a run**: the credit there, and what is earned since. -/
theorem takes_le (hrate : 0 ≤ b.rate) (hinit : 0 ≤ b.initial ∧ b.initial ≤ b.capacity)
    (hl : Filled b l) (hok : Admissible NotBefore b.step l rs) (hno : NoReset rs)
    (ht : l.since ≤ t) :
    (takesIn s t (trace b.step l rs) : K) ≤ l.credit + b.rate * (t - l.since) := by
  induction rs generalizing l with
  | nil =>
    have hgrow : 0 ≤ b.rate * (t - l.since) := mul_nonneg hrate (sub_nonneg.mpr ht)
    simpa [takesIn_nil] using by linarith [hl.1]
  | cons r rs ih =>
    obtain ⟨hr, hrs⟩ := hok
    have hr' : ∀ t, r ≠ .reset t := hno r (by simp)
    have hno' : NoReset rs := fun q hq => hno q (by simp [hq])
    have hcredit := Bucket.step_credit_add (b := b) (l := l) hr'
    have hadv := Bucket.advance_credit_le_add (b := b) (l := l) (t := r.time)
    have hnext : (b.step l r).2.since = r.time := Bucket.step_since
    rw [trace_cons, takesIn_cons]
    rcases le_or_gt r.time t with hrt | hrt
    · -- what the request leaves of the credit has to pay for the rest of the run
      have hrest := ih (hl.step hrate hinit hr) hrs hno' (by rwa [hnext])
      have hone : (if (b.step l r).1 = .taken true ∧ s ≤ r.time ∧ r.time ≤ t then (1 : K) else 0)
          ≤ if (b.step l r).1 = .taken true then 1 else 0 := by
        split_ifs with h1 h2 h2
        · exact le_refl 1
        · exact absurd h1.1 h2
        · exact zero_le_one
        · exact le_refl 0
      have hsum : b.rate * (r.time - l.since) + b.rate * (t - r.time)
          = b.rate * (t - l.since) := by ring
      rw [hnext] at hrest
      push_cast
      linarith
    · -- the run has left the window
      have hzero := takesIn_eq_zero (s := s) hrs (t := t) (by rwa [hnext])
      have hgrow : 0 ≤ b.rate * (t - l.since) := mul_nonneg hrate (sub_nonneg.mpr ht)
      rw [hzero, if_neg (fun h => absurd h.2.2 (not_le.mpr hrt))]
      simpa using by linarith [hl.1]

/-- The bound in a window that begins after the last request. -/
lemma takes_window_le_of_since_le (hrate : 0 ≤ b.rate)
    (hinit : 0 ≤ b.initial ∧ b.initial ≤ b.capacity) (hl : Filled b l)
    (hok : Admissible NotBefore b.step l rs) (hno : NoReset rs) (hs : l.since ≤ s) (hst : s ≤ t) :
    (takesIn s t (trace b.step l rs) : K) ≤ (b.advance l s).credit + b.rate * (t - s) := by
  induction rs generalizing l with
  | nil =>
    have hgrow : 0 ≤ b.rate * (t - s) := mul_nonneg hrate (sub_nonneg.mpr hst)
    have hadv := (hl.advance hrate hs).1
    simpa [takesIn_nil] using by linarith
  | cons r rs ih =>
    obtain ⟨hr, hrs⟩ := hok
    have hr' : ∀ t, r ≠ .reset t := hno r (by simp)
    have hno' : NoReset rs := fun q hq => hno q (by simp [hq])
    have hnext : (b.step l r).2.since = r.time := Bucket.step_since
    rcases le_or_gt s r.time with hsr | hsr
    · -- the first request of the window: the run goes on from the level at `s`
      have hstep := Bucket.step_advance (b := b) (l := l) hrate hsr
      have hrun : trace b.step l (r :: rs) = trace b.step (b.advance l s) (r :: rs) := by
        rw [trace_cons, trace_cons, hstep]
      have hok' : Admissible NotBefore b.step (b.advance l s) (r :: rs) :=
        ⟨hsr, by rwa [hstep]⟩
      rw [hrun]
      exact takes_le hrate hinit (hl.advance hrate hs) hok' hno hst
    · -- before the window: nothing is counted, and the level at `s` does not rise
      have hrest := ih (hl.step hrate hinit hr) hrs hno' (by rw [hnext]; exact hsr.le)
      have hcredit := Bucket.step_credit_add (b := b) (l := l) hr'
      have hless : (b.step l r).2.credit ≤ (b.advance l r.time).credit := by
        have : (0 : K) ≤ if (b.step l r).1 = .taken true then 1 else 0 := by split_ifs <;> simp
        linarith
      have hmono : (b.advance (b.step l r).2 s).credit ≤ (b.advance l s).credit := by
        rw [← Bucket.advance_advance (l := l) hrate hsr.le, Bucket.advance_credit, hnext,
          Bucket.advance_credit (l := b.advance l r.time), Bucket.advance_since]
        exact min_le_min_left _ (by linarith)
      rw [trace_cons, takesIn_cons, if_neg (fun h => absurd h.2.1 (not_le.mpr hsr))]
      simp only [Nat.add_zero]
      linarith

/-- **The bound in any window of a run**: the capacity, and what is earned in the window. -/
theorem takes_window_le (hrate : 0 ≤ b.rate) (hinit : 0 ≤ b.initial ∧ b.initial ≤ b.capacity)
    (hl : Filled b l) (hok : Admissible NotBefore b.step l rs) (hno : NoReset rs)
    (hst : s ≤ t) :
    (takesIn s t (trace b.step l rs) : K) ≤ b.capacity + b.rate * (t - s) := by
  rcases le_or_gt l.since s with hs | hs
  · have h := takes_window_le_of_since_le hrate hinit hl hok hno hs hst
    linarith [Bucket.advance_credit_le (b := b) (l := l) (t := s)]
  · rcases le_or_gt l.since t with ht | ht
    · have h := takes_le (s := s) hrate hinit hl hok hno ht
      have hgrow : b.rate * (t - l.since) ≤ b.rate * (t - s) :=
        mul_le_mul_of_nonneg_left (by linarith) hrate
      linarith [hl.2]
    · have hgrow : 0 ≤ b.rate * (t - s) := mul_nonneg hrate (sub_nonneg.mpr hst)
      rw [takesIn_eq_zero hok ht]
      simpa using by linarith [hl.1, hl.2]

end GribCpp.TokenBucket
