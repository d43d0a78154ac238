/-
# What the windows leave of a bucket

Every window of time that ends now bounds the takes in it, and so does the time since the
start of the run.  The credit of a bucket is the least of what these bounds leave: none of
them is exceeded by the takes together with the credit, and one of them is met.  A take
therefore fails only when it would exceed one of the bounds.
-/
import GribCpp.Lib.TokenBucket

namespace GribCpp.TokenBucket

open Machine

variable {K : Type*} [Field K] [LinearOrder K] {b : Bucket K} {l : Level K}
  {r : Request K} {rs : List (Request K)} {s s' t : K}

variable [FloorRing K]

/-- A request other than a reset never gains credit. -/
lemma Bucket.step_credit_le [IsStrictOrderedRing K] (hr : ∀ t, r ≠ .reset t) :
    (b.step l r).2.credit ≤ (b.advance l r.time).credit := by
  have hcredit := Bucket.step_credit_add (b := b) (l := l) hr
  have hnonneg : (0 : K) ≤ if (b.step l r).1 = .taken true then 1 else 0 := by
    split_ifs <;> simp
  linarith

/-- All takes of a run count from its start on, or from any earlier instant. -/
lemma takesIn_of_le_since (hok : Admissible NotBefore b.step l rs) (hs : s ≤ l.since)
    (hs' : s' ≤ l.since) :
    takesIn s t (trace b.step l rs) = takesIn s' t (trace b.step l rs) := by
  induction rs generalizing l with
  | nil => rfl
  | cons r rs ih =>
    obtain ⟨hr, hrs⟩ := hok
    have hnext : l.since ≤ (b.step l r).2.since := by
      rw [Bucket.step_since]
      exact hr
    rw [trace_cons, takesIn_cons, takesIn_cons, ih hrs (hs.trans hnext) (hs'.trans hnext)]
    simp [hs.trans hr, hs'.trans hr]

variable [IsStrictOrderedRing K]

/-! ## No bound is exceeded -/

/-- The takes of a run and the credit that is left come out of the credit at its start. -/
lemma takes_add_credit_le (hok : Admissible NotBefore b.step l rs) (hno : NoReset rs)
    (hrs : ∀ r ∈ rs, r.time ≤ t) :
    (takesIn s t (trace b.step l rs) : K) + (b.advance (final b.step l rs) t).credit
      ≤ l.credit + b.rate * (t - l.since) := by
  induction rs generalizing l with
  | nil => simpa using Bucket.advance_credit_le_add
  | cons r rs ih =>
    obtain ⟨-, hok'⟩ := hok
    have hrest := ih hok' (fun q hq => hno q (by simp [hq])) fun q hq => hrs q (by simp [hq])
    have hcredit := Bucket.step_credit_add (b := b) (l := l) (hno r (by simp))
    have hadv := Bucket.advance_credit_le_add (b := b) (l := l) (t := r.time)
    have hone : (if (b.step l r).1 = .taken true ∧ s ≤ r.time ∧ r.time ≤ t then (1 : K) else 0)
        ≤ if (b.step l r).1 = .taken true then 1 else 0 := by
      split_ifs with h1 h2 h2
      · exact le_refl 1
      · exact absurd h1.1 h2
      · exact zero_le_one
      · exact le_refl 0
    have hsum : b.rate * (r.time - l.since) + b.rate * (t - r.time)
        = b.rate * (t - l.since) := by ring
    rw [Bucket.step_since] at hrest
    rw [trace_cons, takesIn_cons, final_cons]
    push_cast
    linarith

/-- The takes in a window and the credit that is left come out of the credit at its start. -/
lemma takes_window_add_credit_le (hrate : 0 ≤ b.rate) (hok : Admissible NotBefore b.step l rs)
    (hno : NoReset rs) (hrs : ∀ r ∈ rs, r.time ≤ t) (hs : l.since ≤ s) (hst : s ≤ t) :
    (takesIn s t (trace b.step l rs) : K) + (b.advance (final b.step l rs) t).credit
      ≤ (b.advance l s).credit + b.rate * (t - s) := by
  induction rs generalizing l with
  | nil =>
    have h := Bucket.advance_credit_le_add (b := b) (l := b.advance l s) (t := t)
    rw [Bucket.advance_advance hrate hst] at h
    simpa using h
  | cons r rs ih =>
    have hr' := hno r (by simp)
    rcases le_or_gt s r.time with hsr | hsr
    · -- the first request of the window: the run goes on from the level at `s`
      have hstep := Bucket.step_advance (b := b) (l := l) hrate hsr
      have hok' : Admissible NotBefore b.step (b.advance l s) (r :: rs) :=
        ⟨hsr, by rw [hstep]; exact hok.2⟩
      have h := takes_add_credit_le (s := s) hok' hno hrs
      rwa [trace_cons, final_cons, hstep, ← trace_cons, ← final_cons] at h
    · -- before the window: nothing is counted, and the level at `s` does not rise
      have hnext : (b.step l r).2.since = r.time := Bucket.step_since
      have hrest := ih hok.2 (fun q hq => hno q (by simp [hq])) (fun q hq => hrs q (by simp [hq]))
        (by rw [hnext]; exact hsr.le)
      have hmono : (b.advance (b.step l r).2 s).credit ≤ (b.advance l s).credit := by
        have hless := Bucket.step_credit_le (b := b) (l := l) hr'
        rw [← Bucket.advance_advance (l := l) hrate hsr.le, Bucket.advance_credit, hnext,
          Bucket.advance_credit (l := b.advance l r.time), Bucket.advance_since]
        exact min_le_min_left _ (by linarith)
      rw [trace_cons, takesIn_cons, if_neg (fun h => absurd h.2.1 (not_le.mpr hsr)), final_cons,
        Nat.add_zero]
      exact hrest.trans (by linarith)

/-! ## One bound is met -/

/-- **The credit is what one of the bounds leaves**: that of the time since the start of the run,
or that of a window from a request on, or of the empty window. -/
lemma exists_bound_met (hok : Admissible NotBefore b.step l rs) (hno : NoReset rs)
    (hrs : ∀ r ∈ rs, r.time ≤ t) (ht : l.since ≤ t) :
    l.credit + b.rate * (t - l.since)
        ≤ takesIn l.since t (trace b.step l rs) + (b.advance (final b.step l rs) t).credit ∨
      ∃ s, (s = t ∨ ∃ r ∈ rs, s = r.time) ∧ l.since ≤ s ∧ s ≤ t ∧
        b.capacity + b.rate * (t - s)
          ≤ takesIn s t (trace b.step l rs) + (b.advance (final b.step l rs) t).credit := by
  induction rs generalizing l with
  | nil =>
    rcases min_cases b.capacity (l.credit + b.rate * (t - l.since)) with ⟨hmin, -⟩ | ⟨hmin, -⟩
    · refine Or.inr ⟨t, Or.inl rfl, ht, le_refl t, ?_⟩
      rw [trace_nil, takesIn_nil, final_nil, Bucket.advance_credit, hmin]
      simp
    · left
      rw [trace_nil, takesIn_nil, final_nil, Bucket.advance_credit, hmin]
      simp
  | cons r rs ih =>
    obtain ⟨hr, hok'⟩ := hok
    have hnext : (b.step l r).2.since = r.time := Bucket.step_since
    have hrt : r.time ≤ t := hrs r (by simp)
    have hcredit := Bucket.step_credit_add (b := b) (l := l) (hno r (by simp))
    -- the first request is counted in every window that begins no later
    have hcount : ∀ {a : K}, a ≤ r.time → (takesIn a t (trace b.step l (r :: rs)) : K)
        = takesIn a t (trace b.step (b.step l r).2 rs)
          + if (b.step l r).1 = .taken true then 1 else 0 := by
      intro a ha
      rw [trace_cons, takesIn_cons]
      simp [ha, hrt]
    rcases ih hok' (fun q hq => hno q (by simp [hq])) (fun q hq => hrs q (by simp [hq]))
      (by rwa [hnext]) with hstart | ⟨s, hs, hle, hst, hmet⟩
    · rw [hnext] at hstart
      rw [Bucket.advance_credit] at hcredit
      rcases min_cases b.capacity (l.credit + b.rate * (r.time - l.since)) with
        ⟨hmin, -⟩ | ⟨hmin, -⟩
      · -- the bucket was full at the first request
        refine Or.inr ⟨r.time, Or.inr ⟨r, by simp, rfl⟩, hr, hrt, ?_⟩
        rw [hcount (le_refl _), final_cons]
        linarith
      · left
        have hsame : takesIn l.since t (trace b.step (b.step l r).2 rs)
            = takesIn r.time t (trace b.step (b.step l r).2 rs) :=
          takesIn_of_le_since hok' (by rw [hnext]; exact hr) (by rw [hnext])
        have hsum : b.rate * (r.time - l.since) + b.rate * (t - r.time)
            = b.rate * (t - l.since) := by ring
        rw [hcount hr, hsame, final_cons]
        linarith
    · rw [hnext] at hle
      refine Or.inr ⟨s, ?_, hr.trans hle, hst, ?_⟩
      · rcases hs with rfl | ⟨q, hq, rfl⟩
        · exact Or.inl rfl
        · exact Or.inr ⟨q, by simp [hq], rfl⟩
      · have hless : (takesIn s t (trace b.step (b.step l r).2 rs) : K)
            ≤ takesIn s t (trace b.step l (r :: rs)) := by
          rw [trace_cons, takesIn_cons]
          exact_mod_cast Nat.le_add_right _ _
        rw [final_cons]
        linarith

/-- A take that succeeds exceeds no bound. -/
theorem within_bounds (hrate : 0 ≤ b.rate) (hok : Admissible NotBefore b.step l rs)
    (hno : NoReset rs) (hrs : ∀ r ∈ rs, r.time ≤ t)
    (hone : 1 ≤ (b.advance (final b.step l rs) t).credit) :
    (takesIn l.since t (trace b.step l rs) : K) + 1 ≤ l.credit + b.rate * (t - l.since) ∧
      ∀ s, l.since ≤ s → s ≤ t →
        (takesIn s t (trace b.step l rs) : K) + 1 ≤ b.capacity + b.rate * (t - s) := by
  refine ⟨?_, fun s hs hst => ?_⟩
  · have h := takes_add_credit_le (s := l.since) hok hno hrs
    linarith
  · have h := takes_window_add_credit_le hrate hok hno hrs hs hst
    linarith [Bucket.advance_credit_le (b := b) (l := l) (t := s)]

/-- **A take that fails would exceed a bound**: that of the time since the start of the run, or
that of a window that begins with a request, or at the instant of the take. -/
theorem one_le_credit (hok : Admissible NotBefore b.step l rs) (hno : NoReset rs)
    (hrs : ∀ r ∈ rs, r.time ≤ t) (ht : l.since ≤ t)
    (hstart : (takesIn l.since t (trace b.step l rs) : K) + 1
      ≤ l.credit + b.rate * (t - l.since))
    (hwindows : ∀ s, (s = t ∨ ∃ r ∈ rs, s = r.time) → l.since ≤ s → s ≤ t →
      (takesIn s t (trace b.step l rs) : K) + 1 ≤ b.capacity + b.rate * (t - s)) :
    1 ≤ (b.advance (final b.step l rs) t).credit := by
  rcases exists_bound_met hok hno hrs ht with hmet | ⟨s, hs, hle, hst, hmet⟩
  · linarith
  · have h := hwindows s hs hle hst
    linarith

end GribCpp.TokenBucket
