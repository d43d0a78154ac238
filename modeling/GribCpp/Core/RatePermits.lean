/-
# The limiter refuses nothing that the rate allows

The rate bound of a limiter says how many takes may succeed.  Here the converse: in every
interleaving of any number of clients a take is refused only when one more success would
break the bound, since the construction or the last reset, or in some window of time that
ends with it.  So the limiter grants as much as any limiter of that rate could.
-/
import GribCpp.Core.RateWait
import GribCpp.Lib.TokenWindows

namespace GribCpp.RateLimit

open Machine TokenBucket

section Since

variable {κ : Type*} [DecidableEq κ]

/-- The instant at which the limiter was constructed or last reset, and the events since. -/
inductive Since (t₀ : ℤ) (es : List (Event κ)) : ℤ → List (Event κ) → Prop
  | constructed : Since t₀ es t₀ es
  | reset (pre : List (Event κ)) (c : κ) (t₁ : ℤ) (post : List (Event κ))
      (h : es = pre ++ .reset c t₁ :: post) : Since t₀ es t₁ post

/-- The events since the construction or a reset are a run of a new limiter. -/
lemma Since.run {config : Config} {t₀ t₁ : ℤ} {es post : List (Event κ)} {s : System κ}
    (h : Since t₀ es t₁ post) (hrun : Run (System.init config t₀) es s) :
    ∃ s₁ : System κ, s₁.limiter = RateLimiter.new config t₁ ∧ s₁.clock = t₁ ∧ Run s₁ post s := by
  cases h with
  | constructed => exact ⟨System.init config t₀, rfl, rfl, hrun⟩
  | reset pre c _ _ h =>
    subst h
    obtain ⟨s₂, hpre, hpost⟩ := hrun.cut
    obtain _ | ⟨hstep, hrest⟩ := hpost
    have hconfig := hpre.inv.2
    cases hstep with
    | reset hplace hnow =>
      -- a reset leaves what the constructor makes
      refine ⟨_, ?_, rfl, hrest⟩
      rw [RateLimiter.reset, RateLimiter.new, hconfig]

end Since

/-! ## Rational and whole bounds -/

/-- A rational bound on a whole number is the bound by the whole part. -/
lemma le_add_ediv_iff {n m a I : ℤ} (hI : 0 < I) :
    (n : ℚ) ≤ m + 1 / (I : ℚ) * (a : ℚ) ↔ n ≤ m + a / I := by
  have hI' : (0 : ℚ) < I := by exact_mod_cast hI
  rw [one_div_mul_eq_div]
  constructor
  · intro h
    have hle : n - m ≤ a / I := by
      rw [Int.le_ediv_iff_mul_le hI]
      have hmul : ((n : ℚ) - m) * I ≤ a := by
        rw [← le_div_iff₀ hI']
        linarith
      exact_mod_cast hmul
    omega
  · intro h
    have hmul : (a / I) * I ≤ a := Int.ediv_mul_le a hI.ne'
    have hdiv : ((a / I : ℤ) : ℚ) ≤ a / I := by
      rw [le_div_iff₀ hI']
      exact_mod_cast hmul
    have h' : (n : ℚ) ≤ m + ((a / I : ℤ) : ℚ) := by exact_mod_cast h
    linarith

/-! ## Takes and credit -/

section Permits

variable {κ : Type*} [DecidableEq κ]

/-- A take succeeds when the credit holds a whole unit. -/
lemma take_eq_none_iff_one_le_credit {l : RateLimiter} {now later : ℤ} (h : l.Inv now) :
    (l.takeOrWaitTime now later).1 = none ↔ 1 ≤ l.credit now := by
  have hfloor := RateLimiter.tokens_refill h
  have hone : 1 ≤ l.credit now ↔ (1 : ℤ) ≤ ⌊l.credit now⌋ := by
    rw [Int.le_floor, Int.cast_one]
  rw [RateLimiter.take_eq_none_iff h, ← RateLimiter.toNat_refill h, hone, ← hfloor]
  omega

/-- The requests of a run come no later than its clock. -/
lemma Run.time_le {s s' : System κ} {es : List (Event κ)} (h : Run s es s') {now : ℤ}
    (hnow : s'.clock ≤ now) :
    s.clock ≤ now ∧ ∀ r ∈ (es.filterMap Event.call?).map Call.request, r.time ≤ (now : ℚ) := by
  induction h with
  | nil => exact ⟨hnow, by simp⟩
  | @cons s s₁ s₂ e es hstep _ ih =>
    obtain ⟨hclock, hrest⟩ := ih hnow
    rcases hstep.call with ⟨hcall, -, -, hsame⟩ | ⟨call, hcall, h1, h2, hlast, -, -⟩
    · rw [List.filterMap_cons_none hcall, ← hsame]
      exact ⟨hclock, hrest⟩
    · rw [List.filterMap_cons_some hcall, List.map_cons]
      refine ⟨by omega, fun r hr => ?_⟩
      rcases List.mem_cons.mp hr with rfl | hr
      · rw [Call.time_request]
        exact_mod_cast (by omega : call.first ≤ now)
      · exact hrest r hr

/-- **The limiter refuses only what the rate forbids.**  In every interleaving of any number of
clients, at any instant that the clock of the limiter has reached, a take succeeds if and only if
one more success leaves the bounds of the rate: the initial tokens and the whole intervals since
the construction or the last reset, and, for every window that ends now, the capacity and the
whole intervals in the window. -/
theorem take_iff_within_rate (config : Config) (t₀ : ℤ) {es : List (Event κ)} {s : System κ}
    (hrun : Run (System.init config t₀) es s) {t₁ : ℤ} {post : List (Event κ)}
    (hsince : Since t₀ es t₁ post) (hno : ∀ e ∈ post, ∀ c now, e ≠ Event.reset c now)
    {now later : ℤ} (hnow : s.clock ≤ now) :
    (s.limiter.takeOrWaitTime now later).1 = none ↔
      (Event.takesIn t₁ now post : ℤ) + 1
          ≤ (sanitized config).initialTokens.toNat + (now - t₁) / (sanitized config).intervalNs ∧
        ∀ r : ℤ, t₁ ≤ r → r ≤ now → (Event.takesIn r now post : ℤ) + 1
          ≤ (sanitized config).maxTokens.toNat + (now - r) / (sanitized config).intervalNs := by
  obtain ⟨s₁, hlim, hclock, hpost⟩ := hsince.run hrun
  set c := sanitized config with hc
  set v₀ : Level ℚ := ⟨(bucket c).initial, t₁⟩ with hv₀
  set requests := (post.filterMap Event.call?).map Call.request with hrequests
  have hcalls := hpost.calls
  rw [hclock, hlim] at hcalls
  have hok : Admissible NotBefore (bucket c).step v₀ requests :=
    admissible_of_inOrder (le_refl _) hcalls.1
  obtain ⟨hans, hR⟩ := run_refines (refines_new config t₁) hok
  have hcount : ∀ a : ℤ, Event.takesIn a now post
      = TokenBucket.takesIn (a : ℚ) now (trace (bucket c).step v₀ requests) := by
    intro a
    have htakes := hpost.takesIn_eq a now
    rw [hlim] at htakes
    exact htakes.trans (takesIn_request hans a now)
  obtain ⟨hstart, htimes⟩ := hpost.time_le hnow
  rw [hclock] at hstart
  have hno' : NoReset requests := noReset_calls hno
  have hcast : ∀ r : ℤ, v₀.since ≤ (r : ℚ) ↔ t₁ ≤ r := fun r => Int.cast_le
  have hstart' : v₀.since ≤ (now : ℚ) := (hcast now).mpr hstart
  -- the credit of the limiter is that of the bucket
  have hsince' : (final (bucket c).step v₀ requests).since ≤ (now : ℚ) :=
    since_final_le hstart' htimes
  rw [← hcalls.2] at hR
  have hcredit : ((bucket c).advance (final (bucket c).step v₀ requests) now).credit
      = s.limiter.credit now := by
    rw [hR.credit_advance hsince', RateLimiter.credit, RateLimiter.elapsed, hR.config_eq]
  have hinv := hrun.inv.1.mono hnow
  rw [take_eq_none_iff_one_le_credit hinv, ← hcredit]
  have hbound : ∀ (a m : ℤ), ((Event.takesIn a now post : ℤ) + 1
      ≤ m + (now - a) / c.intervalNs) ↔
      (TokenBucket.takesIn (a : ℚ) now (trace (bucket c).step v₀ requests) : ℚ) + 1
        ≤ m + (bucket c).rate * ((now : ℚ) - a) := by
    intro a m
    rw [← le_add_ediv_iff c.intervalNs_pos, ← hcount]
    push_cast
    exact Iff.rfl
  have hinitial := hbound t₁ c.initialTokens.toNat
  have hcapacity := fun r => hbound r c.maxTokens.toNat
  simp only [hinitial, hcapacity]
  constructor
  · intro hone
    obtain ⟨hfirst, hwindows⟩ :=
      within_bounds (bucket_rate_nonneg c) hok hno' htimes hone
    exact ⟨hfirst, fun r hr hrn => hwindows r ((hcast r).mpr hr) (by exact_mod_cast hrn)⟩
  · rintro ⟨hfirst, hwindows⟩
    refine one_le_credit hok hno' htimes hstart' hfirst ?_
    -- the windows that decide begin with readings of the clock
    intro a ha hle hlt
    obtain ⟨r, rfl⟩ : ∃ r : ℤ, a = r := by
      rcases ha with rfl | ⟨q, hq, rfl⟩
      · exact ⟨now, rfl⟩
      · obtain ⟨call, -, rfl⟩ := List.mem_map.mp hq
        exact ⟨call.first, Call.time_request ..⟩
    exact hwindows r ((hcast r).mp hle) (by exact_mod_cast hlt)

/-- After the run of the two clients the next token is refused until it is due. -/
theorem take_iff_within_rate_two_clients :
    ∃ s : System Bool, Run (System.init slowConfig 0) slowRun s ∧ ∀ now later : ℤ,
      s.clock ≤ now → ((s.limiter.takeOrWaitTime now later).1 = none ↔
        (Event.takesIn 0 now slowRun : ℤ) + 1 ≤ 1 + (now - 0) / 5000000 ∧
          ∀ r : ℤ, 0 ≤ r → r ≤ now →
            (Event.takesIn r now slowRun : ℤ) + 1 ≤ 1 + (now - r) / 5000000) := by
  obtain ⟨s, hrun⟩ := exists_run_slowRun
  exact ⟨s, hrun, fun now later hnow =>
    take_iff_within_rate slowConfig 0 hrun .constructed (by simp [slowRun]) hnow⟩

end Permits

end GribCpp.RateLimit
