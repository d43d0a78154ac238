/-
# Wait times

A take that fails answers how long to wait for the next token.  The wait is computed from the
nanoseconds left of an interval, while a refill counts whole intervals of the milliseconds that
have passed; `take_of_wait` shows that the two meet: the token is there as soon as the wait is
over, and not before.  Hence a client that is alone with the limiter, on a clock that moves only
while it sleeps, decides at once whether its deadline can be met, and sleeps at most once.
-/
import GribCpp.Core.RateClients

namespace GribCpp.RateLimit

/-! ## When a token is available -/

namespace RateLimiter

variable {l : RateLimiter} {now later m : ℤ}

/-- A token is available when one is kept, or when an interval has passed. -/
lemma available_pos_iff (h : Inv now l) :
    0 < (l.availableTokens now).toNat ↔
      0 < l.tokens.toNat ∨ l.lastRefill + l.config.intervalNs ≤ now := by
  have hI := l.config.intervalNs_pos
  have hmax := l.config.one_le_max
  have hnn := h.intervals_nonneg
  have heq := availableTokens_eq h
  have hone : 1 ≤ l.intervals now ↔ l.config.intervalNs ≤ now - l.lastRefill := by
    rw [intervals, Int.le_ediv_iff_mul_le hI, one_mul]
  constructor
  · intro hpos
    by_cases htok : 0 < l.tokens.toNat
    · exact Or.inl htok
    · have hle := hone.mp (by omega)
      exact Or.inr (by omega)
  · rintro (htok | hle)
    · omega
    · have := hone.mpr (by omega)
      omega

lemma toNat_refill (h : Inv now l) :
    (l.refill now).tokens.toNat = (l.availableTokens now).toNat := by
  have h1 := tokens_refill h
  have h2 := availableTokens_eq h
  rw [floor_credit] at h1
  omega

/-- **A take succeeds when a token is available.** -/
lemma take_eq_none_iff (h : Inv now l) :
    (l.takeOrWaitTime now later).1 = none ↔ 0 < (l.availableTokens now).toNat := by
  rw [takeOrWaitTime_eq, toNat_refill h]
  split
  · rename_i hpos
    exact ⟨fun _ => hpos, fun _ => rfl⟩
  · rename_i hpos
    exact ⟨fun hnone => absurd hnone (by simp), fun h' => absurd h' hpos⟩

/-- The credit after a refill grows as it would have without it. -/
lemma credit_refill_later (h : Inv now l) (hle : now ≤ later) :
    (l.refill now).credit later = l.credit later := by
  have h1 := advance_credit (l := l.refill now) hle
  rw [refill_config, credit_refill h, advance_credit hle] at h1
  exact (congrArg TokenBucket.Level.credit h1).symm

/-- A refill changes no later number of available tokens. -/
lemma available_refill (h : Inv now l) (hle : now ≤ later) :
    (l.refill now).availableTokens later = l.availableTokens later := by
  have h1 := availableTokens_eq (h.refill.mono hle)
  have h2 := availableTokens_eq (h.mono hle)
  rw [← floor_credit] at h1 h2
  rw [credit_refill_later h hle] at h1
  exact UInt16.toNat_inj.mp (by omega)

/-- A take that succeeds removes one from the credit. -/
lemma credit_takeOrWaitTime (h : Inv now l) (htake : (l.takeOrWaitTime now later).1 = none) :
    (l.takeOrWaitTime now later).2.credit now = l.credit now - 1 := by
  have hpos : 0 < (l.refill now).tokens.toNat := by
    rw [toNat_refill h]
    exact (take_eq_none_iff h).mp htake
  rw [takeOrWaitTime_eq, if_pos hpos]
  exact credit_take h hpos

/-! ## The wait is tight -/

/-- The interval that a failed take waits for is the one that a refill counts. -/
lemma waitInterval_eq {c : SaneConfig} (hfits : c.refillInterval < (2 ^ 63 - 1) / 1000000) :
    waitInterval c = c.intervalNs := by
  have hmax : toMillis maxDuration = (2 ^ 63 - 1) / 1000000 := by decide
  rw [waitInterval, if_neg (by omega)]
  rfl

/-- What a take that fails leaves: an empty bucket, less than an interval after its last refill,
and the rest of that interval as the wait. -/
lemma take_eq_some (h : Inv now l) (hfits : l.config.refillInterval < (2 ^ 63 - 1) / 1000000)
    {wait : ℤ} (htake : (l.takeOrWaitTime now later).1 = some wait) :
    (l.takeOrWaitTime now later).2 = l.refill now ∧ (l.refill now).tokens.toNat = 0 ∧
      now < (l.refill now).lastRefill + l.config.intervalNs ∧
      wait = max ((l.refill now).lastRefill + l.config.intervalNs - later) 0 := by
  have hnot : ¬ 0 < (l.availableTokens now).toNat := by
    rw [← take_eq_none_iff h, htake]
    simp
  have hzero : ¬ 0 < (l.refill now).tokens.toNat := by rwa [toNat_refill h]
  have hearly : ¬ (l.refill now).lastRefill + l.config.intervalNs ≤ now := by
    intro hle
    rw [← available_refill h (le_refl now)] at hnot
    exact hnot ((available_pos_iff h.refill).mpr (Or.inr (by rwa [refill_config])))
  rw [takeOrWaitTime_eq, if_neg hzero] at htake ⊢
  refine ⟨rfl, by omega, by omega, ?_⟩
  rw [← Option.some.inj htake, waitInterval_eq hfits]
  congr 1
  ring

/-- **The wait is tight.**  After a take that fails, with nothing in between, the next token is
there when the wait is over, and not before. -/
theorem take_of_wait (h : Inv now l) (hle : now ≤ later)
    (hfits : l.config.refillInterval < (2 ^ 63 - 1) / 1000000) {wait : ℤ}
    (htake : (l.takeOrWaitTime now later).1 = some wait) (hm : later ≤ m) :
    0 < ((l.takeOrWaitTime now later).2.availableTokens m).toNat ↔ later + wait ≤ m := by
  obtain ⟨hl, hzero, -, hwait⟩ := take_eq_some h hfits htake
  have hinv : Inv m (l.refill now) := h.refill.mono (hle.trans hm)
  rw [hl, available_pos_iff hinv, refill_config]
  omega

end RateLimiter

open RateLimiter

/-! ## A client that is alone -/

/-- What a call returns, with the limiter and the clock that it leaves, and the sleeps that it
requested, each with the reading of the clock before it. -/
structure Outcome where
  ok : Bool
  limiter : RateLimiter
  now : ℤ
  sleeps : List (ℤ × ℤ)

/-- `RateLimiter::acquire_until` on a clock that moves only inside of `sleep_for`: `wake now wait`
is what it reads after a sleep.  The loop goes round at most `fuel` times. -/
def acquireUntil (wake : ℤ → ℤ → ℤ) (deadline : Option ℤ) : ℕ → ℤ → RateLimiter → Option Outcome
  | 0, _, _ => none
  | fuel + 1, now, l =>
    match l.takeOrWaitTime now now with
    | (none, l) => some ⟨true, l, now, []⟩
    | (some wait, l) =>
      if ∃ d ∈ deadline, d - now < wait then some ⟨false, l, now, []⟩
      else
        (acquireUntil wake deadline fuel (wake now wait) l).map fun r =>
          { r with sleeps := (now, wait) :: r.sleeps }

/-- `RateLimiter::acquire_for` on such a clock. -/
def acquireFor (wake : ℤ → ℤ → ℤ) (fuel : ℕ) (now maxWait : ℤ) (l : RateLimiter) :
    Option Outcome :=
  acquireUntil wake (some (deadlineFor now maxWait)) fuel now l

section Alone

variable {wake : ℤ → ℤ → ℤ} {deadline : Option ℤ} {fuel : ℕ} {now d : ℤ} {l : RateLimiter}

lemma acquireUntil_take (htake : (l.takeOrWaitTime now now).1 = none) :
    acquireUntil wake deadline (fuel + 1) now l
      = some ⟨true, (l.takeOrWaitTime now now).2, now, []⟩ := by
  rw [acquireUntil, show l.takeOrWaitTime now now = (none, (l.takeOrWaitTime now now).2) from
    Prod.ext htake rfl]

lemma acquireUntil_wait {wait : ℤ} (htake : (l.takeOrWaitTime now now).1 = some wait) :
    acquireUntil wake deadline (fuel + 1) now l
      = if ∃ d ∈ deadline, d - now < wait then
          some ⟨false, (l.takeOrWaitTime now now).2, now, []⟩
        else
          (acquireUntil wake deadline fuel (wake now wait) (l.takeOrWaitTime now now).2).map
            fun r => { r with sleeps := (now, wait) :: r.sleeps } := by
  rw [acquireUntil, show l.takeOrWaitTime now now = (some wait, (l.takeOrWaitTime now now).2) from
    Prod.ext htake rfl]

lemma wait_nonneg {wait later : ℤ} (htake : (l.takeOrWaitTime now later).1 = some wait) :
    0 ≤ wait := by
  rw [takeOrWaitTime_eq] at htake
  split at htake
  · exact absurd htake (by simp)
  · rw [← Option.some.inj htake]
    exact le_max_right _ _

/-- The loop of a client that is alone is a run of the system. -/
lemma acquireUntil_run {κ : Type*} [DecidableEq κ] {s : System κ} {c : κ} {r : Outcome}
    (hwake : ∀ t w, 0 ≤ w → t + w ≤ wake t w) (hplace : s.place c = .looping deadline)
    (hnow : s.clock ≤ now) (h : acquireUntil wake deadline fuel now s.limiter = some r) :
    ∃ es, Run s es ⟨r.limiter, r.now, Function.update s.place c .idle⟩ := by
  induction fuel generalizing s now r with
  | zero => exact absurd h (by simp [acquireUntil])
  | succ fuel ih =>
    rcases htake : (s.limiter.takeOrWaitTime now now).1 with _ | wait
    · rw [acquireUntil_take htake] at h
      obtain rfl := Option.some.inj h
      exact ⟨_, .cons (.takeOk hplace hnow (le_refl now) htake) .nil⟩
    · have hstep := Step.takeWait hplace hnow (le_refl now) htake
      have hwaiting : (⟨(s.limiter.takeOrWaitTime now now).2, now,
          Function.update s.place c (.waiting deadline wait)⟩ : System κ).place c
            = .waiting deadline wait := Function.update_self ..
      rw [acquireUntil_wait htake] at h
      split_ifs at h with hlate
      · -- the token comes after the deadline
        obtain ⟨d, rfl, hlate⟩ := hlate
        obtain rfl := Option.some.inj h
        have hgive := Step.giveUp hwaiting hlate
        simp only [Function.update_idem] at hgive
        exact ⟨_, .cons hstep (.cons hgive .nil)⟩
      · have hmeet : ∀ d ∈ deadline, wait ≤ d - now := by
          intro d hd
          exact not_lt.mp fun hlt => hlate ⟨d, hd, hlt⟩
        obtain ⟨r', hr', rfl⟩ := Option.map_eq_some_iff.mp h
        have hsleep := Step.sleep hwaiting hmeet
        simp only [Function.update_idem] at hsleep
        have hlater : now ≤ wake now wait := by
          have := hwake now wait (wait_nonneg htake)
          have := wait_nonneg htake
          omega
        obtain ⟨es, hes⟩ := ih (s := ⟨(s.limiter.takeOrWaitTime now now).2, now,
          Function.update s.place c (.looping deadline)⟩) (Function.update_self ..) hlater hr'
        simp only [Function.update_idem] at hes
        exact ⟨_, .cons hstep (.cons hsleep hes)⟩

/-- **A call of a client that is alone is a run of the system.** -/
theorem acquireFor_run {κ : Type*} [DecidableEq κ] {s : System κ} {c : κ} {r : Outcome}
    (hwake : ∀ t w, 0 ≤ w → t + w ≤ wake t w) (hplace : s.place c = .idle) (hnow : s.clock ≤ now)
    (h : acquireFor wake fuel now d s.limiter = some r) :
    ∃ es, Run s (.acquireFor c now d :: es) ⟨r.limiter, r.now, s.place⟩ := by
  have hidle : Function.update s.place c .idle = s.place := by
    rw [← hplace, Function.update_eq_self]
  have hlooping : (⟨s.limiter, s.clock, Function.update s.place c
      (.looping (some (deadlineFor now d)))⟩ : System κ).place c
        = .looping (some (deadlineFor now d)) := Function.update_self ..
  obtain ⟨es, hes⟩ := acquireUntil_run hwake hlooping hnow h
  simp only [Function.update_idem, hidle] at hes
  exact ⟨es, .cons (.acquireFor hplace) hes⟩

/-- A deadline well within the range of the clock. -/
lemma deadlineFor_eq (h : now + toNanos d + 1000000 ≤ maxInstant) :
    deadlineFor now d = now + toNanos (max d 0) := by
  simp only [toNanos] at h ⊢
  rw [deadlineFor]
  split
  · rename_i hd
    rw [max_eq_right hd]
    simp
  · rename_i hd
    have hrem : d < toMillis (maxInstant - now) := by
      rw [toMillis, Int.tdiv_eq_ediv_of_nonneg (by omega)]
      omega
    rw [if_neg (not_le.mpr hrem), max_eq_left (by omega)]
    rfl

/-- **What a client that is alone gets**: a token, after at most one sleep, when there is one up
to its deadline, and otherwise nothing at once. -/
lemma acquireUntil_alone (hwake : ∀ t w, 0 ≤ w → t + w ≤ wake t w) (h : l.Inv now)
    (hfits : l.config.refillInterval < (2 ^ 63 - 1) / 1000000) (hd : now ≤ d) (hfuel : 2 ≤ fuel) :
    ∃ r, acquireUntil wake (some d) fuel now l = some r ∧
      (r.ok = true ↔ ∃ m, now ≤ m ∧ m ≤ d ∧ 0 < (l.availableTokens m).toNat) ∧
      (r.ok = true → r.sleeps.length ≤ 1 ∧ r.limiter.credit r.now = l.credit r.now - 1) ∧
      (r.ok = false →
        r.sleeps = [] ∧ r.now = now ∧ ∀ m, now ≤ m → r.limiter.credit m = l.credit m) := by
  obtain ⟨fuel, rfl⟩ : ∃ k, fuel = k + 2 := ⟨fuel - 2, by omega⟩
  rcases htake : (l.takeOrWaitTime now now).1 with _ | wait
  · have hpos := (take_eq_none_iff h).mp htake
    refine ⟨_, acquireUntil_take htake, ⟨fun _ => ⟨now, le_refl now, hd, hpos⟩, fun _ => rfl⟩,
      fun _ => ⟨by simp, ?_⟩, fun hno => absurd hno (by simp)⟩
    exact credit_takeOrWaitTime h htake
  · obtain ⟨hl, -, -, -⟩ := take_eq_some h hfits htake
    have hlater : ∀ m, now ≤ m → (0 < (l.availableTokens m).toNat ↔ now + wait ≤ m) := by
      intro m hm
      have htight := take_of_wait h (le_refl now) hfits htake hm
      rwa [hl, available_refill h hm] at htight
    rw [acquireUntil_wait htake, hl]
    by_cases hmeet : d - now < wait
    · -- no token comes before the deadline
      rw [if_pos ⟨d, rfl, hmeet⟩]
      refine ⟨_, rfl, ⟨fun hok => absurd hok (by simp), ?_⟩, fun hok => absurd hok (by simp),
        fun _ => ⟨rfl, rfl, fun m hm => credit_refill_later h hm⟩⟩
      rintro ⟨m, hm, hmd, hpos⟩
      have := (hlater m hm).mp hpos
      omega
    · -- it is there after one sleep
      have hnonneg := wait_nonneg htake
      have hwoken := hwake now wait hnonneg
      have hinv : (l.refill now).Inv (wake now wait) := h.refill.mono (by omega)
      have hpos : 0 < ((l.refill now).availableTokens (wake now wait)).toNat := by
        rw [available_refill h (by omega)]
        exact (hlater _ (by omega)).mpr hwoken
      have hnone : ((l.refill now).takeOrWaitTime (wake now wait) (wake now wait)).1 = none :=
        (take_eq_none_iff hinv).mpr hpos
      rw [if_neg (by simpa using hmeet), acquireUntil_take hnone]
      refine ⟨_, rfl, ⟨fun _ => ⟨now + wait, by omega, by omega, ?_⟩, fun _ => rfl⟩,
        fun _ => ⟨by simp, ?_⟩, fun hno => absurd hno (by simp)⟩
      · exact (hlater _ (by omega)).mpr (le_refl _)
      · change RateLimiter.credit _ (wake now wait) = l.credit (wake now wait) - 1
        rw [credit_takeOrWaitTime hinv hnone,
          credit_refill_later h (by omega)]

end Alone

/-! ## The main result -/

/-- **Wait times are tight, and the deadline decision is right.** -/
theorem wait_is_tight {κ : Type*} [DecidableEq κ] (config : Config) (t₀ : ℤ)
    {es : List (Event κ)} {s : System κ} (hrun : Run (System.init config t₀) es s)
    (hfits : (sanitized config).refillInterval < (2 ^ 63 - 1) / 1000000) :
    -- a take that fails answers the time up to the next one that succeeds
    (∀ n₁ n₂ wait, s.clock ≤ n₁ → n₁ ≤ n₂ →
      (s.limiter.takeOrWaitTime n₁ n₂).1 = some wait →
        (∀ later, n₂ + wait ≤ later →
          ((s.limiter.takeOrWaitTime n₁ n₂).2.takeOrWaitTime (n₂ + wait) later).1 = none) ∧
        ∀ m later, n₂ ≤ m → m < n₂ + wait → m ≤ later →
          ((s.limiter.takeOrWaitTime n₁ n₂).2.takeOrWaitTime m later).1 ≠ none) ∧
    -- `acquire_for` of a client that is alone
    ∀ (wake : ℤ → ℤ → ℤ) (now d : ℤ), (∀ t w, 0 ≤ w → t + w ≤ wake t w) → s.clock ≤ now →
      now + toNanos d + 1000000 ≤ maxInstant → ∀ fuel, 2 ≤ fuel →
        ∃ r, acquireFor wake fuel now d s.limiter = some r ∧
          (r.ok = true ↔ ∃ m, now ≤ m ∧ m ≤ now + toNanos (max d 0) ∧
            0 < (s.limiter.availableTokens m).toNat) ∧
          (r.ok = true →
            r.sleeps.length ≤ 1 ∧ r.limiter.credit r.now = s.limiter.credit r.now - 1) ∧
          (r.ok = false → r.sleeps = [] ∧ r.now = now ∧
            ∀ m, now ≤ m → r.limiter.credit m = s.limiter.credit m) := by
  obtain ⟨hinv, hconfig⟩ := hrun.inv
  rw [← hconfig] at hfits
  refine ⟨?_, ?_⟩
  · intro n₁ n₂ wait hn₁ hn₂ htake
    have hinv₁ := hinv.mono hn₁
    have hnonneg := wait_nonneg htake
    have hafter := hinv₁.takeOrWaitTime hn₂
    have htight := fun m hm => take_of_wait (m := m) hinv₁ hn₂ hfits htake hm
    constructor
    · intro later _
      rw [take_eq_none_iff (hafter.mono (by omega)), htight _ (by omega)]
    · intro m later hm hearly _
      rw [Ne, take_eq_none_iff (hafter.mono hm), htight m hm]
      omega
  · intro wake now d hwake hnow hrange fuel hfuel
    have hd : now ≤ now + toNanos (max d 0) := by
      have : 0 ≤ toNanos (max d 0) := mul_nonneg (le_max_right _ _) (by norm_num)
      omega
    rw [acquireFor, deadlineFor_eq hrange]
    exact acquireUntil_alone hwake (hinv.mono hnow) hfits hd hfuel

/-- The only token is taken, and the next one comes five milliseconds later. -/
theorem wait_is_tight_slow :
    let l := ((RateLimiter.new slowConfig 0).tryAcquire 1 1).2
    ((l.takeOrWaitTime 2 3).2.takeOrWaitTime (3 + 4999998) 5000001).1 = none ∧
      ∃ r, acquireFor (fun t w => t + w) 2 3 5 l = some r ∧ r.sleeps.length ≤ 1 := by
  intro l
  have hrun : Run (System.init slowConfig 0) [Event.tryAcquire () 1 1 true]
      ⟨l, 1, fun _ => .idle⟩ :=
    .cons (.tryAcquire rfl (by decide) (by decide)) .nil
  have htight := wait_is_tight slowConfig 0 hrun (by decide)
  refine ⟨(htight.1 2 3 4999998 (by decide) (by decide) (by decide)).1 5000001 (by decide), ?_⟩
  obtain ⟨r, hr, hok, hsleep, -⟩ := htight.2 (fun t w => t + w) 3 5 (fun t w _ => le_refl (t + w))
    (by decide) (by decide) 2 (le_refl 2)
  exact ⟨r, hr, (hsleep (hok.mpr ⟨5000003, by decide, by decide, by decide⟩)).1⟩

end GribCpp.RateLimit
