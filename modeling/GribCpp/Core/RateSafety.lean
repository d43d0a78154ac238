/-
# The arithmetic of the rate limiter is safe

The limiter mixes milliseconds of up to 64 bits with instants in nanoseconds of 64 bits.  Here its
functions are written again with checked operations, one for each operation of the source that
could overflow, lose a value or divide by zero.  On every step of every run, with readings of a
clock that is not negative, the checked functions give the results of `RateLimit`.
-/
import GribCpp.Core.RateBlocking
import GribCpp.Lib.Checked

namespace GribCpp.RateLimit

open Checked IntType

/-! ## The checked functions -/

/-- `duration_cast<milliseconds>` of a duration of the clock. -/
def toMillis? (ns : ℤ) : Option ℤ := int64.div ns 1000000

/-- The conversion of milliseconds to a duration of the clock. -/
def toNanos? (ms : ℤ) : Option ℤ := int64.mul ms 1000000

/-- The deadline of `acquire_for`. -/
def deadlineFor? (now maxWait : ℤ) : Option ℤ :=
  if maxWait ≤ 0 then some now
  else do
    let left ← int64.sub maxInstant now
    let remaining ← toMillis? left
    if remaining ≤ maxWait then some maxInstant
    else
      let wait ← toNanos? maxWait
      int64.add now wait

namespace RateLimiter

/-- The interval that `take_or_wait_time` waits for. -/
def waitInterval? (config : SaneConfig) : Option ℤ := do
  let limit ← toMillis? maxDuration
  if limit ≤ config.refillInterval then some maxDuration
  else toNanos? config.refillInterval

/-- The intervals that `refill` and `available_tokens` count. -/
def earned? (now : ℤ) (l : RateLimiter) : Option ℤ := do
  let elapsed ← int64.sub now l.lastRefill
  let ms ← toMillis? elapsed
  int64.div ms l.config.refillInterval

/-- `RateLimiter::refill`. -/
def refill? (now : ℤ) (l : RateLimiter) : Option RateLimiter :=
  if l.config.maxTokens ≤ l.tokens then some { l with lastRefill := now }
  else do
    let earned ← l.earned? now
    if earned ≤ 0 then some l
    else
      let total ← int64.add l.tokens.toNat earned
      if (l.config.maxTokens.toNat : ℤ) ≤ total then
        some { l with tokens := l.config.maxTokens, lastRefill := now }
      else
        let tokens ← uint16.fit total
        let ms ← int64.mul earned l.config.refillInterval
        let ns ← toNanos? ms
        let last ← int64.add l.lastRefill ns
        some { l with tokens := UInt16.ofInt tokens, lastRefill := last }

/-- `RateLimiter::take_or_wait_time`. -/
def takeOrWaitTime? (now later : ℤ) (l : RateLimiter) : Option (Option ℤ × RateLimiter) := do
  let l ← l.refill? now
  if 0 < l.tokens then
    let tokens ← uint16.sub l.tokens.toNat 1
    some (none, { l with tokens := UInt16.ofInt tokens })
  else
    let interval ← waitInterval? l.config
    let elapsed ← int64.sub later l.lastRefill
    let wait ← int64.sub interval elapsed
    some (some (max wait 0), l)

/-- `RateLimiter::available_tokens`. -/
def availableTokens? (now : ℤ) (l : RateLimiter) : Option UInt16 := do
  let earned ← l.earned? now
  let total ← int64.add l.tokens.toNat (max earned 0)
  let available ← uint16.fit (min total l.config.maxTokens.toNat)
  some (UInt16.ofInt available)

end RateLimiter

/-! ## They give the results of the unchecked ones -/

/-- The readings of the clock fit. -/
lemma has_of_nonneg {n : ℤ} (h0 : 0 ≤ n) (hn : n ≤ maxInstant) : int64.Has n := by
  rw [int64_has_iff]
  simp only [maxInstant] at hn
  omega

lemma toMillis_bounds {e : ℤ} (he : 0 ≤ e) :
    0 ≤ toMillis e ∧ toMillis e * 1000000 ≤ e ∧ toMillis e ≤ e :=
  tdiv_bounds he (by norm_num)

lemma toMillis?_eq {e : ℤ} (h0 : 0 ≤ e) (he : e ≤ maxInstant) :
    toMillis? e = some (toMillis e) :=
  div_of_nonneg (by decide) (has_of_nonneg h0 he) h0 (by norm_num)

lemma toNanos?_eq {ms : ℤ} (h0 : 0 ≤ ms) (h : toNanos ms ≤ maxInstant) :
    toNanos? ms = some (toNanos ms) :=
  mul_of_has (has_of_nonneg (mul_nonneg h0 (by norm_num)) h)

lemma deadlineFor?_eq {now : ℤ} (h0 : 0 ≤ now) (hnow : now ≤ maxInstant) (maxWait : ℤ) :
    deadlineFor? now maxWait = some (deadlineFor now maxWait) := by
  rw [deadlineFor?, deadlineFor]
  split
  · rfl
  · rename_i hpos
    have hleft : 0 ≤ maxInstant - now := by omega
    obtain ⟨hrem, hmul, -⟩ := toMillis_bounds hleft
    rw [sub_of_has (has_of_nonneg hleft (by omega))]
    simp only [Option.bind_eq_bind, Option.bind_some, toMillis?_eq hleft (by omega)]
    split
    · rfl
    · rename_i hshort
      -- the guard keeps the converted wait within the time left
      have hwait : now + toNanos maxWait ≤ maxInstant := by
        simp only [toNanos]
        omega
      have hnonneg : 0 ≤ toNanos maxWait := mul_nonneg (by omega) (by norm_num)
      rw [toNanos?_eq (by omega) (by omega), Option.bind_some]
      exact add_of_has (has_of_nonneg (by omega) hwait)

namespace RateLimiter

lemma waitInterval?_eq (c : SaneConfig) : waitInterval? c = some (waitInterval c) := by
  have hlimit : toMillis? maxDuration = some (toMillis maxDuration) := by decide
  rw [waitInterval?, waitInterval, hlimit]
  simp only [Option.bind_eq_bind, Option.bind_some]
  split
  · rfl
  · rename_i hshort
    have hmax : toMillis maxDuration * 1000000 ≤ maxDuration := by decide
    have hpos := c.interval_pos
    refine toNanos?_eq hpos.le ?_
    simp only [toNanos, maxInstant, maxDuration] at *
    omega

lemma waitInterval_bounds (c : SaneConfig) :
    0 ≤ waitInterval c ∧ waitInterval c ≤ maxInstant := by
  have hmax : toMillis maxDuration * 1000000 ≤ maxDuration := by decide
  have hpos := c.interval_pos
  rw [waitInterval]
  split
  · decide
  · rename_i hshort
    simp only [toNanos, maxInstant, maxDuration] at *
    omega

/-- What a reachable limiter keeps, at an instant of the clock. -/
structure InRange (now : ℤ) (l : RateLimiter) : Prop extends Inv now l where
  last_nonneg : 0 ≤ l.lastRefill
  now_le : now ≤ maxInstant

variable {l : RateLimiter} {now later : ℤ}

lemma InRange.mono (h : InRange now l) (hlater : now ≤ later) (hle : later ≤ maxInstant) :
    InRange later l := ⟨h.toInv.mono hlater, h.last_nonneg, hle⟩

lemma InRange.elapsed_bounds (h : InRange now l) :
    0 ≤ now - l.lastRefill ∧ now - l.lastRefill ≤ maxInstant := by
  have hlast := h.last_le
  have hnonneg := h.last_nonneg
  have hnow := h.now_le
  exact ⟨by omega, by omega⟩

/-- The intervals earned: with the tokens kept they fit, and the time that they are worth has
passed. -/
lemma InRange.earned_bounds (h : InRange now l) :
    let earned := (toMillis (now - l.lastRefill)).tdiv l.config.refillInterval
    0 ≤ earned ∧ l.tokens.toNat + earned ≤ maxInstant ∧
      earned * l.config.refillInterval ≤ maxInstant ∧
      toNanos (earned * l.config.refillInterval) ≤ now - l.lastRefill := by
  obtain ⟨h0, hle⟩ := h.elapsed_bounds
  obtain ⟨hms, hmul, -⟩ := toMillis_bounds h0
  obtain ⟨hnonneg, hspan, hearned⟩ := tdiv_bounds hms l.config.interval_pos
  have htok := l.tokens.toNat_lt
  simp only [toNanos, maxInstant] at *
  exact ⟨hnonneg, by omega, by omega, by omega⟩

lemma earned?_eq (h : InRange now l) :
    l.earned? now
      = some ((toMillis (now - l.lastRefill)).tdiv l.config.refillInterval) := by
  obtain ⟨h0, hle⟩ := h.elapsed_bounds
  obtain ⟨hms, -, hless⟩ := toMillis_bounds h0
  rw [earned?, sub_of_has (has_of_nonneg h0 hle)]
  simp only [Option.bind_eq_bind, Option.bind_some, toMillis?_eq h0 hle]
  exact div_of_nonneg (by decide) (has_of_nonneg hms (hless.trans hle)) hms l.config.interval_pos

lemma refill?_eq (h : InRange now l) : l.refill? now = some (l.refill now) := by
  obtain ⟨h0, htotal, hms, hspan⟩ := h.earned_bounds
  have hnonneg := h.last_nonneg
  have hnow := h.now_le
  have hmax := l.config.maxTokens.toNat_lt
  rw [refill?, refill]
  split
  · rfl
  · simp only [earned?_eq h, Option.bind_eq_bind, Option.bind_some]
    generalize (toMillis (now - l.lastRefill)).tdiv l.config.refillInterval = earned at *
    split
    · rfl
    · rw [add_of_has (has_of_nonneg (by omega) htotal), Option.bind_some]
      split
      · rfl
      · -- the total is below the capacity, and the time accounted for is in the past
        have hms0 : 0 ≤ earned * l.config.refillInterval :=
          mul_nonneg h0 l.config.interval_pos.le
        have hns0 : 0 ≤ toNanos (earned * l.config.refillInterval) :=
          mul_nonneg hms0 (by norm_num)
        rw [fit_of_has (uint16_has_iff.mpr ⟨by omega, by omega⟩), Option.bind_some,
          mul_of_has (has_of_nonneg hms0 hms), Option.bind_some,
          toNanos?_eq hms0 (by omega), Option.bind_some,
          add_of_has (has_of_nonneg (by omega) (by omega)), Option.bind_some]

lemma Inv.le_lastRefill_refill (h : Inv now l) : l.lastRefill ≤ (l.refill now).lastRefill := by
  have hmul : 0 ≤ l.intervals now * l.config.intervalNs :=
    mul_nonneg h.intervals_nonneg l.config.intervalNs_pos.le
  have hlast := h.last_le
  rcases refill_cases h with ⟨-, hrefill, -⟩ | ⟨-, hrefill, -⟩ <;> omega

lemma InRange.refill (h : InRange now l) : InRange now (l.refill now) :=
  ⟨h.toInv.refill, h.last_nonneg.trans h.le_lastRefill_refill, h.now_le⟩

lemma takeOrWaitTime?_eq (h : InRange now l) (hlater : now ≤ later) (hle : later ≤ maxInstant) :
    l.takeOrWaitTime? now later = some (l.takeOrWaitTime now later) := by
  have hlast := h.refill.last_le
  have hnonneg := h.refill.last_nonneg
  have htok := (l.refill now).tokens.toNat_lt
  obtain ⟨h0, hint⟩ := waitInterval_bounds (l.refill now).config
  rw [takeOrWaitTime?, takeOrWaitTime, refill?_eq h]
  simp only [Option.bind_eq_bind, Option.bind_some]
  split
  · rename_i hpos
    rw [UInt16.lt_iff_toNat_lt] at hpos
    have hpos' : 0 < (l.refill now).tokens.toNat := hpos
    have hone : UInt16.ofInt ((l.refill now).tokens.toNat - 1) = (l.refill now).tokens - 1 := by
      apply UInt16.toNat_inj.mp
      have h1 := toNat_sub_one hpos'
      have h2 := toNat_ofInt (n := ((l.refill now).tokens.toNat : ℤ) - 1) (by omega) (by omega)
      omega
    rw [sub_of_has (uint16_has_iff.mpr ⟨by omega, by omega⟩), Option.bind_some, hone]
  · have helapsed : 0 ≤ later - (l.refill now).lastRefill := by omega
    rw [waitInterval?_eq, Option.bind_some, sub_of_has (has_of_nonneg helapsed (by omega)),
      Option.bind_some, sub_of_has, Option.bind_some]
    simp only [int64_has_iff, maxInstant] at *
    omega

lemma availableTokens?_eq (h : InRange now l) :
    l.availableTokens? now = some (l.availableTokens now) := by
  obtain ⟨h0, htotal, -⟩ := h.earned_bounds
  have hmax := l.config.maxTokens.toNat_lt
  rw [availableTokens?, availableTokens, earned?_eq h]
  simp only [Option.bind_eq_bind, Option.bind_some]
  generalize (toMillis (now - l.lastRefill)).tdiv l.config.refillInterval = earned at *
  rw [max_eq_left h0, add_of_has (has_of_nonneg (by omega) htotal), Option.bind_some,
    fit_of_has (uint16_has_iff.mpr ⟨by omega, by omega⟩), Option.bind_some]

end RateLimiter

/-! ## Every step of every run is safe -/

/-- The deadline of the call that a client is in. -/
def Place.deadline : Place → Option ℤ
  | .idle => none
  | .looping deadline | .waiting deadline _ => deadline

section Runs

variable {κ : Type*}

/-- The arithmetic of a step is safe: with checked operations it has the same results. -/
def Safe (s : System κ) : Event κ → Prop
  | .tryAcquire _ now later _ | .take _ now later _ =>
    s.limiter.takeOrWaitTime? now later = some (s.limiter.takeOrWaitTime now later)
  | .acquire _ now =>
    ∀ d ∈ s.limiter.config.maxWait, deadlineFor? now d = some (deadlineFor now d)
  | .acquireFor _ now maxWait => deadlineFor? now maxWait = some (deadlineFor now maxWait)
  | .giveUp c now | .sleep c now => ∀ d ∈ (s.place c).deadline, int64.sub d now = some (d - now)
  | .availableTokens _ now _ =>
    s.limiter.availableTokens? now = some (s.limiter.availableTokens now)
  | .reset _ _ => True

/-- What the runs keep: the instants that the limiter and the calls have stored are readings. -/
structure System.InRange (s : System κ) : Prop where
  limiter : s.limiter.InRange s.clock
  deadline : ∀ c, ∀ d ∈ (s.place c).deadline, 0 ≤ d ∧ d ≤ maxInstant

variable [DecidableEq κ] {s s' : System κ} {e : Event κ} {es : List (Event κ)}

omit [DecidableEq κ] in
lemma readings_of_call {call : Call} (h : e.call? = some call) :
    e.start = call.first ∧ e.stop = call.last := by
  cases e with
  | tryAcquire | take | availableTokens | reset =>
    simp only [Event.call?, Option.some.injEq] at h
    subst h
    exact ⟨rfl, rfl⟩
  | acquire | acquireFor | giveUp | sleep => exact absurd h (by simp [Event.call?])

omit [DecidableEq κ] in
lemma last_nonneg_step {l : RateLimiter} {call : Call} (h : l.Inv call.first)
    (h0 : 0 ≤ l.lastRefill) (hfirst : 0 ≤ call.first) : 0 ≤ (step l call).2.lastRefill := by
  cases call with
  | tryAcquire now later =>
    have h' : l.Inv now := h
    simp only [step, RateLimiter.tryAcquire, RateLimiter.takeOrWaitTime_eq]
    split <;> exact h0.trans h'.le_lastRefill_refill
  | availableTokens now => exact h0
  | reset now => exact hfirst

lemma Step.limiter_inRange (h : Step s e s') (hs : s.InRange) (h0 : 0 ≤ e.start)
    (hle : e.stop ≤ maxInstant) : s'.limiter.InRange s'.clock := by
  have hinv := hs.limiter.toInv
  rcases h.call with ⟨-, -, hlim, hclock⟩ | ⟨call, hcall, hfirst, -, hclock, hlim, -⟩
  · rw [hlim, hclock]
    exact hs.limiter
  · obtain ⟨hstart, hstop⟩ := readings_of_call hcall
    refine ⟨h.inv hinv, ?_, by omega⟩
    rw [hlim]
    exact last_nonneg_step (hinv.mono hfirst) hs.limiter.last_nonneg (by omega)

lemma deadlineFor_mem {now : ℤ} (h0 : 0 ≤ now) (hnow : now ≤ maxInstant) (maxWait : ℤ) :
    0 ≤ deadlineFor now maxWait ∧ deadlineFor now maxWait ≤ maxInstant := by
  obtain ⟨hge, hle⟩ := deadlineFor_le hnow maxWait
  refine ⟨h0.trans hge, hle.trans ?_⟩
  split <;> omega

lemma Step.deadline_inRange (h : Step s e s') (hs : s.InRange) (h0 : 0 ≤ e.start)
    (hle : e.stop ≤ maxInstant) (c : κ) :
    ∀ d ∈ (s'.place c).deadline, 0 ≤ d ∧ d ≤ maxInstant := by
  -- the client of the step keeps its deadline, drops it or computes it
  have hupdate : ∀ (c' : κ) (p : Place), (∀ d ∈ p.deadline, 0 ≤ d ∧ d ≤ maxInstant) →
      ∀ d ∈ (Function.update s.place c' p c).deadline, 0 ≤ d ∧ d ≤ maxInstant := by
    intro c' p hp
    by_cases hc : c = c'
    · rwa [hc, Function.update_self]
    · rw [Function.update_of_ne hc]
      exact hs.deadline c
  cases h with
  | tryAcquire | availableTokens | reset => exact hs.deadline c
  | @acquire c' now hplace =>
    refine hupdate _ _ fun d hd => ?_
    obtain ⟨maxWait, -, rfl⟩ := Option.mem_map.mp hd
    exact deadlineFor_mem h0 hle maxWait
  | acquireFor hplace =>
    refine hupdate _ _ fun d hd => ?_
    obtain rfl := Option.some.inj hd
    exact deadlineFor_mem h0 hle _
  | takeOk | giveUp => exact hupdate _ _ (by simp [Place.deadline])
  | @takeWait c' _ _ _ _ hplace | @sleep c' _ _ _ hplace =>
    refine hupdate _ _ fun d hd => hs.deadline c' d ?_
    rw [hplace]
    exact hd

/-- **Every step is safe.** -/
lemma Step.safe (h : Step s e s') (hs : s.InRange) (h0 : 0 ≤ e.start)
    (hle : e.stop ≤ maxInstant) : Safe s e := by
  have hlim := hs.limiter
  cases h with
  | tryAcquire _ hnow hlater | takeOk _ hnow hlater | takeWait _ hnow hlater =>
    exact RateLimiter.takeOrWaitTime?_eq (hlim.mono hnow (hlater.trans hle)) hlater hle
  | acquire => exact fun maxWait _ => deadlineFor?_eq h0 hle maxWait
  | acquireFor => exact deadlineFor?_eq h0 hle _
  | giveUp | sleep =>
    intro d hd
    obtain ⟨hd0, hdle⟩ := hs.deadline _ d hd
    refine sub_of_has (int64_has_iff.mpr ?_)
    simp only [Event.start, Event.stop, maxInstant] at *
    omega
  | availableTokens _ hnow => exact RateLimiter.availableTokens?_eq (hlim.mono hnow hle)
  | reset => trivial

lemma Run.inRange (h : Run s es s') (hs : s.InRange)
    (hclock : ∀ e ∈ es, 0 ≤ e.start ∧ e.stop ≤ maxInstant) : s'.InRange := by
  induction h with
  | nil => exact hs
  | @cons s s₁ s₂ e es hstep _ ih =>
    obtain ⟨h0, hle⟩ := hclock e (by simp)
    have hs₁ : s₁.InRange :=
      ⟨hstep.limiter_inRange hs h0 hle, hstep.deadline_inRange hs h0 hle⟩
    exact ih hs₁ fun e' he' => hclock e' (by simp [he'])

omit [DecidableEq κ] in
lemma inRange_init (config : Config) {t₀ : ℤ} (h0 : 0 ≤ t₀) (hle : t₀ ≤ maxInstant) :
    (System.init config t₀ : System κ).InRange := by
  refine ⟨⟨RateLimiter.inv_new config t₀, h0, hle⟩, ?_⟩
  intro c d hd
  exact absurd hd (by simp [System.init, Place.deadline])

/-! ## The main result -/

/-- **The arithmetic of the limiter is safe.**  For every configuration, whatever its interval
and its waits are, and every run at 64-bit readings that are not negative, the limiter reached
keeps its bounds, and every step of the run computes without overflow, without a loss in a
conversion and without a division by zero. -/
theorem arithmetic_safe (config : Config) {t₀ : ℤ} {s : System κ} (h0 : 0 ≤ t₀)
    (hle : t₀ ≤ maxInstant) (hrun : Run (System.init config t₀) es s)
    (hclock : ∀ e ∈ es, 0 ≤ e.start ∧ e.stop ≤ maxInstant) :
    (s.limiter.config = sanitized config ∧
      s.limiter.tokens.toNat ≤ s.limiter.config.maxTokens.toNat ∧
      s.limiter.config.initialTokens.toNat ≤ s.limiter.config.maxTokens.toNat ∧
      1 ≤ s.limiter.config.maxTokens.toNat ∧ 0 < s.limiter.config.refillInterval ∧
      s.limiter.lastRefill ≤ s.clock) ∧
    ∀ pre e post, es = pre ++ e :: post →
      ∃ s₁ s₂, Run (System.init config t₀) pre s₁ ∧ Step s₁ e s₂ ∧ Run s₂ post s ∧ Safe s₁ e := by
  have hinit : (System.init config t₀ : System κ).InRange := inRange_init config h0 hle
  obtain ⟨hinv, hconfig⟩ := hrun.inv
  refine ⟨⟨hconfig, hinv.tokens_le, s.limiter.config.initial_le_max, s.limiter.config.one_le_max,
    s.limiter.config.interval_pos, hinv.last_le⟩, ?_⟩
  rintro pre e post rfl
  obtain ⟨s₁, hpre, hrest⟩ := hrun.cut
  obtain _ | ⟨hstep, hpost⟩ := hrest
  obtain ⟨hstart, hstop⟩ := hclock e (by simp)
  have hs₁ : s₁.InRange := hpre.inRange hinit fun e' he' => hclock e' (by simp [he'])
  exact ⟨s₁, _, hpre, hstep, hpost, hstep.safe hs₁ hstart hstop⟩

end Runs

theorem arithmetic_safe_two_clients :
    ∃ s, Run (System.init slowConfig 0) slowRun s ∧
      s.limiter.tokens.toNat ≤ s.limiter.config.maxTokens.toNat := by
  obtain ⟨s, hrun⟩ := exists_run_slowRun
  have hclock : ∀ e ∈ slowRun, 0 ≤ e.start ∧ e.stop ≤ maxInstant := by decide
  exact ⟨s, hrun, (arithmetic_safe slowConfig (le_refl 0) (by decide) hrun hclock).1.2.1⟩

end GribCpp.RateLimit
