/-
# The rate limiter

The model of `src/core/rate_limit.cpp`.  Instants of the steady clock and durations are
integers counting nanoseconds, `std::chrono::milliseconds` are integers counting
milliseconds, and each reading of the clock is an argument of the operation that makes
it, so that nothing is assumed about the clock here.  Divisions truncate towards zero.

The limiter keeps a whole number of tokens and the instant up to which they are
accounted for.  `refill_eq` says in one formula what the four branches of `refill` do,
in terms of the whole number of intervals that fit into the elapsed time.
-/
import GribCpp.Core.Error

namespace GribCpp.RateLimit

/-- `RateLimiter::Config`. -/
structure Config where
  maxTokens : UInt16 := 10
  /-- Milliseconds per token. -/
  refillInterval : ℤ := 100
  initialTokens : UInt16 := 10
  /-- Milliseconds that `acquire` may wait. -/
  maxWait : Option ℤ := none
deriving DecidableEq, Repr

/-- A configuration as the constructor keeps it. -/
structure SaneConfig extends Config where
  interval_pos : 0 < refillInterval
  one_le_max : 1 ≤ maxTokens.toNat
  initial_le_max : initialTokens.toNat ≤ maxTokens.toNat

lemma toNat_max (a b : UInt16) : (max a b).toNat = max a.toNat b.toNat := by
  change (if a ≤ b then b else a).toNat = _
  split
  · rename_i h
    rw [UInt16.le_iff_toNat_le] at h
    omega
  · rename_i h
    rw [UInt16.le_iff_toNat_le] at h
    omega

lemma toNat_min (a b : UInt16) : (min a b).toNat = min a.toNat b.toNat := by
  change (if a ≤ b then a else b).toNat = _
  split
  · rename_i h
    rw [UInt16.le_iff_toNat_le] at h
    omega
  · rename_i h
    rw [UInt16.le_iff_toNat_le] at h
    omega

/-- `sanitized`. -/
def sanitized (config : Config) : SaneConfig where
  refillInterval := if config.refillInterval ≤ 0 then 100 else config.refillInterval
  maxTokens := max config.maxTokens 1
  initialTokens := min config.initialTokens (max config.maxTokens 1)
  maxWait := config.maxWait
  interval_pos := by split <;> omega
  one_le_max := by rw [toNat_max]; exact le_max_right _ _
  initial_le_max := by rw [toNat_min]; exact min_le_right _ _

/-- `duration_cast<milliseconds>` of a duration of the clock. -/
def toMillis (ns : ℤ) : ℤ := ns.tdiv 1000000

/-- A number of milliseconds as a duration of the clock. -/
def toNanos (ms : ℤ) : ℤ := ms * 1000000

/-- `Clock::duration::max()`. -/
def maxDuration : ℤ := 2 ^ 63 - 1

/-- The fields of `RateLimiter` that its operations read and write. -/
structure RateLimiter where
  config : SaneConfig
  tokens : UInt16
  lastRefill : ℤ

namespace RateLimiter

/-- The constructor, with its reading of the clock. -/
def new (config : Config) (now : ℤ) : RateLimiter :=
  { config := sanitized config
    tokens := (sanitized config).initialTokens
    lastRefill := now }

/-- `RateLimiter::refill`. -/
def refill (now : ℤ) (l : RateLimiter) : RateLimiter :=
  if l.config.maxTokens ≤ l.tokens then
    { l with lastRefill := now }
  else
    let earned := (toMillis (now - l.lastRefill)).tdiv l.config.refillInterval
    if earned ≤ 0 then
      l
    else
      -- a full bucket drops the part of an interval, any other keeps it in `lastRefill`
      let total := (l.tokens.toNat : ℤ) + earned
      if (l.config.maxTokens.toNat : ℤ) ≤ total then
        { l with tokens := l.config.maxTokens, lastRefill := now }
      else
        { l with
          tokens := UInt16.ofInt total
          lastRefill := l.lastRefill + toNanos (earned * l.config.refillInterval) }

/-- The interval as `take_or_wait_time` waits for it, saturated at the clock's range. -/
def waitInterval (config : SaneConfig) : ℤ :=
  if toMillis maxDuration ≤ config.refillInterval then maxDuration
  else toNanos config.refillInterval

/-- `RateLimiter::take_or_wait_time`: `now` is the reading of `refill`, `later` the one that
the wait is computed from.  The answer `none` is a token taken. -/
def takeOrWaitTime (now later : ℤ) (l : RateLimiter) : Option ℤ × RateLimiter :=
  let l := l.refill now
  if 0 < l.tokens then
    -- the second reading is not made
    (none, { l with tokens := l.tokens - 1 })
  else
    (some (max (waitInterval l.config - (later - l.lastRefill)) 0), l)

/-- `RateLimiter::try_acquire`. -/
def tryAcquire (now later : ℤ) (l : RateLimiter) : Bool × RateLimiter :=
  let r := l.takeOrWaitTime now later
  (!r.1.isSome, r.2)

/-- `RateLimiter::available_tokens`. -/
def availableTokens (now : ℤ) (l : RateLimiter) : UInt16 :=
  let earned := (toMillis (now - l.lastRefill)).tdiv l.config.refillInterval
  UInt16.ofInt (min ((l.tokens.toNat : ℤ) + max earned 0) l.config.maxTokens.toNat)

/-- `RateLimiter::reset`. -/
def reset (now : ℤ) (l : RateLimiter) : RateLimiter :=
  { l with tokens := l.config.initialTokens, lastRefill := now }

end RateLimiter

/-! ## Elapsed intervals -/

/-- The refill interval in nanoseconds. -/
def SaneConfig.intervalNs (c : SaneConfig) : ℤ := toNanos c.refillInterval

lemma SaneConfig.intervalNs_pos (c : SaneConfig) : 0 < c.intervalNs := by
  have h := c.interval_pos
  simp only [intervalNs, toNanos]
  omega

/-- The two truncating divisions count the whole intervals of a nonnegative duration. -/
lemma tdiv_tdiv_eq (c : SaneConfig) {e : ℤ} (he : 0 ≤ e) :
    (toMillis e).tdiv c.refillInterval = e / c.intervalNs := by
  have hR := c.interval_pos
  have hms : 0 ≤ e / 1000000 := Int.ediv_nonneg he (by norm_num)
  rw [toMillis, Int.tdiv_eq_ediv_of_nonneg he, Int.tdiv_eq_ediv_of_nonneg hms,
    Int.ediv_ediv_of_nonneg (by norm_num), SaneConfig.intervalNs, toNanos, mul_comm]

lemma toNat_ofInt {n : ℤ} (h0 : 0 ≤ n) (h : n < 2 ^ 16) : ((UInt16.ofInt n).toNat : ℤ) = n := by
  have hmod : n % 2 ^ 16 = n := Int.emod_eq_of_lt h0 h
  have hlt : n.toNat < UInt16.size := by
    change n.toNat < 65536
    omega
  rw [UInt16.ofInt, hmod, UInt16.toNat_ofNat_of_lt' hlt, Int.toNat_of_nonneg h0]

namespace RateLimiter

/-- What every operation keeps: the tokens fit the bucket, and they are accounted for up
to an instant that has passed. -/
structure Inv (now : ℤ) (l : RateLimiter) : Prop where
  tokens_le : l.tokens.toNat ≤ l.config.maxTokens.toNat
  last_le : l.lastRefill ≤ now

/-- The whole intervals that have passed since the last refill. -/
def intervals (l : RateLimiter) (now : ℤ) : ℤ := (now - l.lastRefill) / l.config.intervalNs

variable {l : RateLimiter} {now later : ℤ}

lemma inv_new (config : Config) (now : ℤ) : Inv now (new config now) :=
  ⟨(sanitized config).initial_le_max, le_refl now⟩

lemma Inv.mono (h : Inv now l) (hle : now ≤ later) : Inv later l :=
  ⟨h.tokens_le, h.last_le.trans hle⟩

lemma Inv.intervals_nonneg (h : Inv now l) : 0 ≤ l.intervals now :=
  Int.ediv_nonneg (by have := h.last_le; omega) l.config.intervalNs_pos.le

lemma intervals_mul_le (l : RateLimiter) (now : ℤ) :
    l.intervals now * l.config.intervalNs ≤ now - l.lastRefill :=
  Int.ediv_mul_le _ l.config.intervalNs_pos.ne'

lemma Inv.earned_eq (h : Inv now l) :
    (toMillis (now - l.lastRefill)).tdiv l.config.refillInterval = l.intervals now :=
  tdiv_tdiv_eq l.config (by have := h.last_le; omega)

/-- **What a refill does.**  When the whole intervals passed fill the bucket, it is full
from now on; otherwise each of them adds a token, and the rest of the time elapsed stays
unaccounted for. -/
theorem refill_eq (h : Inv now l) :
    l.refill now =
      if (l.config.maxTokens.toNat : ℤ) ≤ l.tokens.toNat + l.intervals now then
        { l with tokens := l.config.maxTokens, lastRefill := now }
      else
        { l with
          tokens := UInt16.ofInt (l.tokens.toNat + l.intervals now)
          lastRefill := l.lastRefill + l.intervals now * l.config.intervalNs } := by
  have hnn := h.intervals_nonneg
  have hle := h.tokens_le
  rw [refill, h.earned_eq]
  simp only [toNanos, UInt16.le_iff_toNat_le]
  split
  · -- the bucket was full already
    rename_i hfull
    have htok : l.tokens = l.config.maxTokens := UInt16.toNat_inj.mp (by omega)
    rw [if_pos (by omega)]
    simp [htok]
  · rename_i hfull
    split
    · -- no interval has passed
      rename_i hzero
      have hq : l.intervals now = 0 := by omega
      rw [if_neg (by omega), hq]
      have htok : UInt16.ofInt (l.tokens.toNat : ℤ) = l.tokens := by
        apply UInt16.toNat_inj.mp
        have hlt := l.tokens.toNat_lt
        have h' := toNat_ofInt (n := (l.tokens.toNat : ℤ)) (by omega) (by omega)
        omega
      simp only [zero_mul, add_zero, htok]
    · split
      · rfl
      · simp only [SaneConfig.intervalNs, toNanos, mul_assoc]

@[simp] lemma refill_config : (l.refill now).config = l.config := by
  rw [refill]
  split
  · rfl
  · dsimp only
    split
    · rfl
    · split <;> rfl

/-- The state after a refill: the full bucket carries no part of an interval, any other
less than a whole one. -/
lemma refill_cases (h : Inv now l) :
    ((l.refill now).tokens.toNat = l.config.maxTokens.toNat ∧ (l.refill now).lastRefill = now ∧
        (l.config.maxTokens.toNat : ℤ) ≤ l.tokens.toNat + l.intervals now) ∨
      (((l.refill now).tokens.toNat : ℤ) = l.tokens.toNat + l.intervals now ∧
        (l.refill now).lastRefill = l.lastRefill + l.intervals now * l.config.intervalNs ∧
        (l.tokens.toNat : ℤ) + l.intervals now < l.config.maxTokens.toNat) := by
  have hnn := h.intervals_nonneg
  have hmax := l.config.maxTokens.toNat_lt
  rw [refill_eq h]
  split
  · rename_i hfull
    exact Or.inl ⟨rfl, rfl, hfull⟩
  · rename_i hfull
    refine Or.inr ⟨?_, rfl, by omega⟩
    exact toNat_ofInt (by omega) (by omega)

lemma Inv.refill (h : Inv now l) : Inv now (l.refill now) := by
  have hmul := intervals_mul_le l now
  have hle := h.tokens_le
  constructor
  · rw [refill_config]
    rcases refill_cases h with ⟨htok, -, -⟩ | ⟨htok, -, hlt⟩ <;> omega
  · rcases refill_cases h with ⟨-, hlast, -⟩ | ⟨-, hlast, -⟩ <;> rw [hlast]
    omega

/-! ## The operations -/

/-- A take removes one token of the refilled bucket when there is one, and nothing
otherwise. -/
lemma takeOrWaitTime_eq :
    l.takeOrWaitTime now later =
      if 0 < (l.refill now).tokens.toNat then
        (none, { l.refill now with tokens := (l.refill now).tokens - 1 })
      else
        (some (max (waitInterval l.config - (later - (l.refill now).lastRefill)) 0),
          l.refill now) := by
  rw [takeOrWaitTime]
  simp only [UInt16.lt_iff_toNat_lt, refill_config]
  rfl

lemma toNat_sub_one {t : UInt16} (h : 0 < t.toNat) : (t - 1).toNat = t.toNat - 1 := by
  rw [UInt16.toNat_sub_of_le _ _ (by rw [UInt16.le_iff_toNat_le]; exact h)]
  rfl

lemma Inv.takeOrWaitTime (h : Inv now l) (hle : now ≤ later) :
    Inv later (l.takeOrWaitTime now later).2 := by
  have hr := h.refill.mono hle
  rw [takeOrWaitTime_eq]
  split
  · rename_i hpos
    have htok := toNat_sub_one hpos
    exact ⟨by have := hr.tokens_le; simp only; omega, hr.last_le⟩
  · exact hr

lemma inv_reset : Inv now (l.reset now) :=
  ⟨l.config.initial_le_max, le_refl now⟩

/-- The number of available tokens: what a refill would leave. -/
lemma availableTokens_eq (h : Inv now l) :
    ((l.availableTokens now).toNat : ℤ)
      = min (l.tokens.toNat + l.intervals now) l.config.maxTokens.toNat := by
  have hnn := h.intervals_nonneg
  have hmax := l.config.maxTokens.toNat_lt
  rw [availableTokens, h.earned_eq, max_eq_left hnn]
  exact toNat_ofInt (by omega) (by omega)

end RateLimiter

end GribCpp.RateLimit
