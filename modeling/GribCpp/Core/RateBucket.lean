/-
# The rate limiter is the ideal token bucket

The bucket of a configuration holds a rational credit that grows by one token per refill
interval.  `credit` is the credit a limiter stands for at an instant: its tokens and the
part of the time since the last refill, capped at the capacity.  A refill does not change
it, a take removes one from it, and the number of available tokens is its whole part.
Hence the limiter, which refills only when it is called and keeps the rest of an interval
in the instant of the last refill alone, answers every run of calls as the bucket does.
-/
import GribCpp.Core.RateLimit
import GribCpp.Lib.TokenBucket

namespace GribCpp.RateLimit

open Machine TokenBucket

/-- A call on the limiter, with the readings of the clock made while it holds the mutex:
`later` is the one that a failed take computes its wait from. -/
inductive Call where
  | tryAcquire (now later : ℤ)
  | availableTokens (now : ℤ)
  | reset (now : ℤ)
deriving DecidableEq, Repr

namespace Call

/-- The readings of a call, in order. -/
def readings : Call → List ℤ
  | .tryAcquire now later => [now, later]
  | .availableTokens now | .reset now => [now]

/-- The reading that the refill of the call works with. -/
def first : Call → ℤ
  | .tryAcquire now _ | .availableTokens now | .reset now => now

/-- The last reading of a call. -/
def last : Call → ℤ
  | .tryAcquire _ later => later
  | .availableTokens now | .reset now => now

/-- The call as a request to a bucket. -/
def request : Call → Request ℚ
  | .tryAcquire now _ => .take now
  | .availableTokens now => .peek now
  | .reset now => .reset now

@[simp] lemma time_request (c : Call) : c.request.time = (c.first : ℚ) := by cases c <;> rfl

end Call

/-- One call. -/
def step (l : RateLimiter) : Call → Answer × RateLimiter
  | .tryAcquire now later => (.taken (l.tryAcquire now later).1, (l.tryAcquire now later).2)
  | .availableTokens now => (.available (l.availableTokens now).toNat, l)
  | .reset now => (.reset, l.reset now)

@[simp] lemma step_config {l : RateLimiter} {c : Call} : (step l c).2.config = l.config := by
  cases c with
  | tryAcquire now later =>
    simp only [step, RateLimiter.tryAcquire, RateLimiter.takeOrWaitTime_eq]
    split <;> exact RateLimiter.refill_config
  | availableTokens now | reset now => rfl

/-- The readings of the clock never decrease, from an instant on. -/
def InOrder (t : ℤ) (cs : List Call) : Prop :=
  (t :: cs.flatMap Call.readings).Pairwise (· ≤ ·)

lemma inOrder_cons {t : ℤ} {c : Call} {cs : List Call} :
    InOrder t (c :: cs) ↔ t ≤ c.first ∧ c.first ≤ c.last ∧ InOrder c.last cs := by
  cases c with
  | tryAcquire now later =>
    simp only [InOrder, Call.readings, Call.first, Call.last, List.flatMap_cons,
      List.cons_append, List.nil_append, List.pairwise_cons, List.mem_cons]
    constructor
    · rintro ⟨ht, hn, hl, hp⟩
      exact ⟨ht _ (Or.inl rfl), hn _ (Or.inl rfl), hl, hp⟩
    · rintro ⟨ht, hn, hl, hp⟩
      refine ⟨?_, ?_, hl, hp⟩
      · rintro x (rfl | rfl | hx)
        · exact ht
        · exact ht.trans hn
        · exact (ht.trans hn).trans (hl x hx)
      · rintro x (rfl | hx)
        · exact hn
        · exact hn.trans (hl x hx)
  | availableTokens now | reset now =>
    simp only [InOrder, Call.readings, Call.first, Call.last, List.flatMap_cons,
      List.cons_append, List.nil_append, List.pairwise_cons, List.mem_cons]
    constructor
    · rintro ⟨ht, hn, hp⟩
      exact ⟨ht _ (Or.inl rfl), le_refl _, hn, hp⟩
    · rintro ⟨ht, -, hn, hp⟩
      refine ⟨?_, hn, hp⟩
      rintro x (rfl | hx)
      · exact ht
      · exact ht.trans (hn x hx)

/-! ## The credit of a limiter -/

/-- The ideal bucket of a configuration. -/
def bucket (c : SaneConfig) : Bucket ℚ where
  capacity := c.maxTokens.toNat
  rate := 1 / c.intervalNs
  initial := c.initialTokens.toNat

lemma bucket_rate_nonneg (c : SaneConfig) : 0 ≤ (bucket c).rate := by
  have h : (0 : ℚ) < c.intervalNs := by exact_mod_cast c.intervalNs_pos
  exact div_nonneg zero_le_one h.le

lemma bucket_initial (c : SaneConfig) :
    0 ≤ (bucket c).initial ∧ (bucket c).initial ≤ (bucket c).capacity := by
  refine ⟨Nat.cast_nonneg _, ?_⟩
  have h : (c.initialTokens.toNat : ℚ) ≤ c.maxTokens.toNat := by exact_mod_cast c.initial_le_max
  exact h

namespace RateLimiter

/-- The time since the last refill, in intervals. -/
def elapsed (l : RateLimiter) (now : ℤ) : ℚ := ((now : ℚ) - l.lastRefill) / l.config.intervalNs

/-- The credit that a limiter stands for at an instant. -/
def credit (l : RateLimiter) (now : ℤ) : ℚ :=
  min (l.config.maxTokens.toNat : ℚ) (l.tokens.toNat + l.elapsed now)

variable {l : RateLimiter} {now later : ℤ}

lemma credit_eq_advance (l : RateLimiter) (now : ℤ) :
    (⟨l.credit now, now⟩ : Level ℚ)
      = (bucket l.config).advance ⟨l.tokens.toNat, l.lastRefill⟩ now := by
  ext
  · rw [Bucket.advance_credit, credit, elapsed, bucket, div_eq_inv_mul, one_div]
  · rfl

/-- At the instant of the last refill the credit is the number of tokens. -/
lemma credit_lastRefill (h : l.tokens.toNat ≤ l.config.maxTokens.toNat) :
    l.credit l.lastRefill = l.tokens.toNat := by
  have h' : (l.tokens.toNat : ℚ) ≤ l.config.maxTokens.toNat := by exact_mod_cast h
  rw [credit, elapsed, sub_self, zero_div, add_zero, min_eq_right h']

/-- The credit of a limiter grows as that of the bucket does. -/
lemma advance_credit (hle : now ≤ later) :
    (bucket l.config).advance ⟨l.credit now, now⟩ later = ⟨l.credit later, later⟩ := by
  have hle' : (now : ℚ) ≤ later := by exact_mod_cast hle
  rw [credit_eq_advance l now, credit_eq_advance l later,
    Bucket.advance_advance (bucket_rate_nonneg _) hle']

lemma floor_elapsed (l : RateLimiter) (now : ℤ) : ⌊l.elapsed now⌋ = l.intervals now := by
  rw [elapsed, ← Int.cast_sub, Int.floor_div_cast_of_nonneg l.config.intervalNs_pos.le,
    Int.floor_intCast, intervals]

/-- The whole part of the credit. -/
lemma floor_credit (l : RateLimiter) (now : ℤ) :
    ⌊l.credit now⌋ = min (l.tokens.toNat + l.intervals now) (l.config.maxTokens.toNat : ℤ) := by
  have hmin : ⌊l.credit now⌋
      = min ⌊(l.config.maxTokens.toNat : ℚ)⌋ ⌊(l.tokens.toNat : ℚ) + l.elapsed now⌋ :=
    Int.floor_mono.map_min
  rw [hmin, Int.floor_natCast, Int.floor_natCast_add, floor_elapsed, min_comm]

/-- A refill leaves as many tokens as the credit has whole units. -/
lemma tokens_refill (h : Inv now l) :
    ((l.refill now).tokens.toNat : ℤ) = ⌊l.credit now⌋ := by
  rw [floor_credit]
  rcases refill_cases h with ⟨htok, -, hfull⟩ | ⟨htok, -, hlt⟩ <;> omega

/-- What the time still unaccounted for is worth after a refill. -/
lemma elapsed_refill (h : Inv now l) :
    ((l.refill now).tokens.toNat = l.config.maxTokens.toNat ∧ (l.refill now).elapsed now = 0 ∧
        l.credit now = l.config.maxTokens.toNat) ∨
      ((l.refill now).elapsed now < 1 ∧
        l.credit now = (l.refill now).tokens.toNat + (l.refill now).elapsed now ∧
        (l.refill now).tokens.toNat < l.config.maxTokens.toNat) := by
  have hI : (l.config.intervalNs : ℚ) ≠ 0 := by exact_mod_cast l.config.intervalNs_pos.ne'
  have hle : (l.intervals now : ℚ) ≤ l.elapsed now := by
    rw [← floor_elapsed]
    exact Int.floor_le _
  rcases refill_cases h with ⟨htok, hlast, hfull⟩ | ⟨htok, hlast, hlt⟩
  · -- a full bucket carries no part of an interval
    refine Or.inl ⟨htok, by rw [elapsed, hlast, sub_self, zero_div], min_eq_left ?_⟩
    have hfull' : (l.config.maxTokens.toNat : ℚ) ≤ l.tokens.toNat + l.intervals now := by
      exact_mod_cast hfull
    linarith
  · have hrest : (l.refill now).elapsed now = l.elapsed now - l.intervals now := by
      rw [elapsed, elapsed, refill_config, hlast]
      push_cast
      field_simp
      ring
    have hone : (l.refill now).elapsed now < 1 := by
      rw [hrest, ← floor_elapsed]
      linarith [Int.lt_floor_add_one (l.elapsed now)]
    have htok' : ((l.refill now).tokens.toNat : ℚ) = l.tokens.toNat + l.intervals now := by
      exact_mod_cast htok
    have hlt' : ((l.refill now).tokens.toNat : ℚ) + 1 ≤ l.config.maxTokens.toNat := by
      have hnat : (l.refill now).tokens.toNat + 1 ≤ l.config.maxTokens.toNat := by omega
      exact_mod_cast hnat
    refine Or.inr ⟨hone, ?_, by omega⟩
    rw [credit, min_eq_right (by linarith), htok', hrest]
    ring

/-- **A refill does not change the credit.** -/
theorem credit_refill (h : Inv now l) : (l.refill now).credit now = l.credit now := by
  rw [credit, refill_config]
  rcases elapsed_refill h with ⟨htok, hzero, hcredit⟩ | ⟨hone, hcredit, hlt⟩
  · rw [htok, hzero, hcredit, add_zero, min_self]
  · have hlt' : ((l.refill now).tokens.toNat : ℚ) + 1 ≤ l.config.maxTokens.toNat := by
      exact_mod_cast hlt
    rw [hcredit, min_eq_right (by linarith)]

/-- **Taking a token of the refilled bucket removes one from the credit**: the bucket carries
no more than the capacity allows, not even the part of an interval. -/
theorem credit_take (h : Inv now l) (hpos : 0 < (l.refill now).tokens.toNat) :
    ({ l.refill now with tokens := (l.refill now).tokens - 1 } : RateLimiter).credit now
      = l.credit now - 1 := by
  have htok : (((l.refill now).tokens - 1).toNat : ℚ) = (l.refill now).tokens.toNat - 1 := by
    rw [toNat_sub_one hpos, Nat.cast_sub hpos, Nat.cast_one]
  rw [credit]
  change min ((l.refill now).config.maxTokens.toNat : ℚ)
    (((l.refill now).tokens - 1).toNat + (l.refill now).elapsed now) = _
  rw [htok, refill_config]
  rcases elapsed_refill h with ⟨hfull, hzero, hcredit⟩ | ⟨hone, hcredit, hlt⟩
  · rw [hzero, hcredit, hfull, add_zero, min_eq_right (by linarith)]
  · have hlt' : ((l.refill now).tokens.toNat : ℚ) + 1 ≤ l.config.maxTokens.toNat := by
      exact_mod_cast hlt
    rw [hcredit, min_eq_right (by linarith)]
    ring

end RateLimiter

/-! ## The simulation -/

open RateLimiter

/-- A limiter and a level of its bucket: the level is the limiter's credit at an instant up to
which the limiter may be refilled. -/
structure Refines (c : SaneConfig) (l : RateLimiter) (v : Level ℚ) : Prop where
  config_eq : l.config = c
  level_eq : ∃ now : ℤ, Inv now l ∧ v = ⟨l.credit now, now⟩

lemma refines_new (config : Config) (t : ℤ) :
    Refines (sanitized config) (RateLimiter.new config t)
      ⟨(bucket (sanitized config)).initial, t⟩ := by
  have hcredit : (RateLimiter.new config t).credit t = (bucket (sanitized config)).initial :=
    credit_lastRefill (inv_new config t).tokens_le
  exact ⟨rfl, t, inv_new config t, by rw [hcredit]⟩

/-- **One call and one request.** -/
theorem step_refines {c : SaneConfig} {l : RateLimiter} {v : Level ℚ} {call : Call}
    (hR : Refines c l v) (hle : NotBefore v call.request) :
    (step l call).1 = ((bucket c).step v call.request).1 ∧
      Refines c (step l call).2 ((bucket c).step v call.request).2 := by
  obtain ⟨rfl, t, hinv, rfl⟩ := hR
  have hle' : t ≤ call.first := by
    have h : (t : ℚ) ≤ call.first := by
      have h := hle
      rwa [NotBefore, Call.time_request] at h
    exact_mod_cast h
  cases call with
  | tryAcquire now later =>
    have hinv' : Inv now l := hinv.mono hle'
    have hadv := advance_credit (l := l) hle'
    have hfloor := tokens_refill hinv'
    -- the bucket holds a whole unit if and only if the refilled limiter holds a token
    have hiff : 1 ≤ l.credit now ↔ 0 < (l.refill now).tokens.toNat := by
      have h1 : 1 ≤ l.credit now ↔ (1 : ℤ) ≤ ⌊l.credit now⌋ := by
        rw [Int.le_floor, Int.cast_one]
      rw [h1, ← hfloor]
      omega
    simp only [step, Call.request, Bucket.step, tryAcquire, takeOrWaitTime_eq]
    rw [show (Call.tryAcquire now later).first = now from rfl] at hadv
    rw [hadv]
    by_cases hpos : 0 < (l.refill now).tokens.toNat
    · rw [if_pos hpos, if_pos (hiff.mpr hpos)]
      refine ⟨rfl, refill_config, now, ⟨?_, hinv'.refill.last_le⟩, ?_⟩
      · have h := hinv'.refill.tokens_le
        have h1 := toNat_sub_one hpos
        simp only
        omega
      · rw [credit_take hinv' hpos]
    · rw [if_neg hpos, if_neg (fun h => hpos (hiff.mp h))]
      refine ⟨rfl, refill_config, now, hinv'.refill, ?_⟩
      rw [credit_refill hinv']
  | availableTokens now =>
    have hinv' : Inv now l := hinv.mono hle'
    have hadv := advance_credit (l := l) hle'
    simp only [step, Call.request, Bucket.step]
    rw [show (Call.availableTokens now).first = now from rfl] at hadv
    rw [hadv]
    refine ⟨?_, rfl, now, hinv', rfl⟩
    rw [availableTokens_eq hinv', floor_credit]
  | reset now =>
    have hinv : Inv now (l.reset now) := inv_reset
    have hcredit : (l.reset now).credit now = (bucket l.config).initial :=
      credit_lastRefill hinv.tokens_le
    refine ⟨rfl, rfl, now, inv_reset, ?_⟩
    change (⟨(bucket l.config).initial, now⟩ : Level ℚ) = ⟨(l.reset now).credit now, now⟩
    rw [hcredit]

/-- Readings in order make a run of requests in order. -/
lemma admissible_of_inOrder {c : SaneConfig} {v : Level ℚ} {t : ℤ} {calls : List Call}
    (hv : v.since ≤ t) (h : InOrder t calls) :
    Admissible NotBefore (bucket c).step v (calls.map Call.request) := by
  induction calls generalizing v t with
  | nil => trivial
  | cons call calls ih =>
    obtain ⟨h1, h2, h3⟩ := inOrder_cons.mp h
    have h1' : (t : ℚ) ≤ call.first := by exact_mod_cast h1
    have h2' : (call.first : ℚ) ≤ call.last := by exact_mod_cast h2
    refine ⟨?_, ih ?_ h3⟩
    · rw [NotBefore, Call.time_request]
      exact hv.trans h1'
    · rw [Bucket.step_since, Call.time_request]
      exact h2'

/-- **The limiter and its bucket** answer a run alike and stay related. -/
theorem run_refines {c : SaneConfig} {l : RateLimiter} {v : Level ℚ} {calls : List Call}
    (hR : Refines c l v) (hok : Admissible NotBefore (bucket c).step v (calls.map Call.request)) :
    answers step l calls = answers (bucket c).step v (calls.map Call.request) ∧
      Refines c (final step l calls) (final (bucket c).step v (calls.map Call.request)) := by
  rw [answers_map, final_map]
  exact simulates (fun _ _ _ => step_refines) hR ((admissible_map _ _ _ _ _).mp hok)

/-! ## The main result -/

/-- The answer of a call that takes nothing: a failed take, or a number of tokens. -/
def IsSilent : Answer → Prop
  | .taken ok => ok = false
  | .available _ => True
  | .reset => False

lemma silent_of_isSilent {c : SaneConfig} {v : Level ℚ} {call : Call}
    (h : IsSilent ((bucket c).step v call.request).1) : Silent (bucket c) v call.request := by
  cases call with
  | tryAcquire now later =>
    simp only [Silent, Call.request, Bucket.step] at h ⊢
    split at h
    · exact absurd h (by simp [IsSilent])
    · rename_i hlt
      rw [if_neg hlt]
  | availableTokens now => trivial
  | reset now => exact h.elim

/-- A call that takes nothing may be left out: no later answer changes. -/
lemma answers_of_isSilent {c : SaneConfig} {l : RateLimiter} {v : Level ℚ} {call : Call}
    {post : List Call} (hR : Refines c l v)
    (hok : Admissible NotBefore (bucket c).step v ((call :: post).map Call.request))
    (h : IsSilent (step l call).1) :
    answers step (step l call).2 post = answers step l post := by
  obtain ⟨hcall, hpost⟩ := hok
  obtain ⟨hans, hR'⟩ := step_refines hR hcall
  have hsilent : Silent (bucket c) v call.request := silent_of_isSilent (hans ▸ h)
  have hsince : v.since ≤ ((bucket c).step v call.request).2.since := by
    rw [Bucket.step_since]
    exact hcall
  have hhead : ∀ r ∈ (post.map Call.request).head?, call.request.time ≤ r.time := by
    cases post with
    | nil => simp
    | cons next post =>
      have hnext := hpost.1
      rw [NotBefore, Bucket.step_since] at hnext
      simpa using hnext
  calc answers step (step l call).2 post
      = answers (bucket c).step ((bucket c).step v call.request).2 (post.map Call.request) :=
        (run_refines hR' hpost).1
    _ = answers (bucket c).step v (post.map Call.request) :=
        answers_of_silent (bucket_rate_nonneg c) hsilent hhead
    _ = answers step l post :=
        (run_refines hR (admissible_of_since_le hsince hpost)).1.symm

/-- The level of the bucket at a later instant, in terms of the limiter. -/
lemma Refines.credit_advance {c : SaneConfig} {l : RateLimiter} {v : Level ℚ} (hR : Refines c l v)
    {now : ℤ} (hnow : v.since ≤ now) :
    ((bucket c).advance v now).credit
      = min (c.maxTokens.toNat : ℚ)
        (l.tokens.toNat + ((now : ℚ) - l.lastRefill) / c.intervalNs) := by
  obtain ⟨rfl, t, -, rfl⟩ := hR
  have ht : t ≤ now := by
    have hnow' : (t : ℚ) ≤ now := hnow
    exact_mod_cast hnow'
  rw [advance_credit ht, credit, elapsed]

/-- An instant after all readings of a run comes after the last request. -/
lemma since_final_le_of_readings {b : Bucket ℚ} {v : Level ℚ} {t₀ now : ℤ} {calls : List Call}
    (hv : v.since = t₀) (hnow : ∀ r ∈ t₀ :: calls.flatMap Call.readings, r ≤ now) :
    (final b.step v (calls.map Call.request)).since ≤ (now : ℚ) := by
  have hfirst : ∀ call : Call, call.first ∈ call.readings := by
    intro call
    cases call <;> simp [Call.first, Call.readings]
  have hstart : v.since ≤ (now : ℚ) := by
    rw [hv]
    exact_mod_cast hnow t₀ (by simp)
  refine since_final_le hstart ?_
  intro r hr
  obtain ⟨call, hcall, rfl⟩ := List.mem_map.mp hr
  have hmem : call.first ∈ calls.flatMap Call.readings :=
    List.mem_flatMap.mpr ⟨call, hcall, hfirst call⟩
  rw [Call.time_request]
  exact_mod_cast hnow _ (List.mem_cons_of_mem _ hmem)

/-- **The limiter is the ideal token bucket.**  On every run of calls at readings that never
decrease it gives the answers of the bucket of its configuration, whose credit at any later
instant is the number of tokens and the part of the time since the last refill, capped at the
capacity; and leaving out a failed take or a question for the number of tokens changes no other
answer. -/
theorem limiter_is_ideal_bucket (config : Config) (t₀ : ℤ) (calls : List Call)
    (h : InOrder t₀ calls) :
    let l₀ := RateLimiter.new config t₀
    let c := sanitized config
    let v₀ : Level ℚ := ⟨c.initialTokens.toNat, t₀⟩
    answers step l₀ calls = answers (bucket c).step v₀ (calls.map Call.request) ∧
      (∀ now : ℤ, (∀ r ∈ t₀ :: calls.flatMap Call.readings, r ≤ now) →
        ((bucket c).advance (final (bucket c).step v₀ (calls.map Call.request)) now).credit
          = min (c.maxTokens.toNat : ℚ)
            ((final step l₀ calls).tokens.toNat
              + ((now : ℚ) - (final step l₀ calls).lastRefill) / c.intervalNs)) ∧
      (∀ pre call post, calls = pre ++ call :: post →
        IsSilent (step (final step l₀ pre) call).1 →
        answers step l₀ (pre ++ post) = (answers step l₀ calls).eraseIdx pre.length) := by
  intro l₀ c v₀
  have hR₀ : Refines c l₀ v₀ := refines_new config t₀
  have hok₀ : Admissible NotBefore (bucket c).step v₀ (calls.map Call.request) :=
    admissible_of_inOrder (le_refl _) h
  refine ⟨(run_refines hR₀ hok₀).1, ?_, ?_⟩
  · intro now hnow
    exact (run_refines hR₀ hok₀).2.credit_advance (since_final_le_of_readings rfl hnow)
  · rintro pre call post rfl hsilent
    rw [List.map_append, admissible_append] at hok₀
    obtain ⟨hpre, hpost⟩ := hok₀
    have hR := (run_refines hR₀ hpre).2
    rw [answers_append, answers_append, answers_cons, List.eraseIdx_append_of_length_le (by simp),
      length_answers, Nat.sub_self, List.eraseIdx_cons_zero, answers_of_isSilent hR hpost hsilent]

/-- One token at a time, every five milliseconds. -/
def slowConfig : Config := { maxTokens := 1, refillInterval := 5, initialTokens := 1 }

theorem limiter_is_ideal_bucket_slow :
    answers (bucket (sanitized slowConfig)).step
        ⟨((sanitized slowConfig).initialTokens.toNat : ℚ), ((0 : ℤ) : ℚ)⟩
        ([.tryAcquire 1 1, .tryAcquire 2 3, .availableTokens 5000001, .reset 5000002].map
          Call.request)
      = [.taken true, .taken false, .available 1, .reset] :=
  (limiter_is_ideal_bucket slowConfig 0
    [.tryAcquire 1 1, .tryAcquire 2 3, .availableTokens 5000001, .reset 5000002]
    (by unfold InOrder; decide)).1.symm.trans (by decide)

end GribCpp.RateLimit
