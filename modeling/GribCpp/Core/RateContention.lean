/-
# No client sleeps for nothing

A call of `acquire` without a deadline may go round its loop any number of times when other
clients are faster.  But it does not go round for nothing: when it wakes up, its token is there,
unless another client has taken a token or has reset the limiter since its last take.  So every
sleep but the first one is paid for by such a loss, none is longer than an interval, and the time
that the call sleeps is bounded by what it loses to the others.
-/
import GribCpp.Core.RateBlocking
import GribCpp.Core.RatePermits

namespace GribCpp.RateLimit

open RateLimiter

variable {κ : Type*} [DecidableEq κ]

/-! ## Losses -/

/-- A client loses something to a step when another client takes a token or resets the limiter. -/
def Event.robs (c : κ) : Event κ → Bool
  | .tryAcquire d _ _ ok => d ≠ c && ok
  | .take d _ _ wait => d ≠ c && wait.isNone
  | .reset d _ => d ≠ c
  | _ => false

/-- The run up to the end of the call that a client is in. -/
def during (c : κ) : List (Event κ) → List (Event κ)
  | [] => []
  | e :: es => if e.client = c ∧ e.returns.isSome then [e] else e :: during c es

/-- What a client loses until its call ends. -/
def losses (c : κ) (es : List (Event κ)) : ℕ := (during c es).countP (Event.robs c)

section Losses

variable {s s' : System κ} {e : Event κ} {es : List (Event κ)} {c : κ}

/-- A client robs itself of nothing. -/
lemma not_robs_of_client (h : e.client = c) : e.robs c = false := by
  subst h
  cases e <;> simp [Event.robs, Event.client]

/-- A step of another client that robs nobody takes nothing and resets nothing. -/
lemma takenAt_of_not_robs (hc : e.client ≠ c) (h : e.robs c = false) :
    e.takenAt = none ∧ ∀ d now, e ≠ .reset d now := by
  cases e with
  | tryAcquire d now later ok =>
    have hok : ok = false := by simpa [Event.robs, show d ≠ c from hc] using h
    subst hok
    exact ⟨rfl, by simp⟩
  | take d now later wait =>
    cases wait with
    | none => exact absurd h (by simp [Event.robs, show d ≠ c from hc])
    | some wait => exact ⟨rfl, by simp⟩
  | reset d now => exact absurd h (by simp [Event.robs, show d ≠ c from hc])
  | acquire | acquireFor | giveUp | sleep | availableTokens => exact ⟨rfl, by simp⟩

lemma losses_other (hc : e.client ≠ c) :
    losses c (e :: es) = losses c es + if e.robs c then 1 else 0 := by
  rw [losses, during, if_neg (fun h => hc h.1), List.countP_cons, losses]

lemma losses_own (hc : e.client = c) (hret : e.returns = none) :
    losses c (e :: es) = losses c es := by
  have hstay : ¬ (e.client = c ∧ e.returns.isSome) := by simp [hret]
  rw [losses, during, if_neg hstay, List.countP_cons, not_robs_of_client hc, losses]
  rfl

end Losses

/-! ## Promises -/

/-- From some instant on there is a token, as long as nobody takes it. -/
def System.Promises (s : System κ) (T : ℤ) : Prop :=
  ∀ m, T ≤ m → s.clock ≤ m → 1 ≤ s.limiter.credit m

section Promises

variable {s s' : System κ} {e : Event κ} {c : κ} {T now later wait : ℤ}

lemma Step.clock_le (h : Step s e s') : s.clock ≤ s'.clock := by
  rcases h.call with ⟨-, -, -, hclock⟩ | ⟨call, -, hfirst, hlast, hclock, -, -⟩
  · exact hclock.ge
  · rw [hclock]
    exact hfirst.trans hlast

/-- A promise is kept by every step that robs nobody. -/
lemma System.Promises.step (h : s.Promises T) (hstep : Step s e s')
    (hinv : s.limiter.Inv s.clock) (hc : e.client ≠ c) (hrobs : e.robs c = false) :
    s'.Promises T := by
  obtain ⟨htaken, hreset⟩ := takenAt_of_not_robs hc hrobs
  intro m hT hclock
  rw [hstep.credit_kept hinv htaken hreset hclock]
  exact h m hT (hstep.clock_le.trans hclock)

/-- **A wait is a promise**: a take that fails says when there is a token. -/
lemma promises_of_wait {l : RateLimiter} (hinv : l.Inv now) (hle : now ≤ later)
    (hfits : l.config.refillInterval < (2 ^ 63 - 1) / 1000000)
    (htake : (l.takeOrWaitTime now later).1 = some wait) {m : ℤ} (hlater : later ≤ m)
    (hm : later + wait ≤ m) : 1 ≤ (l.takeOrWaitTime now later).2.credit m := by
  have hinv' : (l.takeOrWaitTime now later).2.Inv m := (hinv.takeOrWaitTime hle).mono hlater
  have hnone : ((l.takeOrWaitTime now later).2.takeOrWaitTime m m).1 = none :=
    (RateLimiter.take_eq_none_iff hinv').mpr ((take_of_wait hinv hle hfits htake hlater).mpr hm)
  exact (take_eq_none_iff_one_le_credit hinv').mp hnone

/-- A wait is never longer than an interval. -/
lemma wait_bounds {l : RateLimiter} (hinv : l.Inv now) (hle : now ≤ later)
    (hfits : l.config.refillInterval < (2 ^ 63 - 1) / 1000000)
    (htake : (l.takeOrWaitTime now later).1 = some wait) :
    0 ≤ wait ∧ wait ≤ l.config.intervalNs := by
  obtain ⟨-, -, -, hwait⟩ := take_eq_some hinv hfits htake
  have hlast := hinv.refill.last_le
  have hI := l.config.intervalNs_pos
  omega

end Promises

/-! ## The steps of a loop -/

/-- The sleeps that a client is about to request. -/
def Place.ahead : Place → ℕ
  | .waiting _ _ => 1
  | _ => 0

section Loop

variable {s s' : System κ} {since : κ → ℤ} {e : Event κ} {es : List (Event κ)} {c : κ}
  {deadline : Option ℤ} {wait : ℤ}

omit [DecidableEq κ] in
/-- How often a call sleeps does not depend on the wait that it begins with. -/
lemma length_sleepsAfter (w w' : ℤ) (es : List (Event κ)) :
    (sleepsAfter w es).length = (sleepsAfter w' es).length := by
  induction es generalizing w w' with
  | nil => rfl
  | cons e es ih =>
    cases e with
    | take d now later wait =>
      cases wait with
      | none => exact ih w w'
      | some wait => rfl
    | sleep d now => exact congrArg (· + 1) (ih w w')
    | tryAcquire | acquire | acquireFor | giveUp | availableTokens | reset => exact ih w w'

/-- At the head of its loop a client takes a token or is told to wait. -/
lemma Step.looping (h : Step s e s') (hc : e.client = c) (hplace : s.place c = .looping deadline) :
    (∃ now later, e = .take c now later none) ∨
      ∃ now later wait, e = .take c now later (some wait) ∧ s.clock ≤ now ∧ now ≤ later ∧
        (s.limiter.takeOrWaitTime now later).1 = some wait ∧
        s'.limiter = (s.limiter.takeOrWaitTime now later).2 ∧ s'.clock = later ∧
        s'.place c = .waiting deadline wait := by
  subst hc
  cases h with
  | tryAcquire hidle | acquire hidle | acquireFor hidle | availableTokens hidle | reset hidle =>
    exact absurd (hidle.symm.trans hplace) (by simp)
  | takeOk => exact Or.inl ⟨_, _, rfl⟩
  | takeWait hloop hnow hlater htake =>
    obtain rfl : _ = deadline := by simpa using hloop.symm.trans hplace
    exact Or.inr ⟨_, _, _, rfl, hnow, hlater, htake, rfl, rfl, Function.update_self ..⟩
  | giveUp hwait | sleep hwait => exact absurd (hwait.symm.trans hplace) (by simp)

/-- Behind a take that has failed it gives up or sleeps. -/
lemma Step.waiting (h : Step s e s') (hc : e.client = c)
    (hplace : s.place c = .waiting deadline wait) :
    (∃ now, e = .giveUp c now) ∨
      ∃ now, e = .sleep c now ∧ s'.limiter = s.limiter ∧ s'.clock = s.clock ∧
        s'.place c = .looping deadline := by
  subst hc
  cases h with
  | tryAcquire hidle | acquire hidle | acquireFor hidle | availableTokens hidle | reset hidle =>
    exact absurd (hidle.symm.trans hplace) (by simp)
  | takeOk hloop | takeWait hloop => exact absurd (hloop.symm.trans hplace) (by simp)
  | giveUp => exact Or.inl ⟨_, rfl⟩
  | sleep hwait =>
    obtain ⟨rfl, -⟩ : _ = deadline ∧ _ = wait := by simpa using hwait.symm.trans hplace
    exact Or.inr ⟨_, rfl, rfl, rfl, Function.update_self ..⟩

/-- **The sleeps of a call**: besides the one that it is about to request, one for each loss, and
one more if there is no promise. -/
lemma length_sleeps_le (hrun : TimedRun s since es s') (hinv : s.limiter.Inv s.clock)
    (hfits : s.limiter.config.refillInterval < (2 ^ 63 - 1) / 1000000)
    (hbusy : s.place c ≠ .idle) :
    (sleepsAfter (s.place c).wait (callOf c es)).length ≤ losses c es + (s.place c).ahead + 1 ∧
      (s.Promises (since c + (s.place c).wait) →
        (sleepsAfter (s.place c).wait (callOf c es)).length
          ≤ losses c es + (s.place c).ahead) := by
  induction hrun with
  | nil => simp [callOf, sleepsAfter]
  | @cons s s₁ s₂ since e es hstep hsince _ ih =>
    have hinv' := hstep.inv hinv
    have hfits' : s₁.limiter.config.refillInterval < (2 ^ 63 - 1) / 1000000 := by
      rwa [hstep.config_eq]
    by_cases hc : e.client = c
    · rw [hc] at hsince
      simp only [hc, Function.update_self] at ih
      cases hplace : s.place c with
      | idle => exact absurd hplace hbusy
      | looping deadline =>
        rcases hstep.looping hc hplace with ⟨now, later, rfl⟩ |
          ⟨now, later, wait, rfl, hnow, hlater, htake, hlim, hclock, hplace'⟩
        · rw [callOf_return hc rfl]
          simp [sleepsAfter]
        · have hinvnow := hinv.mono hnow
          obtain ⟨-, hpromised⟩ := ih hinv' hfits' (by simp [hplace'])
          rw [hplace'] at hpromised
          have hsleeps := hpromised fun m hm hm' => by
            rw [hlim]
            exact promises_of_wait hinvnow hlater hfits htake (hclock ▸ hm') hm
          rw [callOf_own hc rfl, losses_own hc rfl]
          refine ⟨by simpa [sleepsAfter, Place.wait, Place.ahead] using hsleeps, fun hkept => ?_⟩
          -- a promise that was kept is a take that succeeds
          have hone := hkept now (by simpa [Place.wait, Event.start] using hsince) hnow
          have hnone : (s.limiter.takeOrWaitTime now later).1 = none :=
            (take_eq_none_iff_one_le_credit hinvnow).mpr hone
          exact absurd (htake.symm.trans hnone) (by simp)
      | waiting deadline wait =>
        rcases hstep.waiting hc hplace with ⟨now, rfl⟩ | ⟨now, rfl, hlim, hclock, hplace'⟩
        · rw [callOf_return hc rfl]
          simp [sleepsAfter]
        · obtain ⟨hall, hpromised⟩ := ih hinv' hfits' (by simp [hplace'])
          rw [hplace'] at hall hpromised
          rw [callOf_own hc rfl, losses_own hc rfl]
          simp only [sleepsAfter, Place.wait, Place.ahead, List.length_cons, readingAfter, hplace,
            add_zero, length_sleepsAfter wait 0] at hall hpromised ⊢
          refine ⟨by omega, fun hkept => ?_⟩
          have hle : since c + wait ≤ now + wait := by
            simpa [Event.start] using hsince
          have hlater := hpromised fun m hm hm' => by
            rw [hlim]
            exact hkept m (hle.trans hm) (hclock ▸ hm')
          omega
    · have hplace := hstep.place_other hc
      obtain ⟨hall, hpromised⟩ := ih hinv' hfits' (by rwa [hplace])
      rw [hplace] at hall hpromised
      rw [Function.update_of_ne (Ne.symm hc)] at hpromised
      rw [callOf_other hc, losses_other hc]
      cases hrobs : e.robs c with
      | true =>
        simp only [if_true]
        exact ⟨by omega, fun _ => by omega⟩
      | false =>
        simp only [Bool.false_eq_true, if_false, add_zero]
        exact ⟨hall, fun hkept => hpromised (hkept.step hstep hinv hc hrobs)⟩

end Loop

/-! ## The length of a sleep -/

section Length

variable {s s' : System κ} {e : Event κ} {es : List (Event κ)} {c : κ} {wait : ℤ}

lemma mem_of_mem_callOf (h : e ∈ callOf c es) : e ∈ es := by
  induction es with
  | nil => exact h
  | cons e' es ih =>
    rw [callOf] at h
    split_ifs at h with hc hret
    · exact List.mem_cons_of_mem _ (ih h)
    · exact List.mem_cons.mpr (Or.inl (List.mem_singleton.mp h))
    · exact List.mem_cons.mpr ((List.mem_cons.mp h).imp_right ih)

omit [DecidableEq κ] in
/-- A sleep is as long as a take has said. -/
lemma sleepsAfter_forall {P : ℤ → Prop} (hwait : P wait)
    (h : ∀ d now later w, .take d now later (some w) ∈ es → P w) :
    ∀ p ∈ sleepsAfter wait es, P p.2 := by
  induction es generalizing wait with
  | nil => simp [sleepsAfter]
  | cons e es ih =>
    have hrest : ∀ d now later w, .take d now later (some w) ∈ es → P w :=
      fun d now later w hmem => h d now later w (List.mem_cons_of_mem _ hmem)
    cases e with
    | take d now later w =>
      cases w with
      | none => exact ih hwait hrest
      | some w => exact ih (h d now later w (List.mem_cons_self ..)) hrest
    | sleep d now =>
      rw [sleepsAfter, List.forall_mem_cons]
      exact ⟨hwait, ih hwait hrest⟩
    | tryAcquire | acquire | acquireFor | giveUp | availableTokens | reset =>
      exact ih hwait hrest

/-- **No take asks for a longer wait than an interval.** -/
lemma Run.wait_bounds (hrun : Run s es s') (hinv : s.limiter.Inv s.clock)
    (hfits : s.limiter.config.refillInterval < (2 ^ 63 - 1) / 1000000) :
    ∀ d now later w, .take d now later (some w) ∈ es →
      0 ≤ w ∧ w ≤ s.limiter.config.intervalNs := by
  induction hrun with
  | nil => simp
  | @cons s s₁ s₂ e es hstep _ ih =>
    intro d now later w hmem
    rcases List.mem_cons.mp hmem with rfl | hmem
    · cases hstep with
      | takeWait _ hnow hlater htake =>
        exact RateLimit.wait_bounds (hinv.mono hnow) hlater hfits htake
    · rw [← hstep.config_eq] at hfits ⊢
      exact ih (hstep.inv hinv) hfits d now later w hmem

end Length

/-! ## The main result -/

/-- **No client sleeps for nothing.**  In every interleaving, a call of `acquire` or `acquire_for`,
with whatever deadline or without one, sleeps at most once more than it loses tokens or resets to
the other clients until it returns, each time no longer than an interval, and all its sleeps
together are bounded accordingly. -/
theorem sleeps_paid (config : Config) (t₀ : ℤ)
    (hfits : (sanitized config).refillInterval < (2 ^ 63 - 1) / 1000000) {since : κ → ℤ}
    {pre rest : List (Event κ)} {call : Event κ} {c : κ} {s' : System κ}
    (hrun : TimedRun (System.init config t₀) since (pre ++ call :: rest) s')
    (hcall : (∃ now, call = .acquire c now) ∨ ∃ now maxWait, call = .acquireFor c now maxWait) :
    let sleeps := sleepsAfter 0 (callOf c rest)
    sleeps.length ≤ losses c rest + 1 ∧
      (∀ p ∈ sleeps, 0 ≤ p.2 ∧ p.2 ≤ (sanitized config).intervalNs) ∧
      (sleeps.map Prod.snd).sum ≤ (losses c rest + 1) * (sanitized config).intervalNs := by
  intro sleeps
  obtain ⟨s₀, since₀, hpre, htimed⟩ := hrun.cut
  obtain _ | ⟨hstep, -, hrest⟩ := htimed
  rename_i s₁
  have hrun₁ := hpre.append (.cons hstep .nil)
  obtain ⟨hinv, hconfig⟩ := hrun₁.inv
  rw [← hconfig] at hfits ⊢
  have hplace : ∃ deadline, s₁.place c = .looping deadline := by
    rcases hcall with ⟨now, rfl⟩ | ⟨now, maxWait, rfl⟩
    · cases hstep
      exact ⟨_, Function.update_self ..⟩
    · cases hstep
      exact ⟨_, Function.update_self ..⟩
  obtain ⟨deadline, hplace⟩ := hplace
  have hlen : sleeps.length ≤ losses c rest + 1 := by
    have h := (length_sleeps_le (c := c) hrest hinv hfits (by simp [hplace])).1
    rwa [hplace] at h
  have hI := s₁.limiter.config.intervalNs_pos
  have hbounds : ∀ p ∈ sleeps, 0 ≤ p.2 ∧ p.2 ≤ s₁.limiter.config.intervalNs :=
    sleepsAfter_forall (P := fun w => 0 ≤ w ∧ w ≤ s₁.limiter.config.intervalNs)
      ⟨le_refl 0, hI.le⟩ fun d now later w hmem =>
        hrest.run.wait_bounds hinv hfits d now later w (mem_of_mem_callOf hmem)
  refine ⟨hlen, hbounds, ?_⟩
  calc (sleeps.map Prod.snd).sum
      ≤ (sleeps.map Prod.snd).length • s₁.limiter.config.intervalNs := by
        refine List.sum_le_card_nsmul _ _ fun w hw => ?_
        obtain ⟨p, hp, rfl⟩ := List.mem_map.mp hw
        exact (hbounds p hp).2
    _ = sleeps.length * s₁.limiter.config.intervalNs := by
        rw [List.length_map, nsmul_eq_mul]
    _ ≤ (losses c rest + 1) * s₁.limiter.config.intervalNs := by
        refine mul_le_mul_of_nonneg_right ?_ hI.le
        exact_mod_cast hlen

/-- One client takes the only token, and then the one that the other client has waited for. -/
def robbedRun : List (Event Bool) :=
  [.tryAcquire true 1 1 true, .acquire false 2, .take false 2 3 (some 4999998), .sleep false 3,
    .tryAcquire true 5000001 5000001 true, .take false 5000001 5000001 (some 5000000),
    .sleep false 5000001, .take false 10000001 10000001 none]

lemma exists_timedRun_robbedRun :
    ∃ s', TimedRun (System.init slowConfig 0) (fun _ => 0) robbedRun s' := by
  have hfirst := @Step.tryAcquire Bool _ (System.init slowConfig 0) true 1 1
    rfl (by decide) (by decide)
  exact ⟨_, .cons hfirst (by decide) <| .cons (.acquire (by decide)) (by decide) <|
    .cons (.takeWait (show _ = Place.looping none by decide) (by decide) (by decide)
      (by decide)) (by decide) <|
    .cons (.sleep (show _ = Place.waiting none 4999998 by decide) (by decide)) (by decide) <|
    .cons (.tryAcquire (by decide) (by decide) (by decide)) (by decide) <|
    .cons (.takeWait (show _ = Place.looping none by decide) (by decide) (by decide)
      (by decide)) (by decide) <|
    .cons (.sleep (show _ = Place.waiting none 5000000 by decide) (by decide)) (by decide) <|
    .cons (.takeOk (show _ = Place.looping none by decide) (by decide) (by decide)
      (by decide)) (by decide) .nil⟩

/-- The client that is robbed once sleeps twice. -/
theorem sleeps_paid_robbed :
    let sleeps := sleepsAfter 0 (callOf false (robbedRun.drop 2))
    sleeps = [(3, 4999998), (5000001, 5000000)] ∧
      sleeps.length ≤ losses false (robbedRun.drop 2) + 1 ∧
      (sleeps.map Prod.snd).sum ≤ (losses false (robbedRun.drop 2) + 1) * 5000000 := by
  obtain ⟨s', hrun⟩ := exists_timedRun_robbedRun
  have hrun' : TimedRun (System.init slowConfig 0) (fun _ => 0)
      ([.tryAcquire true 1 1 true] ++ .acquire false 2 :: robbedRun.drop 2) s' := hrun
  have h := sleeps_paid slowConfig 0 (by decide) hrun' (Or.inl ⟨2, rfl⟩)
  exact ⟨rfl, h.1, h.2.2⟩

end GribCpp.RateLimit
