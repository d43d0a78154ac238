/-
# Blocking under contention

A call with a deadline may find the token it has waited for stolen by another client, any number
of times.  Nevertheless all its sleeps together fit between its first reading of the clock and
its deadline: each one is only requested when it ends by the deadline, and the next reading of
the client comes after it.

The clock is the one that each client sees: its readings never decrease, and `sleep_for` advances
it by at least the time requested.  What the clients read between each other's steps is not
restricted further.
-/
import GribCpp.Core.RateWait

namespace GribCpp.RateLimit

open RateLimiter

variable {κ : Type*}

/-! ## Timed runs -/

namespace Event

/-- The client that makes the step. -/
def client : Event κ → κ
  | .tryAcquire c .. | .acquire c _ | .acquireFor c .. | .take c .. | .giveUp c _ | .sleep c _
  | .availableTokens c .. | .reset c _ => c

/-- The first reading of the step. -/
def start : Event κ → ℤ
  | .tryAcquire _ now _ _ | .acquire _ now | .acquireFor _ now _ | .take _ now _ _
  | .giveUp _ now | .sleep _ now | .availableTokens _ now _ | .reset _ now => now

/-- Its last reading. -/
def stop : Event κ → ℤ
  | .tryAcquire _ _ later _ | .take _ _ later _ => later
  | .acquire _ now | .acquireFor _ now _ | .giveUp _ now | .sleep _ now
  | .availableTokens _ now _ | .reset _ now => now

/-- What `acquire_for` returns with this step, if it does. -/
def returns : Event κ → Option Bool
  | .take _ _ _ none => some true
  | .giveUp _ _ => some false
  | _ => none

end Event

/-- The time that a client waits for. -/
def Place.wait : Place → ℤ
  | .waiting _ wait => wait
  | _ => 0

section Timed

variable [DecidableEq κ]

/-- The instant that the client of a step does not read the clock before, afterwards: a sleep
ends after the time requested. -/
def readingAfter (s : System κ) (e : Event κ) : ℤ :=
  match e with
  | .sleep c now => now + (s.place c).wait
  | e => e.stop

/-- The runs in which no client reads the clock before `since`. -/
inductive TimedRun : System κ → (κ → ℤ) → List (Event κ) → System κ → Prop
  | nil {s : System κ} {since : κ → ℤ} : TimedRun s since [] s
  | cons {s s' s'' : System κ} {since : κ → ℤ} {e : Event κ} {es : List (Event κ)}
      (hstep : Step s e s') (hsince : since e.client ≤ e.start)
      (hrest : TimedRun s' (Function.update since e.client (readingAfter s e)) es s'') :
      TimedRun s since (e :: es) s''

end Timed

/-! ## The calls of a client -/

section Calls

variable [DecidableEq κ]

/-- The steps of the call that a client is in: its own, up to the one that returns. -/
def callOf (c : κ) : List (Event κ) → List (Event κ)
  | [] => []
  | e :: es =>
    if e.client ≠ c then callOf c es
    else if e.returns.isSome then [e]
    else e :: callOf c es

/-- The sleeps that a call requests, each with the reading before it and the wait that the last
take has answered. -/
def sleepsAfter (wait : ℤ) : List (Event κ) → List (ℤ × ℤ)
  | [] => []
  | .take _ _ _ (some wait') :: es => sleepsAfter wait' es
  | .sleep _ now :: es => (now, wait) :: sleepsAfter wait es
  | _ :: es => sleepsAfter wait es

variable {s s' : System κ} {since : κ → ℤ} {e : Event κ} {es es' : List (Event κ)} {c : κ}

lemma callOf_other (h : e.client ≠ c) : callOf c (e :: es) = callOf c es := by
  rw [callOf, if_pos h]

lemma callOf_return (h : e.client = c) (hret : e.returns.isSome) : callOf c (e :: es) = [e] := by
  rw [callOf, if_neg (not_not.mpr h), if_pos hret]

lemma callOf_own (h : e.client = c) (hret : e.returns = none) :
    callOf c (e :: es) = e :: callOf c es := by
  rw [callOf, if_neg (not_not.mpr h), hret]
  rfl

/-- The client is in a call with a deadline. -/
def InCall (s : System κ) (c : κ) (d : ℤ) : Prop :=
  s.place c = .looping (some d) ∨ ∃ wait, s.place c = .waiting (some d) wait

/-- **Frame**: a step moves no other client. -/
lemma Step.place_other (h : Step s e s') (hne : e.client ≠ c) : s'.place c = s.place c := by
  cases h <;> first | rfl | exact Function.update_of_ne (Ne.symm hne) _ _

omit [DecidableEq κ] in
lemma not_inCall {d : ℤ} (h : s.place c = .idle) : ¬ InCall s c d := by
  rintro (hplace | ⟨wait, hplace⟩) <;> exact absurd (h.symm.trans hplace) (by simp)

omit [DecidableEq κ] in
lemma InCall.looping {d : ℤ} {deadline : Option ℤ} (h : InCall s c d)
    (hplace : s.place c = .looping deadline) : deadline = some d := by
  rcases h with h | ⟨wait, h⟩
  · simpa using hplace.symm.trans h
  · exact absurd (hplace.symm.trans h) (by simp)

omit [DecidableEq κ] in
lemma InCall.waiting {d wait : ℤ} {deadline : Option ℤ} (h : InCall s c d)
    (hplace : s.place c = .waiting deadline wait) : deadline = some d := by
  rcases h with h | ⟨wait', h⟩
  · exact absurd (hplace.symm.trans h) (by simp)
  · have heq := hplace.symm.trans h
    simp only [Place.waiting.injEq] at heq
    exact heq.1

/-- **The steps of a client in a call**: a take that succeeds, one that fails, the end of the
call without a token, or a sleep that ends by the deadline. -/
lemma Step.inCall {d : ℤ} (h : Step s e s') (hc : e.client = c) (hcall : InCall s c d) :
    (∃ now later, e = .take c now later none) ∨
      (∃ now later wait, e = .take c now later (some wait) ∧ now ≤ later ∧
        s'.place c = .waiting (some d) wait) ∨
      (∃ now, e = .giveUp c now) ∨
      ∃ now wait, e = .sleep c now ∧ s.place c = .waiting (some d) wait ∧ wait ≤ d - now ∧
        s'.place c = .looping (some d) := by
  subst hc
  cases h with
  | tryAcquire hplace | acquire hplace | acquireFor hplace | availableTokens hplace
  | reset hplace => exact absurd hcall (not_inCall hplace)
  | takeOk => exact Or.inl ⟨_, _, rfl⟩
  | takeWait hplace _ hlater =>
    obtain rfl := hcall.looping hplace
    exact Or.inr (Or.inl ⟨_, _, _, rfl, hlater, Function.update_self ..⟩)
  | giveUp => exact Or.inr (Or.inr (Or.inl ⟨_, rfl⟩))
  | sleep hplace hwait =>
    obtain rfl := hcall.waiting hplace
    exact Or.inr (Or.inr (Or.inr ⟨_, _, rfl, hplace, hwait d rfl, Function.update_self ..⟩))

/-- A call goes on until a step returns. -/
lemma Step.stays_inCall {d : ℤ} (h : Step s e s') (hcall : InCall s c d)
    (hret : e.client = c → e.returns = none) : InCall s' c d := by
  by_cases hc : e.client = c
  · rcases h.inCall hc hcall with ⟨now, later, rfl⟩ | ⟨now, later, wait, -, -, hplace⟩ |
      ⟨now, rfl⟩ | ⟨now, wait, -, -, -, hplace⟩
    · exact absurd (hret rfl) (by simp [Event.returns])
    · exact Or.inr ⟨wait, hplace⟩
    · exact absurd (hret rfl) (by simp [Event.returns])
    · exact Or.inl hplace
  · rw [InCall, h.place_other hc]
    exact hcall

/-! ## The sleeps of a call -/

/-- **The sleeps of a call** that waits for `wait` or is about to take: each one ends by the
deadline, and together they fit before it. -/
lemma sleeps_le {d wait : ℤ} (hrun : TimedRun s since es s')
    (hplace : s.place c = .looping (some d) ∨ s.place c = .waiting (some d) wait) :
    (∀ p ∈ sleepsAfter wait (callOf c es), p.1 + p.2 ≤ d) ∧
      since c + ((sleepsAfter wait (callOf c es)).map Prod.snd).sum ≤ max d (since c) := by
  induction hrun generalizing wait with
  | nil => exact ⟨by simp [callOf, sleepsAfter], by simp [callOf, sleepsAfter]⟩
  | @cons s s₁ s₂ since e es hstep hsince _ ih =>
    by_cases hc : e.client = c
    · have hcall : InCall s c d := hplace.imp_right fun h => ⟨wait, h⟩
      rw [hc] at hsince
      simp only [hc, Function.update_self] at ih
      rcases hstep.inCall hc hcall with ⟨now, later, rfl⟩ |
        ⟨now, later, wait', rfl, hlater, hplace'⟩ | ⟨now, rfl⟩ |
        ⟨now, wait', rfl, hwaiting, hmeet, hplace'⟩
      · -- the call returns
        rw [callOf_return hc rfl]
        simp [sleepsAfter]
      · -- a take that fails requests no sleep yet
        obtain ⟨hall, hsum⟩ := ih (Or.inr hplace')
        rw [callOf_own hc rfl]
        refine ⟨hall, ?_⟩
        simp only [sleepsAfter, readingAfter, Event.stop, Event.start] at hsum hsince ⊢
        omega
      · rw [callOf_return hc rfl]
        simp [sleepsAfter]
      · -- the sleep ends before the next reading
        have hwait : wait' = wait := by
          rcases hplace with h | h
          · exact absurd (h.symm.trans hwaiting) (by simp)
          · simpa using hwaiting.symm.trans h
        subst hwait
        obtain ⟨hall, hsum⟩ := ih (Or.inl hplace')
        rw [callOf_own hc rfl]
        simp only [sleepsAfter, readingAfter, hwaiting, Place.wait, Event.start, List.map_cons,
          List.sum_cons, List.forall_mem_cons] at hsum hsince ⊢
        exact ⟨⟨by omega, hall⟩, by omega⟩
    · obtain ⟨hall, hsum⟩ := ih (by rwa [hstep.place_other hc])
      rw [callOf_other hc]
      rw [Function.update_of_ne (Ne.symm hc)] at hsum
      exact ⟨hall, hsum⟩

/-! ## What a step removes -/

omit [DecidableEq κ] in
lemma credit_step_taken {l : RateLimiter} {call : Call} (h : l.Inv call.first)
    (htaken : (step l call).1 = .taken true) :
    (step l call).2.credit call.first = l.credit call.first - 1 := by
  cases call with
  | tryAcquire now later =>
    refine credit_takeOrWaitTime h ?_
    simpa [step, RateLimiter.tryAcquire] using htaken
  | availableTokens now | reset now => exact absurd htaken (by simp [step])

omit [DecidableEq κ] in
lemma credit_step_silent {l : RateLimiter} {call : Call} {m : ℤ} (h : l.Inv call.first)
    (hsilent : IsSilent (step l call).1) (hm : call.first ≤ m) :
    (step l call).2.credit m = l.credit m := by
  cases call with
  | tryAcquire now later =>
    have h' : l.Inv now := h
    have hnone : ¬ (l.takeOrWaitTime now later).1 = none := by
      simpa [step, RateLimiter.tryAcquire, IsSilent, Option.isSome_iff_ne_none] using hsilent
    have hzero : ¬ 0 < (l.refill now).tokens.toNat := by
      rwa [take_eq_none_iff h', ← toNat_refill h'] at hnone
    simp only [step, RateLimiter.tryAcquire, takeOrWaitTime_eq, if_neg hzero]
    exact credit_refill_later h hm
  | availableTokens now => rfl
  | reset now => exact hsilent.elim

/-- **A step that takes a token removes one from the credit.** -/
lemma Step.credit_taken (h : Step s e s') (hinv : s.limiter.Inv s.clock) {now : ℤ}
    (htaken : e.takenAt = some now) :
    s'.limiter.credit now = s.limiter.credit now - 1 := by
  rcases h.call with ⟨-, hnone, -, -⟩ | ⟨call, -, hfirst, -, -, hlim, hiff⟩
  · exact absurd (hnone.symm.trans htaken) (by simp)
  · rw [htaken] at hiff
    split_ifs at hiff with hok
    rw [Option.some.inj hiff, hlim]
    exact credit_step_taken (hinv.mono hfirst) hok

/-- **Every other step, but a reset, removes nothing from it.** -/
lemma Step.credit_kept (h : Step s e s') (hinv : s.limiter.Inv s.clock) (htaken : e.takenAt = none)
    (hreset : ∀ c now, e ≠ .reset c now) {m : ℤ} (hm : s'.clock ≤ m) :
    s'.limiter.credit m = s.limiter.credit m := by
  rcases h.call with ⟨-, -, hlim, -⟩ | ⟨call, hcall, hfirst, hlast, hclock, hlim, hiff⟩
  · rw [hlim]
  · rw [hlim]
    refine credit_step_silent (hinv.mono hfirst) ?_ (hlast.trans (hclock.ge.trans hm))
    cases call with
    | tryAcquire now later =>
      rw [htaken] at hiff
      split_ifs at hiff with hok
      simpa [step, IsSilent] using hok
    | availableTokens now => trivial
    | reset now =>
      cases e with
      | reset c now' => exact absurd rfl (hreset c now')
      | _ => exact absurd hcall (by simp [Event.call?])

/-! ## The main result -/

lemma Step.place_acquireFor {first maxWait : ℤ} (h : Step s (.acquireFor c first maxWait) s') :
    s'.place c = .looping (some (deadlineFor first maxWait)) := by
  cases h
  exact Function.update_self ..

lemma TimedRun.run (h : TimedRun s since es s') : Run s es s' := by
  induction h with
  | nil => exact .nil
  | cons hstep _ _ ih => exact .cons hstep ih

/-- A run may be cut between any two steps. -/
lemma TimedRun.cut (h : TimedRun s since (es ++ es') s') :
    ∃ s₁ since', Run s es s₁ ∧ TimedRun s₁ since' es' s' := by
  induction es generalizing s since with
  | nil => exact ⟨s, since, .nil, h⟩
  | cons e es ih =>
    obtain _ | ⟨hstep, -, hrest⟩ := h
    obtain ⟨s₁, since', hrun, hrest'⟩ := ih hrest
    exact ⟨s₁, since', .cons hstep hrun, hrest'⟩

/-- A call that has not returned goes on. -/
lemma Run.inCall {d : ℤ} (h : Run s es s') (hcall : InCall s c d)
    (hret : ∀ e ∈ callOf c es, e.returns = none) : InCall s' c d := by
  induction h with
  | nil => exact hcall
  | @cons s s₁ s₂ e es hstep _ ih =>
    by_cases hc : e.client = c
    · have hnone : e.returns = none := by
        rcases hr : e.returns with _ | ok
        · rfl
        · rw [callOf_return hc (by rw [hr]; rfl)] at hret
          exact absurd (hret e (by simp)) (by simp [hr])
      rw [callOf_own hc hnone] at hret
      exact ih (hstep.stays_inCall hcall fun _ => hnone) fun e' he' => hret e' (by simp [he'])
    · rw [callOf_other hc] at hret
      exact ih (hstep.stays_inCall hcall fun h => absurd h hc) hret

omit [DecidableEq κ] in
/-- The deadline that `acquire_for` computes is not beyond the time that it may wait for. -/
lemma deadlineFor_le {first : ℤ} (hfirst : first ≤ maxInstant) (maxWait : ℤ) :
    first ≤ deadlineFor first maxWait ∧ deadlineFor first maxWait ≤
      if maxInstant - 1000000 < first + toNanos (max maxWait 0) then maxInstant
      else first + toNanos (max maxWait 0) := by
  have hrem : toMillis (maxInstant - first) = (maxInstant - first) / 1000000 :=
    Int.tdiv_eq_ediv_of_nonneg (by omega)
  simp only [deadlineFor, hrem, toNanos]
  split_ifs <;> omega

/-- **Bounded blocking.**  Every sleep that a call of `acquire_for` requests ends by the deadline,
and all of them together fit between its first reading and the deadline, whatever the other
clients do in between; the reading is an instant of the clock.  The step with which the call
returns `true` removes one token from the credit, and no other step of the call removes
anything. -/
theorem blocking_bounded (config : Config) (t₀ : ℤ) {pre rest : List (Event κ)}
    {first maxWait : ℤ} (hrun : TimedRun (System.init config t₀) since
      (pre ++ .acquireFor c first maxWait :: rest) s')
    (hfirst : first ≤ maxInstant) :
    let deadline :=
      if maxInstant - 1000000 < first + toNanos (max maxWait 0) then maxInstant
      else first + toNanos (max maxWait 0)
    let sleeps := sleepsAfter 0 (callOf c rest)
    (∀ p ∈ sleeps, p.1 + p.2 ≤ deadline) ∧
      (sleeps.map Prod.snd).sum ≤ deadline - first ∧
      ∀ mid e post, rest = mid ++ e :: post → e.client = c →
        (∀ e' ∈ callOf c mid, e'.returns = none) →
          ∃ s₁ s₂, Run (System.init config t₀) (pre ++ .acquireFor c first maxWait :: mid) s₁ ∧
            Step s₁ e s₂ ∧ Run s₂ post s' ∧
              if e.returns = some true then
                ∃ now, e.takenAt = some now ∧
                  s₂.limiter.credit now = s₁.limiter.credit now - 1
              else ∀ m, s₂.clock ≤ m → s₂.limiter.credit m = s₁.limiter.credit m := by
  intro deadline sleeps
  obtain ⟨hle, hlate⟩ := deadlineFor_le hfirst maxWait
  obtain ⟨s₀, since₀, hpre, htimed⟩ := hrun.cut
  obtain _ | ⟨hcall, -, hrest⟩ := htimed
  have hlooping := hcall.place_acquireFor
  obtain ⟨hall, hsum⟩ := sleeps_le hrest (Or.inl hlooping)
  have hsince : Function.update since₀ c (readingAfter s₀ (.acquireFor c first maxWait)) c
      = first := Function.update_self ..
  refine ⟨fun p hp => (hall p hp).trans hlate, ?_, ?_⟩
  · rw [show (Event.acquireFor c first maxWait).client = c from rfl, hsince] at hsum
    have hsum' : first + (sleeps.map Prod.snd).sum ≤ deadline :=
      hsum.trans (max_le hlate (hle.trans hlate))
    omega
  · rintro mid e post rfl hc hret
    obtain ⟨s₁, since₁, hmid, htimed⟩ := hrest.cut
    obtain _ | ⟨hstep, -, hpost⟩ := htimed
    have hrun₁ := hpre.append (.cons hcall hmid)
    have hinv := hrun₁.inv.1
    refine ⟨s₁, _, hrun₁, hstep, hpost.run, ?_⟩
    rcases hstep.inCall hc (hmid.inCall (Or.inl hlooping) hret) with ⟨now, later, rfl⟩ |
      ⟨now, later, wait, rfl, -, -⟩ | ⟨now, rfl⟩ | ⟨now, wait, rfl, -, -, -⟩
    · rw [if_pos (show (Event.take c now later none).returns = some true from rfl)]
      exact ⟨now, rfl, hstep.credit_taken hinv rfl⟩
    all_goals
      rw [if_neg (by simp [Event.returns])]
      exact fun m hm => hstep.credit_kept hinv rfl (by simp) hm

end Calls

lemma exists_timedRun_slowRun :
    ∃ s', TimedRun (System.init slowConfig 0) (fun _ => 0) slowRun s' := by
  have hfirst := @Step.tryAcquire Bool _ (System.init slowConfig 0) true 1 1
    rfl (by decide) (by decide)
  exact ⟨_, .cons hfirst (by decide) <| .cons (.acquireFor (by decide)) (by decide) <|
    .cons (.takeWait (show _ = Place.looping (some 100000002) by decide) (by decide) (by decide)
      (by decide)) (by decide) <|
    .cons (.sleep (show _ = Place.waiting (some 100000002) 4999998 by decide) (by decide))
      (by decide) <|
    .cons (.takeOk (show _ = Place.looping (some 100000002) by decide) (by decide) (by decide)
      (by decide)) (by decide) .nil⟩

/-- The client that waits for the second token sleeps less than the hundred milliseconds that it
is ready to wait. -/
theorem blocking_bounded_two_clients :
    ((sleepsAfter 0 (callOf false (slowRun.drop 2))).map Prod.snd).sum ≤ 100000002 - 2 := by
  obtain ⟨s', hrun⟩ := exists_timedRun_slowRun
  have hrun' : TimedRun (System.init slowConfig 0) (fun _ => 0)
      ([.tryAcquire true 1 1 true] ++ .acquireFor false 2 100 :: slowRun.drop 2) s' := hrun
  exact (blocking_bounded slowConfig 0 hrun' (by decide)).2.1

end GribCpp.RateLimit
