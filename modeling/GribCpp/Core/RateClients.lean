/-
# Clients that share a rate limiter

Any number of clients call one limiter.  Each call holds the mutex for one access to the
limiter at a time: `try_acquire`, `available_tokens` and `reset` are one access each, and
`acquire`, `acquire_for` and `acquire_until` run a loop whose every iteration is one
access, then either gives up or sleeps without the mutex.  A step of the system is one
such access, or one step of one client outside of the mutex, so that a run of the system
is any interleaving; the readings of the clock made under the mutex never decrease in the
order in which the clients hold it.

A run is then a run of calls on the limiter, and the bucket's bounds on the number of
successful takes hold of every interleaving.
-/
import GribCpp.Core.RateBucket

namespace GribCpp.RateLimit

open Machine TokenBucket

/-- Where a client stands. -/
inductive Place where
  /-- Outside of any call that loops. -/
  | idle
  /-- At the head of the loop of `acquire_until`. -/
  | looping (deadline : Option ℤ)
  /-- In that loop, after a take that failed with a time to wait. -/
  | waiting (deadline : Option ℤ) (wait : ℤ)
deriving DecidableEq, Repr

/-- `Clock::time_point::max()`. -/
def maxInstant : ℤ := 2 ^ 63 - 1

/-- The deadline that `acquire_for` passes on, from its own reading of the clock. -/
def deadlineFor (now maxWait : ℤ) : ℤ :=
  if maxWait ≤ 0 then now
  else
    let remaining := toMillis (maxInstant - now)
    if remaining ≤ maxWait then maxInstant else now + toNanos maxWait

/-- The limiter, the last reading of the clock under its mutex, and the clients. -/
structure System (κ : Type*) where
  limiter : RateLimiter
  clock : ℤ
  place : κ → Place

/-- The steps of the clients, with their readings of the clock and what they answer. -/
inductive Event (κ : Type*) where
  | tryAcquire (client : κ) (now later : ℤ) (ok : Bool)
  | acquire (client : κ) (now : ℤ)
  | acquireFor (client : κ) (now maxWait : ℤ)
  | take (client : κ) (now later : ℤ) (wait : Option ℤ)
  | giveUp (client : κ) (now : ℤ)
  | sleep (client : κ) (now : ℤ)
  | availableTokens (client : κ) (now : ℤ) (n : UInt16)
  | reset (client : κ) (now : ℤ)

section Clients

variable {κ : Type*} [DecidableEq κ]

/-- The system after its limiter has been constructed. -/
def System.init (config : Config) (t₀ : ℤ) : System κ where
  limiter := RateLimiter.new config t₀
  clock := t₀
  place := fun _ => .idle

/-- The steps of the system. -/
inductive Step : System κ → Event κ → System κ → Prop
  | tryAcquire {s : System κ} {c : κ} {now later : ℤ} (hplace : s.place c = .idle)
      (hnow : s.clock ≤ now) (hlater : now ≤ later) :
      Step s (.tryAcquire c now later (s.limiter.tryAcquire now later).1)
        { s with limiter := (s.limiter.tryAcquire now later).2, clock := later }
  | acquire {s : System κ} {c : κ} {now : ℤ} (hplace : s.place c = .idle) :
      Step s (.acquire c now)
        { s with
          place := Function.update s.place c
            (.looping (s.limiter.config.maxWait.map (deadlineFor now))) }
  | acquireFor {s : System κ} {c : κ} {now maxWait : ℤ} (hplace : s.place c = .idle) :
      Step s (.acquireFor c now maxWait)
        { s with place := Function.update s.place c (.looping (some (deadlineFor now maxWait))) }
  | takeOk {s : System κ} {c : κ} {deadline : Option ℤ} {now later : ℤ}
      (hplace : s.place c = .looping deadline) (hnow : s.clock ≤ now) (hlater : now ≤ later)
      (htake : (s.limiter.takeOrWaitTime now later).1 = none) :
      Step s (.take c now later none)
        { limiter := (s.limiter.takeOrWaitTime now later).2
          clock := later
          place := Function.update s.place c .idle }
  | takeWait {s : System κ} {c : κ} {deadline : Option ℤ} {now later wait : ℤ}
      (hplace : s.place c = .looping deadline) (hnow : s.clock ≤ now) (hlater : now ≤ later)
      (htake : (s.limiter.takeOrWaitTime now later).1 = some wait) :
      Step s (.take c now later (some wait))
        { limiter := (s.limiter.takeOrWaitTime now later).2
          clock := later
          place := Function.update s.place c (.waiting deadline wait) }
  | giveUp {s : System κ} {c : κ} {deadline now wait : ℤ}
      (hplace : s.place c = .waiting (some deadline) wait) (hlate : deadline - now < wait) :
      Step s (.giveUp c now) { s with place := Function.update s.place c .idle }
  | sleep {s : System κ} {c : κ} {deadline : Option ℤ} {now wait : ℤ}
      (hplace : s.place c = .waiting deadline wait)
      (hwait : ∀ d ∈ deadline, wait ≤ d - now) :
      Step s (.sleep c now) { s with place := Function.update s.place c (.looping deadline) }
  | availableTokens {s : System κ} {c : κ} {now : ℤ} (hplace : s.place c = .idle)
      (hnow : s.clock ≤ now) :
      Step s (.availableTokens c now (s.limiter.availableTokens now)) { s with clock := now }
  | reset {s : System κ} {c : κ} {now : ℤ} (hplace : s.place c = .idle) (hnow : s.clock ≤ now) :
      Step s (.reset c now) { s with limiter := s.limiter.reset now, clock := now }

/-- The runs of the system. -/
inductive Run : System κ → List (Event κ) → System κ → Prop
  | nil {s : System κ} : Run s [] s
  | cons {s s' s'' : System κ} {e : Event κ} {es : List (Event κ)} :
      Step s e s' → Run s' es s'' → Run s (e :: es) s''

end Clients

namespace Event

variable {κ : Type*}

/-- The call that an event makes under the mutex, if it makes one. -/
def call? : Event κ → Option Call
  | .tryAcquire _ now later _ | .take _ now later _ => some (.tryAcquire now later)
  | .availableTokens _ now _ => some (.availableTokens now)
  | .reset _ now => some (.reset now)
  | _ => none

/-- The refill reading of an event that takes a token. -/
def takenAt : Event κ → Option ℤ
  | .tryAcquire _ now _ true | .take _ now _ none => some now
  | _ => none

/-- The number of takes that succeed with a refill reading in the window `[s, t]`. -/
def takesIn (s t : ℤ) (es : List (Event κ)) : ℕ :=
  es.countP fun e => ∃ n ∈ e.takenAt, s ≤ n ∧ n ≤ t

@[simp] lemma takesIn_nil (s t : ℤ) : takesIn s t ([] : List (Event κ)) = 0 := rfl

lemma takesIn_cons (s t : ℤ) (e : Event κ) (es : List (Event κ)) :
    takesIn s t (e :: es) = takesIn s t es + if ∃ n ∈ e.takenAt, s ≤ n ∧ n ≤ t then 1 else 0 := by
  simp [takesIn, List.countP_cons]

end Event

/-! ## A run of the system is a run of calls -/

section Runs

variable {κ : Type*} [DecidableEq κ] {s s' : System κ} {e : Event κ} {es es' : List (Event κ)}

/-- **What one event does to the limiter**: nothing, or one call in the order of the clock that
takes a token exactly when the event says so. -/
lemma Step.call (h : Step s e s') :
    (e.call? = none ∧ e.takenAt = none ∧ s'.limiter = s.limiter ∧ s'.clock = s.clock) ∨
      ∃ call, e.call? = some call ∧ s.clock ≤ call.first ∧ call.first ≤ call.last ∧
        s'.clock = call.last ∧ s'.limiter = (step s.limiter call).2 ∧
        e.takenAt = if (step s.limiter call).1 = .taken true then some call.first else none := by
  cases h with
  | @tryAcquire c now later hplace hnow hlater =>
    refine Or.inr ⟨.tryAcquire now later, rfl, hnow, hlater, rfl, rfl, ?_⟩
    simp only [step, Call.first, Answer.taken.injEq]
    cases (s.limiter.tryAcquire now later).1 <;> rfl
  | acquire hplace => exact Or.inl ⟨rfl, rfl, rfl, rfl⟩
  | acquireFor hplace => exact Or.inl ⟨rfl, rfl, rfl, rfl⟩
  | @takeOk c deadline now later hplace hnow hlater htake =>
    refine Or.inr ⟨.tryAcquire now later, rfl, hnow, hlater, rfl, rfl, ?_⟩
    simp [step, Call.first, RateLimiter.tryAcquire, htake, Event.takenAt]
  | @takeWait c deadline now later wait hplace hnow hlater htake =>
    refine Or.inr ⟨.tryAcquire now later, rfl, hnow, hlater, rfl, rfl, ?_⟩
    simp [step, RateLimiter.tryAcquire, htake, Event.takenAt]
  | giveUp hplace hlate => exact Or.inl ⟨rfl, rfl, rfl, rfl⟩
  | sleep hplace hwait => exact Or.inl ⟨rfl, rfl, rfl, rfl⟩
  | @availableTokens c now hplace hnow =>
    exact Or.inr ⟨.availableTokens now, rfl, hnow, le_refl _, rfl, rfl,
      by simp [step, Event.takenAt]⟩
  | @reset c now hplace hnow =>
    exact Or.inr ⟨.reset now, rfl, hnow, le_refl _, rfl, rfl, by simp [step, Event.takenAt]⟩

omit [DecidableEq κ] in
/-- Every call keeps the invariant of the limiter. -/
lemma inv_step {l : RateLimiter} {t : ℤ} {call : Call} (h : l.Inv t) (hfirst : t ≤ call.first)
    (hlast : call.first ≤ call.last) : (step l call).2.Inv call.last := by
  cases call with
  | tryAcquire now later => exact (h.mono hfirst).takeOrWaitTime hlast
  | availableTokens now => exact h.mono hfirst
  | reset now => exact RateLimiter.inv_reset

lemma Step.inv (h : Step s e s') (hinv : s.limiter.Inv s.clock) : s'.limiter.Inv s'.clock := by
  rcases h.call with ⟨-, -, hlim, hclock⟩ | ⟨call, -, hfirst, hlast, hclock, hlim, -⟩
  · rwa [hlim, hclock]
  · rw [hlim, hclock]
    exact inv_step hinv hfirst hlast

lemma Step.config_eq (h : Step s e s') : s'.limiter.config = s.limiter.config := by
  rcases h.call with ⟨-, -, hlim, -⟩ | ⟨call, -, -, -, -, hlim, -⟩
  · rw [hlim]
  · rw [hlim, step_config]

lemma Run.keeps_inv (h : Run s es s') (hinv : s.limiter.Inv s.clock) :
    s'.limiter.Inv s'.clock ∧ s'.limiter.config = s.limiter.config := by
  induction h with
  | nil => exact ⟨hinv, rfl⟩
  | cons hstep _ ih =>
    obtain ⟨hinv', hconfig⟩ := ih (hstep.inv hinv)
    exact ⟨hinv', hconfig.trans hstep.config_eq⟩

/-- **A reachable limiter**: its configuration is the sanitized one, and its tokens are
accounted for up to an instant that has passed. -/
lemma Run.inv {config : Config} {t₀ : ℤ} (h : Run (System.init config t₀) es s) :
    s.limiter.Inv s.clock ∧ s.limiter.config = sanitized config :=
  h.keeps_inv (RateLimiter.inv_new config t₀)

lemma Run.append {s'' : System κ} (h : Run s es s') (h' : Run s' es' s'') :
    Run s (es ++ es') s'' := by
  induction h with
  | nil => exact h'
  | cons hstep _ ih => exact .cons hstep (ih h')

/-- A run may be cut between any two steps. -/
lemma Run.cut (h : Run s (es ++ es') s') : ∃ s₁, Run s es s₁ ∧ Run s₁ es' s' := by
  induction es generalizing s with
  | nil => exact ⟨s, .nil, h⟩
  | cons e es ih =>
    obtain _ | ⟨hstep, hrest⟩ := h
    obtain ⟨s₁, hrun, hrest'⟩ := ih hrest
    exact ⟨s₁, .cons hstep hrun, hrest'⟩

/-- The calls of a run are in the order of the clock, and they take the limiter where the run
takes it. -/
lemma Run.calls (h : Run s es s') :
    InOrder s.clock (es.filterMap Event.call?) ∧
      s'.limiter = final step s.limiter (es.filterMap Event.call?) := by
  induction h with
  | nil => exact ⟨by simp [InOrder], rfl⟩
  | @cons s s₁ s₂ e es hstep _ ih =>
    -- an event outside of the mutex leaves the limiter and the clock as they are
    obtain ⟨hord, hfin⟩ := ih
    rcases hstep.call with ⟨hcall, -, hlim, hclock⟩ | ⟨call, hcall, h1, h2, hclock, hlim, -⟩
    · rw [List.filterMap_cons_none hcall, ← hclock, ← hlim]
      exact ⟨hord, hfin⟩
    · rw [List.filterMap_cons_some hcall, inOrder_cons, final_cons, ← hclock, ← hlim]
      exact ⟨⟨h1, hclock ▸ h2, hord⟩, hfin⟩

/-- The successful takes of a run, counted on the trace of its calls. -/
lemma Run.takesIn_eq (h : Run s es s') (a b : ℤ) :
    Event.takesIn a b es = (trace step s.limiter (es.filterMap Event.call?)).countP
      (fun p => p.2 = .taken true ∧ a ≤ p.1.first ∧ p.1.first ≤ b) := by
  induction h with
  | nil => rfl
  | @cons s s₁ s₂ e es hstep _ ih =>
    rw [Event.takesIn_cons, ih]
    rcases hstep.call with ⟨hcall, htaken, hlim, -⟩ | ⟨call, hcall, -, -, -, hlim, htaken⟩
    · rw [List.filterMap_cons_none hcall, htaken, hlim]
      simp
    · rw [List.filterMap_cons_some hcall, trace_cons, List.countP_cons, ← hlim, htaken]
      by_cases hok : (step s.limiter call).1 = .taken true <;> simp [hok]

end Runs

/-- The successful takes of a run of calls are those of the bucket. -/
lemma takesIn_request {c : SaneConfig} {l : RateLimiter} {v : Level ℚ} {calls : List Call}
    (hans : answers step l calls = answers (bucket c).step v (calls.map Call.request)) (s t : ℤ) :
    (trace step l calls).countP (fun p => p.2 = .taken true ∧ s ≤ p.1.first ∧ p.1.first ≤ t)
      = TokenBucket.takesIn (s : ℚ) t (trace (bucket c).step v (calls.map Call.request)) := by
  have hmap : trace (bucket c).step v (calls.map Call.request)
      = (trace step l calls).map (fun p => (p.1.request, p.2)) := by
    rw [trace, trace, ← hans, List.zip_map_left]
    rfl
  rw [hmap, TokenBucket.takesIn, List.countP_map]
  refine List.countP_congr fun p _ => ?_
  simp [Int.cast_le]

/-- A run in which no client resets the limiter makes no request of a reset. -/
lemma noReset_calls {κ : Type*} {es : List (Event κ)}
    (hno : ∀ e ∈ es, ∀ c now, e ≠ Event.reset c now) :
    NoReset ((es.filterMap Event.call?).map Call.request) := by
  intro r hr t heq
  obtain ⟨call, hcall, rfl⟩ := List.mem_map.mp hr
  obtain ⟨e, he, hecall⟩ := List.mem_filterMap.mp hcall
  cases e with
  | reset client now => exact hno _ he client now rfl
  | tryAcquire | take | availableTokens =>
    simp only [Event.call?, Option.some.injEq] at hecall
    subst hecall
    exact absurd heq (by simp [Call.request])
  | acquire | acquireFor | giveUp | sleep => exact absurd hecall (by simp [Event.call?])

/-- A rational bound on a whole number bounds it by the whole part. -/
lemma le_add_ediv {n : ℕ} {m a I : ℤ} (hI : 0 ≤ I)
    (h : (n : ℚ) ≤ m + 1 / (I : ℚ) * (a : ℚ)) : (n : ℤ) ≤ m + a / I := by
  have hfloor : ⌊(a : ℚ) / I⌋ = a / I := by
    rw [Int.floor_div_cast_of_nonneg hI, Int.floor_intCast]
  have hle : ((n : ℤ) - m : ℤ) ≤ ⌊(a : ℚ) / I⌋ := by
    rw [Int.le_floor]
    push_cast
    rw [one_div_mul_eq_div] at h
    linarith
  omega

/-- **The rate bound.**  In every interleaving of any number of clients in which the limiter is
never reset, the takes that succeed with a refill reading in a window of time are at most
the capacity of the bucket and the number of whole refill intervals in the window; and those
that succeed up to an instant at most the initial tokens and the number of whole intervals
since the construction. -/
theorem takes_bounded {κ : Type*} [DecidableEq κ] (config : Config) (t₀ : ℤ)
    {es : List (Event κ)} {s' : System κ} (hrun : Run (System.init config t₀) es s')
    (hno : ∀ e ∈ es, ∀ c now, e ≠ Event.reset c now) :
    (∀ s t : ℤ, s ≤ t → (Event.takesIn s t es : ℤ)
        ≤ (sanitized config).maxTokens.toNat + (t - s) / (sanitized config).intervalNs) ∧
      (∀ t : ℤ, t₀ ≤ t → (Event.takesIn t₀ t es : ℤ)
        ≤ (sanitized config).initialTokens.toNat + (t - t₀) / (sanitized config).intervalNs) := by
  set c := sanitized config with hc
  set v₀ : Level ℚ := ⟨(bucket c).initial, t₀⟩ with hv₀
  set calls := es.filterMap Event.call? with hcalls
  have hok : Admissible NotBefore (bucket c).step v₀ (calls.map Call.request) :=
    admissible_of_inOrder (le_refl _) hrun.calls.1
  have hans := (run_refines (refines_new config t₀) hok).1
  have hcount : ∀ s t : ℤ, Event.takesIn s t es
      = TokenBucket.takesIn (s : ℚ) t (trace (bucket c).step v₀ (calls.map Call.request)) :=
    fun s t => (hrun.takesIn_eq s t).trans (takesIn_request hans s t)
  have hrate := bucket_rate_nonneg c
  have hinit := bucket_initial c
  have hfilled : Filled (bucket c) v₀ := hinit
  have hnoreset : NoReset (calls.map Call.request) := noReset_calls hno
  constructor
  · intro s t hst
    have hst' : (s : ℚ) ≤ t := by exact_mod_cast hst
    have h := takes_window_le hrate hinit hfilled hok hnoreset hst'
    rw [← hcount] at h
    refine le_add_ediv c.intervalNs_pos.le ?_
    push_cast
    exact h
  · intro t ht
    have ht' : (t₀ : ℚ) ≤ t := by exact_mod_cast ht
    have h := takes_le (s := (t₀ : ℚ)) hrate hinit hfilled hok hnoreset ht'
    rw [← hcount] at h
    refine le_add_ediv c.intervalNs_pos.le ?_
    push_cast
    exact h

/-- One client takes the only token, the other one waits for the next. -/
def slowRun : List (Event Bool) :=
  [.tryAcquire true 1 1 true, .acquireFor false 2 100, .take false 2 3 (some 4999998),
    .sleep false 3, .take false 5000001 5000001 none]

lemma exists_run_slowRun : ∃ s', Run (System.init slowConfig 0) slowRun s' := by
  have hfirst := @Step.tryAcquire Bool _ (System.init slowConfig 0) true 1 1
    rfl (by decide) (by decide)
  exact ⟨_, .cons hfirst <| .cons (.acquireFor (by decide)) <|
    .cons (.takeWait (show _ = Place.looping (some 100000002) by decide) (by decide) (by decide)
      (by decide)) <|
    .cons (.sleep (show _ = Place.waiting (some 100000002) 4999998 by decide) (by decide)) <|
    .cons (.takeOk (show _ = Place.looping (some 100000002) by decide) (by decide) (by decide)
      (by decide)) .nil⟩

theorem takes_bounded_two_clients :
    (Event.takesIn 0 5000001 slowRun : ℤ) ≤ 1 + 5000001 / 5000000 := by
  obtain ⟨s', hrun⟩ := exists_run_slowRun
  exact (takes_bounded slowConfig 0 hrun (by simp [slowRun])).1 0 5000001 (by decide)

end GribCpp.RateLimit
