/-
# Retries

The model of `should_retry` and of `with_retry` in `include/grib/retry.hpp`.  The operation is
given by its outcomes, one for each time it is invoked, and the jitter by its draws; the loop
records when it invokes the operation and for how long it sleeps.  Its counter has eight bits and
would never pass a maximum of 255; the loop ends because it goes on only below the maximum.
-/
import GribCpp.Http.Backoff
import GribCpp.Http.Client

namespace GribCpp.Http

/-! ## The loop -/

/-- `should_retry` on a response. -/
def shouldRetryResponse (response : HttpResponse) (policy : RetryPolicy) : Bool :=
  if policy.retryOnRateLimit ∧ response.statusCode = 429 then true
  else if policy.retryOnServerError ∧ 500 ≤ response.statusCode ∧ response.statusCode < 600 then
    true
  else false

/-- `should_retry` on an error. -/
def shouldRetryError (error : Error) (policy : RetryPolicy) : Bool :=
  if policy.retryOnNetworkError ∧ error.code = .networkError then true
  else if policy.retryOnNetworkError ∧ error.code = .timeout then true
  else if policy.retryOnRateLimit ∧ error.code = .rateLimited then true
  else if policy.retryOnServerError ∧ error.code = .serverError then true
  else false

/-- `should_retry` on an outcome of the operation. -/
def shouldRetry (policy : RetryPolicy) : Result HttpResponse → Bool
  | .ok response => shouldRetryResponse response policy
  | .error error => shouldRetryError error policy

/-- What the loop does. -/
inductive RetryEvent where
  | invoke
  | sleep (delay : Int64)
deriving DecidableEq

/-- What `with_retry` comes to: what it has done, and what it returns; without a result the loop
has been left at its end. -/
structure Retried where
  trace : List RetryEvent
  returned : Option (Result HttpResponse)

/-- `std::this_thread::sleep_for`, then the rest of the loop. -/
def Retried.after (delay : Int64) (rest : Retried) : Retried where
  trace := .invoke :: .sleep delay :: rest.trace
  returned := rest.returned

/-- A `return` from the loop. -/
def Retried.done (result : Result HttpResponse) : Retried where
  trace := [.invoke]
  returned := some result

/-- A counter below another one does not wrap around. -/
lemma toNat_succ_of_lt {i n : UInt8} (h : i < n) : (i + 1).toNat = i.toNat + 1 := by
  have hlt := UInt8.lt_iff_toNat_lt.mp h
  have hmax := n.toNat_lt
  have hone : (1 : UInt8).toNat = 1 := rfl
  rw [UInt8.toNat_add, hone]
  omega

section Loop

variable (outcome : ℕ → Result HttpResponse) (policy : RetryPolicy) (draw : ℕ → policy.Jitter)

/-- The loop of `with_retry`, in front of the attempt with the given number, when the operation
has been invoked `invoked` times. -/
def withRetryFrom (attempt : UInt8) (invoked : ℕ) : Retried :=
  if attempt ≤ policy.maxAttempts then
    match outcome invoked with
    | .ok response =>
      if shouldRetryResponse response policy = true ∧ attempt < policy.maxAttempts then
        (withRetryFrom (attempt + 1) (invoked + 1)).after
          (calculateRetryDelay attempt policy (draw invoked))
      else .done (.ok response)
    | .error error =>
      if shouldRetryError error policy = true ∧ attempt < policy.maxAttempts then
        (withRetryFrom (attempt + 1) (invoked + 1)).after
          (calculateRetryDelay attempt policy (draw invoked))
      else .done (.error error)
  else { trace := [], returned := none }
termination_by policy.maxAttempts.toNat - attempt.toNat
decreasing_by
  all_goals
    have hlt : attempt < policy.maxAttempts := by
      rename_i h
      exact h.2
    rw [toNat_succ_of_lt hlt]
    have := UInt8.lt_iff_toNat_lt.mp hlt
    omega

/-- The loop of `with_retry`. -/
def withRetryLoop : Retried := withRetryFrom outcome policy draw 1 0

/-- `with_retry`. -/
def withRetry : Result HttpResponse :=
  (withRetryLoop outcome policy draw).returned.getD
    (.error (.network (ascii "Max retry attempts exceeded")))

end Loop

/-! ## The law -/

/-- `n` invocations from attempt `i` on, with one delay between any two of them. -/
def schedule (delay : ℕ → Int64) : ℕ → ℕ → List RetryEvent
  | _, 0 => []
  | _, 1 => [.invoke]
  | i, n + 2 => .invoke :: .sleep (delay i) :: schedule delay (i + 1) (n + 1)

/-- The number of the first outcome that is not retried, counted from one; infinite if all are. -/
noncomputable def firstRejected (outcome : ℕ → Result HttpResponse) (policy : RetryPolicy) : ℕ∞ :=
  sInf {k | ∃ i : ℕ, k = (i + 1 : ℕ) ∧ shouldRetry policy (outcome i) = false}

section Law

variable {outcome : ℕ → Result HttpResponse} {policy : RetryPolicy} {draw : ℕ → policy.Jitter}
  {attempt : UInt8} {invoked : ℕ}

/-- One round of the loop: responses and errors are treated alike. -/
lemma withRetryFrom_eq (h : attempt ≤ policy.maxAttempts) :
    withRetryFrom outcome policy draw attempt invoked =
      if shouldRetry policy (outcome invoked) = true ∧ attempt < policy.maxAttempts then
        (withRetryFrom outcome policy draw (attempt + 1) (invoked + 1)).after
          (calculateRetryDelay attempt policy (draw invoked))
      else .done (outcome invoked) := by
  rw [withRetryFrom, if_pos h]
  cases outcome invoked <;> rfl

/-- **A run of the loop**: it makes some attempts, all but the last of them retried, and the last
one rejected or allowed no other. -/
lemma exists_withRetryFrom (hattempt : attempt.toNat = invoked + 1)
    (hle : attempt ≤ policy.maxAttempts) :
    ∃ n, (withRetryFrom outcome policy draw attempt invoked).trace
        = schedule (fun i => calculateRetryDelay (UInt8.ofNat i) policy (draw (i - 1)))
          (invoked + 1) (n + 1) ∧
      (withRetryFrom outcome policy draw attempt invoked).returned
        = some (outcome (invoked + n)) ∧
      invoked + n + 1 ≤ policy.maxAttempts.toNat ∧
      (∀ j < n, shouldRetry policy (outcome (invoked + j)) = true) ∧
      (shouldRetry policy (outcome (invoked + n)) = false ∨
        invoked + n + 1 = policy.maxAttempts.toNat) := by
  have hle' := UInt8.le_iff_toNat_le.mp hle
  obtain ⟨d, hd⟩ : ∃ d, policy.maxAttempts.toNat - attempt.toNat = d := ⟨_, rfl⟩
  -- by induction on the attempts that are left
  induction d generalizing attempt invoked with
  | zero =>
    have hnot : ¬ (shouldRetry policy (outcome invoked) = true ∧ attempt < policy.maxAttempts) := by
      rw [UInt8.lt_iff_toNat_lt]
      omega
    rw [withRetryFrom_eq hle, if_neg hnot]
    exact ⟨0, rfl, rfl, by omega, by simp, Or.inr (by omega)⟩
  | succ d ih =>
    have hlt : attempt < policy.maxAttempts := by
      rw [UInt8.lt_iff_toNat_lt]
      omega
    rw [withRetryFrom_eq hle]
    cases hretry : shouldRetry policy (outcome invoked) with
    | false =>
      rw [if_neg (by simp)]
      exact ⟨0, rfl, rfl, by omega, by simp, Or.inl hretry⟩
    | true =>
      rw [if_pos ⟨rfl, hlt⟩]
      have hnext := toNat_succ_of_lt hlt
      obtain ⟨n, htrace, hreturned, hn, hretried, hlast⟩ := @ih (attempt + 1) (invoked + 1)
        (by omega) (UInt8.le_iff_toNat_le.mpr (by omega)) (by omega) (by omega)
      have hnumber : UInt8.ofNat (invoked + 1) = attempt := by
        rw [← hattempt, UInt8.ofNat_toNat]
      refine ⟨n + 1, ?_, ?_, by omega, ?_, ?_⟩
      · rw [Retried.after, htrace, schedule, hnumber, Nat.add_sub_cancel]
      · rw [Retried.after, hreturned, Nat.add_right_comm, Nat.add_assoc]
      · intro j hj
        cases j with
        | zero => exact hretry
        | succ j =>
          have h := hretried j (by omega)
          rwa [Nat.add_right_comm, Nat.add_assoc] at h
      · rwa [Nat.add_right_comm invoked 1 n, Nat.add_assoc invoked n 1] at hlast

/-- The number of attempts is the first rejected outcome, or the maximum. -/
lemma eq_min_firstRejected {n max : ℕ} (hmax : n + 1 ≤ max)
    (hretried : ∀ j < n, shouldRetry policy (outcome j) = true)
    (hlast : shouldRetry policy (outcome n) = false ∨ n + 1 = max) :
    ((n + 1 : ℕ) : ℕ∞) = min (firstRejected outcome policy) max := by
  have hge : ((n + 1 : ℕ) : ℕ∞) ≤ firstRejected outcome policy := by
    refine le_sInf ?_
    rintro k ⟨i, rfl, hi⟩
    have hni : n ≤ i := by
      by_contra hlt
      rw [hretried i (by omega)] at hi
      exact absurd hi (by simp)
    exact_mod_cast Nat.succ_le_succ hni
  refine le_antisymm (le_min hge (by exact_mod_cast hmax)) ?_
  rcases hlast with hrejected | hend
  · exact (min_le_left _ _).trans (sInf_le ⟨n, rfl, hrejected⟩)
  · rw [hend]
    exact min_le_right _ _

/-- The invocations of a schedule. -/
lemma count_invoke_schedule (delay : ℕ → Int64) (i n : ℕ) :
    (schedule delay i n).count .invoke = n := by
  fun_induction schedule delay i n with
  | case1 => rfl
  | case2 => rfl
  | case3 i n ih =>
    have hsleep : RetryEvent.sleep (delay i) ≠ .invoke := by simp
    rw [List.count_cons_self, List.count_cons_of_ne hsleep, ih]

/-- A maximum of zero leaves the loop at once. -/
lemma withRetryLoop_of_zero (h : policy.maxAttempts = 0) :
    withRetryLoop outcome policy draw = { trace := [], returned := none } := by
  have hnot : ¬ (1 : UInt8) ≤ policy.maxAttempts := by
    rw [h]
    decide
  rw [withRetryLoop, withRetryFrom, if_neg hnot]

end Law

/-- **The retry loop.**  For every policy, all outcomes of the operation and all draws of the
jitter: the operation is invoked until an outcome is not retried, and not more often than the
policy allows; between two invocations there is one delay, that of the attempt that has failed;
the last outcome is returned unchanged; and the end of the loop is reached if and only if no
attempt is allowed. -/
theorem withRetry_law (outcome : ℕ → Result HttpResponse) (policy : RetryPolicy)
    (draw : ℕ → policy.Jitter) :
    ∃ n : ℕ, (n : ℕ∞) = min (firstRejected outcome policy) policy.maxAttempts.toNat ∧
      (withRetryLoop outcome policy draw).trace.count .invoke = n ∧
      (withRetryLoop outcome policy draw).trace
        = schedule (fun i => calculateRetryDelay (UInt8.ofNat i) policy (draw (i - 1))) 1 n ∧
      (1 ≤ policy.maxAttempts →
        1 ≤ n ∧ withRetry outcome policy draw = outcome (n - 1)) ∧
      ((withRetryLoop outcome policy draw).returned = none ↔ policy.maxAttempts = 0) ∧
      (policy.maxAttempts = 0 → withRetry outcome policy draw
        = .error (.network (ascii "Max retry attempts exceeded"))) := by
  by_cases hzero : policy.maxAttempts = 0
  · have hloop := @withRetryLoop_of_zero outcome policy draw hzero
    have hnat : policy.maxAttempts.toNat = 0 := by rw [hzero]; rfl
    refine ⟨0, by rw [hnat]; simp, by rw [hloop]; rfl, by rw [hloop]; rfl, fun h => ?_,
      by simp [hloop, hzero], fun _ => by rw [withRetry, hloop]; rfl⟩
    rw [hzero] at h
    exact absurd h (by decide)
  · have hone : (1 : UInt8).toNat = 1 := rfl
    have hpos := UInt8.lt_iff_toNat_lt.mp (UInt8.pos_iff_ne_zero.mpr hzero)
    have hle : (1 : UInt8) ≤ policy.maxAttempts := by
      rw [UInt8.le_iff_toNat_le, hone]
      exact hpos
    obtain ⟨n, htrace, hreturned, hmax, hretried, hlast⟩ :=
      @exists_withRetryFrom outcome policy draw 1 0 rfl hle
    simp only [Nat.zero_add] at htrace hreturned hmax hretried hlast
    refine ⟨n + 1, eq_min_firstRejected hmax hretried hlast, ?_, htrace, ?_, ?_, ?_⟩
    · rw [withRetryLoop, htrace, count_invoke_schedule]
    · intro _
      exact ⟨by omega, by rw [withRetry, withRetryLoop, hreturned]; rfl⟩
    · rw [withRetryLoop, hreturned]
      exact iff_of_false (by simp) hzero
    · exact fun h => absurd h hzero

end GribCpp.Http
