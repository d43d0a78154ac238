/-
# Errors of responses

The model of `Error::from_response` in `src/core/error.cpp`, which a caller uses to turn a response
that it does not accept into an error.  The retry loop treats responses and errors by two
overloads of `should_retry`; on the statuses of HTTP they agree, so an operation may turn its
responses into errors in front of the loop as well as behind it.
-/
import GribCpp.Http.Retry

namespace GribCpp.Http

/-! ## The error -/

/-- The `code` of `Error::from_response`. -/
def responseCode (status : Int32) : ErrorCode :=
  if status = 404 then .feedUnavailable
  else if status = 400 ∨ status = 416 then .invalidRequest
  else if status = 429 then .rateLimited
  else if 500 ≤ status then .serverError
  else .unknown

/-- `Error::from_response`. -/
def fromResponse (status : Int32) (body : Bytes) : Error where
  code := responseCode status
  message :=
    let message := ascii "HTTP " ++ toStringI64 status.toInt64
    if body.take 256 ≠ [] then message ++ ascii ": " ++ body.take 256 else message
  httpStatus := status.toInt
  detail := body.take 256

/-- A response that the caller refuses becomes an error. -/
def refuse (refused : Int16 → Bool) : Result HttpResponse → Result HttpResponse
  | .ok response =>
    if refused response.statusCode then
      .error (fromResponse response.statusCode.toInt32 response.body)
    else .ok response
  | .error error => .error error

/-! ## Retries -/

section Retries

variable {policy : RetryPolicy} {response : HttpResponse}

/-- A status of a response as an `int`. -/
lemma le_toInt32_iff {s : Int16} : 500 ≤ s.toInt32 ↔ 500 ≤ s := by
  rw [Int32.le_iff_toInt_le, Int16.le_iff_toInt_le, Int16.toInt_toInt32]
  rfl

lemma toInt32_eq_iff {s t : Int16} : s.toInt32 = t.toInt32 ↔ s = t := by
  rw [← Int32.toInt_inj, Int16.toInt_toInt32, Int16.toInt_toInt32, Int16.toInt_inj]

/-- Which responses are retried. -/
lemma shouldRetryResponse_iff :
    shouldRetryResponse response policy = true ↔
      policy.retryOnRateLimit = true ∧ response.statusCode = 429 ∨
        policy.retryOnServerError = true ∧ 500 ≤ response.statusCode ∧
          response.statusCode < 600 := by
  rw [shouldRetryResponse]
  split_ifs with h h' <;> simp_all

/-- Which of their errors are. -/
lemma shouldRetryError_fromResponse_iff {status : Int32} {body : Bytes} :
    shouldRetryError (fromResponse status body) policy = true ↔
      policy.retryOnRateLimit = true ∧ status = 429 ∨
        policy.retryOnServerError = true ∧ 500 ≤ status := by
  have h404 : ¬ (500 : Int32) ≤ 404 := by decide
  have h400 : ¬ (500 : Int32) ≤ 400 := by decide
  have h416 : ¬ (500 : Int32) ≤ 416 := by decide
  have h429 : ¬ (500 : Int32) ≤ 429 := by decide
  rw [shouldRetryError, fromResponse, responseCode]
  by_cases hposted : status = 404
  · simp [hposted, h404]
  by_cases hinvalid : status = 400 ∨ status = 416
  · rcases hinvalid with rfl | rfl
    · simp [h400]
    · simp [h416]
  by_cases hlimited : status = 429
  · simp [hlimited, h429]
  by_cases hserver : 500 ≤ status
  · simp [hposted, hinvalid, hlimited, hserver]
  · simp [hposted, hinvalid, hlimited, hserver]

/-- **The two overloads agree** on a response and on its error if and only if its status is below
600 or server errors are not retried. -/
theorem shouldRetry_agree_iff :
    shouldRetryError (fromResponse response.statusCode.toInt32 response.body) policy
        = shouldRetryResponse response policy ↔
      (policy.retryOnServerError = true → response.statusCode < 600) := by
  have h600 : ¬ (600 : Int16) ≤ 429 := by decide
  have h429 : response.statusCode.toInt32 = 429 ↔ response.statusCode = 429 :=
    toInt32_eq_iff (t := 429)
  rw [Bool.eq_iff_iff, shouldRetryResponse_iff, shouldRetryError_fromResponse_iff, h429,
    le_toInt32_iff]
  constructor
  · intro h hserver
    by_contra hlt
    rw [Int16.not_lt] at hlt
    have hge : (500 : Int16) ≤ response.statusCode := Int16.le_trans (by decide) hlt
    rcases h.mp (.inr ⟨hserver, hge⟩) with ⟨-, h⟩ | ⟨-, -, h⟩
    · rw [h] at hlt
      exact h600 hlt
    · exact absurd h (Int16.not_lt.mpr hlt)
  · intro h
    constructor
    · rintro (hlimited | ⟨hserver, hge⟩)
      · exact .inl hlimited
      · exact .inr ⟨hserver, hge, h hserver⟩
    · rintro (hlimited | ⟨hserver, hge, -⟩)
      · exact .inl hlimited
      · exact .inr ⟨hserver, hge⟩

/-! ## The loop -/

/-- What a loop comes to, with another result. -/
def Retried.map (f : Result HttpResponse → Result HttpResponse) (r : Retried) : Retried where
  trace := r.trace
  returned := r.returned.map f

variable {outcome : ℕ → Result HttpResponse} {draw : ℕ → policy.Jitter} {attempt : UInt8}
  {invoked : ℕ} {f : Result HttpResponse → Result HttpResponse}

/-- A change of the outcomes that does not change what is retried can be made behind the loop. -/
lemma withRetryFrom_map
    (hf : ∀ i, shouldRetry policy (f (outcome i)) = shouldRetry policy (outcome i)) :
    withRetryFrom (fun i => f (outcome i)) policy draw attempt invoked
      = (withRetryFrom outcome policy draw attempt invoked).map f := by
  obtain ⟨d, hd⟩ : ∃ d, policy.maxAttempts.toNat - attempt.toNat = d := ⟨_, rfl⟩
  by_cases hle : attempt ≤ policy.maxAttempts
  · -- by induction on the attempts that are left
    induction d generalizing attempt invoked with
    | zero =>
      have hnot (r : Result HttpResponse) :
          ¬ (shouldRetry policy r = true ∧ attempt < policy.maxAttempts) := by
        rw [UInt8.lt_iff_toNat_lt]
        omega
      rw [withRetryFrom_eq hle, withRetryFrom_eq hle, if_neg (hnot _), if_neg (hnot _)]
      rfl
    | succ d ih =>
      rw [withRetryFrom_eq hle, withRetryFrom_eq hle, hf]
      split_ifs with hretry
      · have hnext := toNat_succ_of_lt hretry.2
        have hlt := UInt8.lt_iff_toNat_lt.mp hretry.2
        rw [ih (by omega) (UInt8.le_iff_toNat_le.mpr (by omega))]
        rfl
      · rfl
  · rw [withRetryFrom, if_neg hle, withRetryFrom, if_neg hle]
    rfl

/-- **Errors in front of the loop and behind it.**  On responses with a status of HTTP, an
operation that turns the responses it refuses into errors is invoked as often, and waited for as
long, as one that returns them; and what is returned is the same in the end. -/
theorem withRetry_refuse (outcome : ℕ → Result HttpResponse) (policy : RetryPolicy)
    (draw : ℕ → policy.Jitter) (refused : Int16 → Bool)
    (hstatus : ∀ i response, outcome i = .ok response → refused response.statusCode = true →
      response.statusCode < 600) :
    (withRetryLoop (fun i => refuse refused (outcome i)) policy draw).trace
        = (withRetryLoop outcome policy draw).trace ∧
      withRetry (fun i => refuse refused (outcome i)) policy draw
        = refuse refused (withRetry outcome policy draw) := by
  have hf (i : ℕ) : shouldRetry policy (refuse refused (outcome i))
      = shouldRetry policy (outcome i) := by
    cases houtcome : outcome i with
    | error error => rfl
    | ok response =>
      rw [refuse]
      split_ifs with hrefused
      · exact shouldRetry_agree_iff.mpr fun _ => hstatus i response houtcome hrefused
      · rfl
  have hmap := @withRetryFrom_map policy outcome draw 1 0 (refuse refused) hf
  rw [withRetry, withRetry, withRetryLoop, withRetryLoop, hmap, Retried.map]
  refine ⟨rfl, ?_⟩
  cases (withRetryFrom outcome policy draw 1 0).returned <;> rfl

/-- A server that is busy at first. -/
def busy (i : ℕ) : Result HttpResponse :=
  .ok { statusCode := if i = 0 then 503 else 200, body := ascii "slow down" }

/-- Its first response is refused, and retried. -/
theorem withRetry_refuse_busy :
    withRetry (fun i => refuse (fun s => decide (s ≠ 200)) (busy i)) steadyPolicy
        (fun _ => steadyJitter)
      = refuse (fun s => decide (s ≠ 200))
          (withRetry busy steadyPolicy fun _ => steadyJitter) := by
  refine (withRetry_refuse busy steadyPolicy _ _ fun i response h _ => ?_).2
  obtain rfl := Except.ok.inj h
  show (if i = 0 then (503 : Int16) else 200) < 600
  split_ifs <;> decide

end Retries

end GribCpp.Http
