/-
# The retrying client

The model of `RetryingClient` in `src/core/retry.cpp`, and of `HttpClient::config`.  A retrying
client refers to a client, which libcurl and the servers let every request find in another state;
it is given here as the requests to come find it, one after the other.  Each call takes as many of
them as it makes requests, and leaves the rest to the next call.
-/
import GribCpp.Http.Download
import GribCpp.Http.Retry

namespace GribCpp.Http

/-! ## The source -/

/-- `HttpClient::config`: a client that was moved from has an empty one. -/
def HttpClient.config (client : HttpClient) : HttpClientConfig :=
  match client.impl with
  | some impl => impl.config
  | none => { baseUrl := [], userAgent := [] }

/-- `RetryingClient`. -/
structure RetryingClient where
  client : ℕ → HttpClient
  policy : RetryPolicy

/-- What a call does: the requests that it makes, with the options they are sent with, and the
delays between them; what it returns; and what it leaves behind. -/
structure RetriedCall where
  sent : List (Option Options)
  sleeps : List Int64
  result : Result HttpResponse
  next : RetryingClient

/-- The delay of an event. -/
def RetryEvent.delay? : RetryEvent → Option Int64
  | .invoke => none
  | .sleep delay => some delay

namespace RetryingClient

/-- `RetryingClient::set_policy`. -/
def setPolicy (c : RetryingClient) (policy : RetryPolicy) : RetryingClient :=
  { c with policy := policy }

/-- A call of `with_retry` with requests of the client. -/
def call (c : RetryingClient) (draw : ℕ → c.policy.Jitter) (request : HttpClient → Exchange) :
    RetriedCall :=
  let outcome := fun i => (request (c.client i)).result
  let trace := (withRetryLoop outcome c.policy draw).trace
  { sent := (List.range (trace.count .invoke)).map fun i => (request (c.client i)).sent
    sleeps := trace.filterMap RetryEvent.delay?
    result := withRetry outcome c.policy draw
    next := { c with client := fun i => c.client (trace.count .invoke + i) } }

/-- `RetryingClient::get`. -/
def get (c : RetryingClient) (draw : ℕ → c.policy.Jitter) (path : Bytes) : RetriedCall :=
  c.call draw fun client => client.get path

/-- `RetryingClient::get_range`. -/
def getRange (c : RetryingClient) (draw : ℕ → c.policy.Jitter) (path : Bytes)
    (offset length : UInt64) : RetriedCall :=
  c.call draw fun client => client.getRange path offset length

end RetryingClient

/-! ## A call -/

section Call

/-- The delays of a schedule: one between any two of its invocations. -/
lemma filterMap_delay_schedule (delay : ℕ → Int64) (i n : ℕ) :
    (schedule delay i n).filterMap RetryEvent.delay?
      = (List.range (n - 1)).map fun j => delay (i + j) := by
  fun_induction schedule delay i n with
  | case1 => rfl
  | case2 => rfl
  | case3 i n ih =>
    have hn : n + 2 - 1 = n + 1 := by omega
    have hsleep : RetryEvent.delay? (.sleep (delay i)) = some (delay i) := rfl
    rw [hn, List.range_succ_eq_map, List.map_cons, List.map_map, List.filterMap_cons_none rfl,
      List.filterMap_cons_some hsleep, ih, Nat.add_sub_cancel, Nat.add_zero]
    congr 1
    refine List.map_congr_left fun j _ => ?_
    rw [Function.comp_apply, Nat.succ_eq_add_one, Nat.add_right_comm, Nat.add_assoc]

variable {c : RetryingClient} {draw : ℕ → c.policy.Jitter} {request : HttpClient → Exchange}

/-- **A call**: without attempts it fails; otherwise it makes some requests, all but the last of
them retried, and the last one rejected or allowed no other; it returns what the last one comes
to. -/
lemma exists_call (c : RetryingClient) (draw : ℕ → c.policy.Jitter)
    (request : HttpClient → Exchange) :
    ∃ n, n ≤ c.policy.maxAttempts.toNat ∧
      (c.call draw request).sent
        = (List.range n).map (fun i => (request (c.client i)).sent) ∧
      (c.call draw request).next = { c with client := fun i => c.client (n + i) } ∧
      (c.call draw request).sleeps.length = n - 1 ∧
      (∀ d ∈ (c.call draw request).sleeps, 0 ≤ d.toInt ∧ d.toInt ≤ c.policy.ceiling) ∧
      (c.policy.maxAttempts = 0 → n = 0 ∧ (c.call draw request).result
        = .error (.network (ascii "Max retry attempts exceeded"))) ∧
      (c.policy.maxAttempts ≠ 0 → 0 < n ∧
        (c.call draw request).result = (request (c.client (n - 1))).result ∧
        (∀ j < n - 1, shouldRetry c.policy (request (c.client j)).result = true) ∧
        (shouldRetry c.policy (request (c.client (n - 1))).result = false ∨
          n = c.policy.maxAttempts.toNat)) := by
  set outcome := fun i => (request (c.client i)).result with houtcome
  by_cases hzero : c.policy.maxAttempts = 0
  · have hloop := @withRetryLoop_of_zero outcome c.policy draw hzero
    refine ⟨0, Nat.zero_le _, ?_, ?_, ?_, ?_, fun _ => ⟨rfl, ?_⟩, fun hne => absurd hzero hne⟩
    · simp [RetryingClient.call, ← houtcome, hloop]
    · simp [RetryingClient.call, ← houtcome, hloop]
    · simp [RetryingClient.call, ← houtcome, hloop]
    · simp [RetryingClient.call, ← houtcome, hloop]
    · simp [RetryingClient.call, ← houtcome, withRetry, hloop]
  · have hone : (1 : UInt8).toNat = 1 := rfl
    have hpos := UInt8.lt_iff_toNat_lt.mp (UInt8.pos_iff_ne_zero.mpr hzero)
    have hle : (1 : UInt8) ≤ c.policy.maxAttempts := by
      rw [UInt8.le_iff_toNat_le, hone]
      exact hpos
    obtain ⟨n, htrace, hreturned, hmax, hretried, hlast⟩ :=
      @exists_withRetryFrom outcome c.policy draw 1 0 rfl hle
    simp only [Nat.zero_add] at htrace hreturned hmax hretried hlast
    have hcount : (withRetryLoop outcome c.policy draw).trace.count .invoke = n + 1 := by
      rw [withRetryLoop, htrace, count_invoke_schedule]
    have hsleeps : (c.call draw request).sleeps = (List.range n).map fun j =>
        calculateRetryDelay (UInt8.ofNat (1 + j)) c.policy (draw (1 + j - 1)) := by
      rw [RetryingClient.call, withRetryLoop]
      simp only [← houtcome, htrace, filterMap_delay_schedule, Nat.add_sub_cancel]
    refine ⟨n + 1, hmax, ?_, ?_, ?_, fun d hd => ?_, fun h => absurd h hzero,
      fun _ => ⟨Nat.succ_pos n, ?_, hretried, hlast⟩⟩
    · rw [RetryingClient.call]
      simp only [← houtcome, hcount]
    · rw [RetryingClient.call]
      simp only [← houtcome, hcount]
    · rw [hsleeps, List.length_map, List.length_range, Nat.add_sub_cancel]
    · rw [hsleeps] at hd
      obtain ⟨j, -, rfl⟩ := List.mem_map.mp hd
      obtain ⟨d, hd, hnonneg, hceiling, -⟩ :=
        exists_calculateRetryDelay? (UInt8.ofNat (1 + j)) c.policy (draw (1 + j - 1))
      obtain rfl := Option.some.inj
        (hd.symm.trans (calculateRetryDelay?_eq (UInt8.ofNat (1 + j)) c.policy
          (draw (1 + j - 1))))
      exact ⟨hnonneg, hceiling⟩
    · rw [RetryingClient.call, withRetry, withRetryLoop]
      simp only [← houtcome, hreturned]
      rfl

end Call

/-! ## What is retried -/

/-- The codes of the errors of a request. -/
def requestCodes : List ErrorCode := [.networkError, .timeout, .invalidRequest]

section Codes

variable {client : HttpClient} {path : Bytes} {range : Option Bytes} {offset length : UInt64}
  {e : Error} {policy : RetryPolicy}

lemma code_of_prepare (h : client.prepare path range = .error e) : e.code ∈ requestCodes := by
  rw [HttpClient.prepare] at h
  split at h
  · obtain rfl := Except.error.inj h
    decide
  · split at h
    · obtain rfl := Except.error.inj h
      decide
    · split_ifs at h <;> obtain rfl := Except.error.inj h <;> decide

lemma code_of_receive {p : Prepared} (h : p.receive = .error e) : e.code ∈ requestCodes := by
  rw [Prepared.receive] at h
  simp only at h
  generalize (if (deliver { limit := p.limit } (p.curl.easyPerform p.options).events).1 = true
    then curleWriteError else (p.curl.easyPerform p.options).code) = code at h
  split_ifs at h with hover htimeout hcode
  · rw [← Except.error.inj h]
    simp [requestCodes, Error.invalidRequest]
  · rw [← Except.error.inj h]
    simp [requestCodes, Error.timeout]
  · rw [← Except.error.inj h]
    simp [requestCodes, Error.network]
  · split at h
    · rw [← Except.error.inj h]
      simp [requestCodes, Error.network]
    · exact absurd h (by simp)

lemma code_of_perform (h : (client.perform path range).result = .error e) :
    e.code ∈ requestCodes := by
  rw [HttpClient.perform] at h
  split at h
  · rename_i e' hprepare
    obtain rfl := Except.error.inj h
    exact code_of_prepare hprepare
  · exact code_of_receive h

lemma checkTotal_eq_error {last : UInt64} {r : HttpResponse} {total : Bytes}
    (h : checkTotal offset length last r total = .error e) : e = invalidRange := by
  rw [checkTotal] at h
  split_ifs at h
  · exact (Except.error.inj h).symm
  · split at h
    · split_ifs at h <;> exact (Except.error.inj h).symm
    · exact (Except.error.inj h).symm

lemma checkContentRange_eq_error {r : HttpResponse}
    (h : checkContentRange offset length r = .error e) : e = invalidRange := by
  rw [checkContentRange] at h
  split_ifs at h
  · exact (Except.error.inj h).symm
  · split at h
    · split at h
      · split_ifs at h
        · exact (Except.error.inj h).symm
        · exact checkTotal_eq_error h
      · exact (Except.error.inj h).symm
    · exact (Except.error.inj h).symm

/-- A response that does not pass the checks is an error of the network. -/
lemma code_of_checkResponse {r : HttpResponse} (h : checkResponse offset length r = .error e) :
    e.code = .networkError := by
  rw [checkResponse] at h
  split_ifs at h
  · rw [← Except.error.inj h]
    rfl
  · rw [checkContentRange_eq_error h]
    rfl

lemma code_of_getRange (h : (client.getRange path offset length).result = .error e) :
    e.code ∈ requestCodes := by
  rw [HttpClient.getRange, getRangeWith] at h
  split_ifs at h
  · rw [← Except.error.inj h]
    decide
  · simp only at h
    cases hperform : (client.perform path (some (rangeText offset length))).result with
    | error e' =>
      rw [hperform] at h
      rw [← Except.error.inj h]
      exact code_of_perform hperform
    | ok r =>
      rw [hperform] at h
      rw [code_of_checkResponse h]
      decide

/-- **What is retried.**  Of the errors of a request those that are not the fault of the request
itself, and of the responses those that the server gives for the time being. -/
lemma shouldRetry_iff {result : Result HttpResponse}
    (hcodes : ∀ e, result = .error e → e.code ∈ requestCodes) :
    shouldRetry policy result = true ↔
      (∃ e, result = .error e ∧ policy.retryOnNetworkError = true ∧ e.code ≠ .invalidRequest) ∨
      ∃ r, result = .ok r ∧ ((policy.retryOnRateLimit = true ∧ r.statusCode = 429) ∨
        (policy.retryOnServerError = true ∧ 500 ≤ r.statusCode ∧ r.statusCode < 600)) := by
  cases result with
  | ok r =>
    rw [shouldRetry, shouldRetryResponse]
    split_ifs <;> simp_all
  | error e =>
    have hcode := hcodes e rfl
    rw [shouldRetry, shouldRetryError]
    simp only [requestCodes, List.mem_cons, List.not_mem_nil, or_false] at hcode
    rcases hcode with hcode | hcode | hcode <;> simp [hcode]

end Codes

/-! ## The range requests of a retrying client -/

/-- Delays within a bound. -/
lemma sum_toInt_le {ds : List Int64} {bound : ℤ} (h : ∀ d ∈ ds, d.toInt ≤ bound) :
    (ds.map Int64.toInt).sum ≤ ds.length * bound := by
  induction ds with
  | nil => simp
  | cons d ds ih =>
    have hd := h d (by simp)
    have hds := ih fun d' hd' => h d' (by simp [hd'])
    rw [List.map_cons, List.sum_cons, List.length_cons, Nat.cast_add, Nat.cast_one, add_mul,
      one_mul]
    omega

section Range

variable {client : HttpClient} {path : Bytes} {offset length : UInt64}

lemma getRange_of_rangeOverflows (h : RangeOverflows offset length) :
    client.getRange path offset length
      = ⟨none, .error (.invalidRequest (ascii "Byte range overflow"))⟩ := by
  rw [HttpClient.getRange, getRangeWith, if_pos h]

/-- A range request is sent with the configuration of its client. -/
lemma sent_getRange {opts : Options} (h : (client.getRange path offset length).sent = some opts) :
    ¬ RangeOverflows offset length ∧
      opts = requestOptions client.config path (some (rangeText offset length)) := by
  by_cases hguard : RangeOverflows offset length
  · rw [getRange_of_rangeOverflows hguard] at h
    exact absurd h (by simp)
  · obtain ⟨config, curl, hsend, rfl⟩ := (sent_getRange_iff hguard).mp h
    rw [HttpClient.config, hsend.impl_eq]
    exact ⟨hguard, rfl⟩

/-- What a range request returns is no other range. -/
lemma isRequested_of_getRange {r : HttpResponse}
    (h : (client.getRange path offset length).result = .ok r) (h200 : 200 ≤ r.statusCode)
    (h300 : r.statusCode < 300) :
    r.statusCode = 206 ∧ IsRequested offset.toNat length.toNat r := by
  by_cases hguard : RangeOverflows offset length
  · rw [getRange_of_rangeOverflows hguard] at h
    exact absurd h (by simp)
  · have hcheck := (perform_of_getRange hguard h).2
    rcases ((checkResponse_eq_ok_iff hguard).mp hcheck).2 with hlt | hge | hrequested
    · exact absurd h200 (Int16.not_le.mpr hlt)
    · exact absurd h300 (Int16.not_lt.mpr hge)
    · exact hrequested

end Range

/-- **Retrying a range request.**  Whatever states of a client of one configuration the requests
find, and whatever the servers answer: the call makes no more requests than the policy allows, all
of them with the same options, and none if the range overflows; before each of them but the first
it waits once, for no longer than the policy allows; it repeats errors that are not the fault of
the request and responses that are given for the time being, and nothing else; it returns what the
last request comes to, and a success only if that is the range asked for. -/
theorem retryingGetRange_sound (c : RetryingClient) (draw : ℕ → c.policy.Jitter) (path : Bytes)
    (offset length : UInt64) (config : HttpClientConfig)
    (hconfig : ∀ i, (c.client i).config = config) :
    ∃ n, n ≤ c.policy.maxAttempts.toNat ∧ (RangeOverflows offset length → n ≤ 1) ∧
      (c.getRange draw path offset length).sent.length = n ∧
      (∀ opts, some opts ∈ (c.getRange draw path offset length).sent →
        ¬ RangeOverflows offset length ∧
          opts = requestOptions config path (some (rangeText offset length))) ∧
      (c.getRange draw path offset length).sleeps.length = n - 1 ∧
      (∀ d ∈ (c.getRange draw path offset length).sleeps,
        0 ≤ d.toInt ∧ d.toInt ≤ max c.policy.maxDelay.toInt 0) ∧
      ((c.getRange draw path offset length).sleeps.map Int64.toInt).sum
        ≤ (n - 1 : ℕ) * max c.policy.maxDelay.toInt 0 ∧
      (∀ j < n - 1,
        (∃ e, ((c.client j).getRange path offset length).result = .error e ∧
          c.policy.retryOnNetworkError = true ∧ e.code ≠ .invalidRequest) ∨
        ∃ r, ((c.client j).getRange path offset length).result = .ok r ∧
          ((c.policy.retryOnRateLimit = true ∧ r.statusCode = 429) ∨
            (c.policy.retryOnServerError = true ∧ 500 ≤ r.statusCode ∧ r.statusCode < 600))) ∧
      (c.policy.maxAttempts ≠ 0 → (c.getRange draw path offset length).result
        = ((c.client (n - 1)).getRange path offset length).result) ∧
      ∀ r, (c.getRange draw path offset length).result = .ok r → 200 ≤ r.statusCode →
        r.statusCode < 300 → r.statusCode = 206 ∧ IsRequested offset.toNat length.toNat r := by
  obtain ⟨n, hmax, hsent, -, hsleeps, hdelays, hzero, hpos⟩ :=
    exists_call c draw fun client => client.getRange path offset length
  have hretried : ∀ j < n - 1,
      shouldRetry c.policy ((c.client j).getRange path offset length).result = true := by
    intro j hj
    by_cases hnone : c.policy.maxAttempts = 0
    · obtain ⟨rfl, -⟩ := hzero hnone
      exact absurd hj (by omega)
    · exact (hpos hnone).2.2.1 j hj
  refine ⟨n, hmax, fun hover => ?_, ?_, fun opts hopts => ?_, hsleeps, hdelays, ?_,
    fun j hj => ?_, fun hnone => (hpos hnone).2.1, fun r hr h200 h300 => ?_⟩
  · -- an overflow is the fault of the request
    by_contra hn
    have h := hretried 0 (by omega)
    rw [getRange_of_rangeOverflows hover] at h
    exact absurd h (by simp [shouldRetry, shouldRetryError, Error.invalidRequest])
  · rw [RetryingClient.getRange, hsent, List.length_map, List.length_range]
  · rw [RetryingClient.getRange, hsent] at hopts
    obtain ⟨i, -, hi⟩ := List.mem_map.mp hopts
    rw [← hconfig i]
    exact sent_getRange hi
  · have hsum := sum_toInt_le fun d hd => (hdelays d hd).2
    rwa [hsleeps] at hsum
  · exact (shouldRetry_iff fun e he => code_of_getRange he).mp (hretried j hj)
  · by_cases hnone : c.policy.maxAttempts = 0
    · have hresult := (hzero hnone).2
      exact absurd (hresult.symm.trans hr) (by simp)
    · have hresult := (hpos hnone).2.1
      exact isRequested_of_getRange (hresult.symm.trans hr) h200 h300

/-- **A server that comes up in time.**  The first `k` requests come to something that is retried,
and from then on an honest server serves the file.  If the policy allows more than `k` attempts, the
call makes `k + 1` requests and returns the bytes asked for, and the next call finds the server up;
otherwise it makes all that are allowed, and returns no partial response. -/
theorem retryingGetRange_served (F : Bytes) (hF : F.length < 2 ^ 64) (c : RetryingClient)
    (draw : ℕ → c.policy.Jitter) (path : Bytes) (offset length : UInt64)
    (config : HttpClientConfig) (k : ℕ)
    (hdown : ∀ i < k,
      shouldRetry c.policy ((c.client i).getRange path offset length).result = true)
    (hup : ∀ i, k ≤ i → ∃ curl, ServedBy F (c.client i) path config curl)
    (hend : length.toNat = 0 ∨ offset.toNat + length.toNat - 1 < 2 ^ 64)
    (hoffset : offset.toNat < F.length) (body : Bytes)
    (hbody : body = (F.drop offset.toNat).take
      (if length.toNat = 0 then F.length - offset.toNat else length.toNat))
    (hlimit : config.maxResponseBytes = 0 ∨ body.length ≤ config.maxResponseBytes.toNat) :
    (k < c.policy.maxAttempts.toNat →
      (c.getRange draw path offset length).sent.length = k + 1 ∧
      (∃ response, (c.getRange draw path offset length).result = .ok response ∧
        response.statusCode = 206 ∧ response.body = body) ∧
      ∀ i, ∃ curl,
        ServedBy F ((c.getRange draw path offset length).next.client i) path config curl) ∧
    (c.policy.maxAttempts.toNat ≤ k →
      (c.getRange draw path offset length).sent.length = c.policy.maxAttempts.toNat ∧
      ∀ response, (c.getRange draw path offset length).result = .ok response →
        response.statusCode ≠ 206) := by
  have hguard : ¬ RangeOverflows offset length := by
    rw [rangeOverflows_iff]
    omega
  -- an answer of the server is what was asked for, and is not retried
  have hserved : ∀ i, k ≤ i → ∃ response,
      ((c.client i).getRange path offset length).result = .ok response ∧
        response.statusCode = 206 ∧ response.body = body := by
    intro i hi
    obtain ⟨curl, hcurl⟩ := hup i hi
    obtain ⟨response, hresult, hresponse⟩ :=
      getRange_served hF hcurl hguard hoffset hbody hlimit
    exact ⟨response, hresult, statusCode_of_served hcurl hguard hoffset hresult, hresponse⟩
  have hpartial : ∀ response : HttpResponse, response.statusCode = 206 →
      shouldRetry c.policy (.ok response) = false := by
    intro response h206
    have h429 : ¬ (206 : Int16) = 429 := by decide
    have h500 : ¬ (500 : Int16) ≤ 206 := by decide
    simp [shouldRetry, shouldRetryResponse, h206, h429, h500]
  obtain ⟨n, hmax, hsent, hnext, -, -, hzero, hpos⟩ :=
    exists_call c draw fun client => client.getRange path offset length
  have hlength : (c.getRange draw path offset length).sent.length = n := by
    rw [RetryingClient.getRange, hsent, List.length_map, List.length_range]
  refine ⟨fun hlt => ?_, fun hle => ?_⟩
  · have hne : c.policy.maxAttempts ≠ 0 := by
      intro hnone
      rw [hnone] at hlt
      exact absurd hlt (by simp)
    obtain ⟨hn, hresult, hretried, hlast⟩ := hpos hne
    -- the last request is the first one that the server answers
    have hge : n ≤ k + 1 := by
      by_contra hgt
      obtain ⟨response, hok, h206, -⟩ := hserved k le_rfl
      have h := hretried k (by omega)
      rw [hok, hpartial response h206] at h
      exact absurd h (by simp)
    have heq : n = k + 1 := by
      rcases hlast with hrejected | hall
      · by_contra hne'
        rw [hdown (n - 1) (by omega)] at hrejected
        exact absurd hrejected (by simp)
      · omega
    obtain rfl := heq
    obtain ⟨response, hok, h206, hresponse⟩ := hserved k le_rfl
    refine ⟨hlength, ⟨response, hresult.trans hok, h206, hresponse⟩, fun i => ?_⟩
    rw [RetryingClient.getRange, hnext]
    exact hup (k + 1 + i) (by omega)
  · by_cases hnone : c.policy.maxAttempts = 0
    · obtain ⟨rfl, hresult⟩ := hzero hnone
      refine ⟨by rw [hlength, hnone]; rfl, fun response hok => ?_⟩
      exact absurd (hresult.symm.trans hok) (by simp)
    · obtain ⟨hn, hresult, -, hlast⟩ := hpos hnone
      have hretry := hdown (n - 1) (by omega)
      refine ⟨?_, fun response hok h206 => ?_⟩
      · rw [hlength]
        exact hlast.resolve_left (by rw [hretry]; simp)
      · rw [hresult.symm.trans hok, hpartial response h206] at hretry
        exact absurd hretry (by simp)

/-! ## A server that is down twice -/

/-- libcurl in front of a server that cannot be reached. -/
def downCurl : Curl where
  slistAppend := true
  setopt _ := true
  easyPerform _ := { events := [], code := 7, status := none }
  strerror _ := ascii "Could not connect to server"

/-- A client that reaches a server of ten bytes with its third request, and the policy of three
attempts without jitter. -/
def thirdTime : RetryingClient where
  client i := if i < 2 then { impl := some ⟨{}, some downCurl⟩ } else tenClient
  policy := steadyPolicy

lemma config_thirdTime (i : ℕ) : (thirdTime.client i).config = {} := by
  rw [thirdTime]
  dsimp only
  split <;> rfl

theorem retryingGetRange_sound_third :
    ∃ n ≤ 3, (thirdTime.getRange (fun _ => steadyJitter) (ascii "/ten") 2 20).sent.length = n ∧
      (∀ d ∈ (thirdTime.getRange (fun _ => steadyJitter) (ascii "/ten") 2 20).sleeps,
        0 ≤ d.toInt ∧ d.toInt ≤ max 30000 0) ∧
      ((thirdTime.getRange (fun _ => steadyJitter) (ascii "/ten") 2 20).sleeps.map
        Int64.toInt).sum ≤ (n - 1 : ℕ) * max 30000 0 := by
  obtain ⟨n, hn, -, hsent, -, -, hdelays, hsum, -⟩ := retryingGetRange_sound thirdTime
    (fun _ => steadyJitter) (ascii "/ten") 2 20 {} config_thirdTime
  exact ⟨n, hn, hsent, hdelays, hsum⟩

theorem retryingGetRange_served_third :
    (thirdTime.getRange (fun _ => steadyJitter) (ascii "/ten") 2 20).sent.length = 3 ∧
      ∃ response, (thirdTime.getRange (fun _ => steadyJitter) (ascii "/ten") 2 20).result
        = .ok response ∧ response.statusCode = 206 ∧ response.body = ascii "23456789" := by
  have hserved : ServedBy tenBytes tenClient (ascii "/ten") {} (honestCurl tenBytes) :=
    servedBy_honestCurl (by decide) fun _ => ⟨rfl, by decide, by decide, by decide, rfl, rfl⟩
  have hlaw := (retryingGetRange_served tenBytes (by decide) thirdTime (fun _ => steadyJitter)
    (ascii "/ten") 2 20 {} 2 ?_ ?_ (Or.inr (by decide)) (by decide) (ascii "23456789") (by decide)
    (Or.inr (by decide))).1 (by decide)
  · exact ⟨hlaw.1, hlaw.2.1⟩
  · intro i hi
    have hdown : thirdTime.client i = { impl := some ⟨{}, some downCurl⟩ } := if_pos hi
    rw [hdown]
    rfl
  · intro i hi
    have hten : thirdTime.client i = tenClient := if_neg (by omega)
    rw [hten]
    exact ⟨_, hserved⟩

end GribCpp.Http
