/-
# The HTTP client

The model of `include/grib/http_client.hpp` and of `src/http/client.cpp` up to the range
requests.  The libcurl handle is a parameter: given the options that a request sets, it
tells which deliveries it makes to the two callbacks, in order, and how the transfer ends.
The deliveries stop at the first one of which a callback takes less than it is offered.
Every request records the options it was sent with, if it was sent at all.
-/
import GribCpp.Core.Error
import GribCpp.Lib.Search

namespace GribCpp.Http

open Search

/-- `HttpResponse`; the size of a `std::string` is a `std::size_t`. -/
structure HttpResponse where
  statusCode : Int16 := 0
  body : Bytes := []
  headers : List (Bytes × Bytes) := []
  size_lt : body.length < 2 ^ 64 := by decide

namespace HttpResponse

/-- `body.size()`. -/
def bodySize (r : HttpResponse) : UInt64 := UInt64.ofNat r.body.length

@[simp] lemma toNat_bodySize (r : HttpResponse) : r.bodySize.toNat = r.body.length :=
  UInt64.toNat_ofNat_of_lt' r.size_lt

end HttpResponse

/-- `HttpClientConfig`; the timeout is in seconds. -/
structure HttpClientConfig where
  baseUrl : Bytes := []
  userAgent : Bytes := ascii "grib-cpp/0.2.0"
  timeout : ℤ := 120
  verifySsl : Bool := true
  maxResponseBytes : UInt64 := 64 * 1024 * 1024
deriving DecidableEq, Repr

/-! ## The callbacks -/

/-- `ResponseSink`. -/
structure ResponseSink where
  response : HttpResponse := {}
  limit : UInt64
  overflowed : Bool := false

/-- The arguments of a callback, and whether the memory it asks for can be had. -/
structure Delivery where
  data : Bytes
  size : UInt64
  count : UInt64
  memory : Bool := true
deriving DecidableEq, Repr

/-- The product of the sizes does not fit. -/
def Delivery.TooLarge (d : Delivery) : Prop :=
  d.size ≠ 0 ∧ UInt64.ofNat (2 ^ 64 - 1) / d.size < d.count

instance (d : Delivery) : Decidable d.TooLarge := inferInstanceAs (Decidable (_ ∧ _))

/-- The number of bytes of a delivery. -/
def Delivery.bytes (d : Delivery) : UInt64 := d.size * d.count

/-- The bytes of a delivery. -/
def Delivery.text (d : Delivery) : Bytes := d.data.take d.bytes.toNat

/-- `write_callback`: the number of bytes taken, and the sink. -/
def writeCallback (sink : ResponseSink) (d : Delivery) : UInt64 × ResponseSink :=
  if d.TooLarge then (0, sink)
  -- a limit of zero is none
  else if 0 < sink.limit ∧ sink.limit - sink.response.bodySize < d.bytes then
    (0, { sink with overflowed := true })
  else if h : d.memory = true ∧ (sink.response.body ++ d.text).length < 2 ^ 64 then
    (d.bytes,
      { sink with
        response := { sink.response with
          body := sink.response.body ++ d.text
          size_lt := h.2 } })
  else (0, sink)

/-- A space, a tab, a carriage return or a newline. -/
def isBlank (c : UInt8) : Bool := c == 32 || c == 9 || c == 13 || c == 10

/-- The text between the first and the last byte that is not blank. -/
def trim (raw : Bytes) : Bytes := (raw.dropWhile isBlank).rdropWhile isBlank

/-- What `header_callback` makes of the stored headers. -/
def headerLine (headers : List (Bytes × Bytes)) (line : Bytes) : List (Bytes × Bytes) :=
  let headers := if ascii "HTTP/" <+: line then [] else headers
  match line.idxOf? 58 with
  | none => headers
  | some colon => headers ++ [(line.take colon, trim (line.drop (colon + 1)))]

/-- `header_callback`: the number of bytes taken, and the sink.  A pair that cannot be
stored leaves the headers as they are after a status line. -/
def headerCallback (sink : ResponseSink) (d : Delivery) : UInt64 × ResponseSink :=
  if d.TooLarge then (0, sink)
  else if d.memory = true ∨ d.text.idxOf? 58 = none then
    (d.bytes,
      { sink with
        response := { sink.response with headers := headerLine sink.response.headers d.text } })
  else
    (0,
      { sink with
        response := { sink.response with
          headers := if ascii "HTTP/" <+: d.text then [] else sink.response.headers } })

/-! ## libcurl -/

/-- The options that a request sets. -/
structure Options where
  url : Bytes
  protocols : Bytes
  redirProtocols : Bytes
  httpHeader : List Bytes
  timeout : ℤ
  noSignal : Bool
  userAgent : Bytes
  range : Option Bytes
  acceptEncoding : Bytes
  followLocation : Bool
  maxRedirs : ℤ
  sslVerifyPeer : ℤ
  sslVerifyHost : ℤ
deriving DecidableEq, Repr

/-- A call of one of the callbacks. -/
inductive Event where
  | header (d : Delivery)
  | body (d : Delivery)
deriving DecidableEq, Repr

/-- A transfer: the deliveries that libcurl makes as long as the callbacks take them, the
code of a transfer that they do not stop, and the status, when libcurl tells it. -/
structure Transfer where
  events : List Event
  code : ℕ
  status : Option ℤ

/-- A libcurl handle, as far as the client uses it. -/
structure Curl where
  slistAppend : Bool
  setopt : Options → Bool
  easyPerform : Options → Transfer
  strerror : ℕ → Bytes

/-- `CURLE_OK`. -/
def curleOk : ℕ := 0

/-- `CURLE_WRITE_ERROR`: a callback took less than it was offered. -/
def curleWriteError : ℕ := 23

/-- `CURLE_OPERATION_TIMEDOUT`. -/
def curleOperationTimedout : ℕ := 28

namespace Event

/-- The delivery of the event. -/
def delivery : Event → Delivery
  | .header d | .body d => d

/-- The callback that the event calls. -/
def callback : Event → ResponseSink → UInt64 × ResponseSink
  | .header d, sink => headerCallback sink d
  | .body d, sink => writeCallback sink d

end Event

/-- The deliveries of a transfer; the flag says whether a callback has stopped them. -/
def deliver (sink : ResponseSink) : List Event → Bool × ResponseSink
  | [] => (false, sink)
  | e :: es =>
    let (taken, sink) := e.callback sink
    if taken.toNat = e.delivery.size.toNat * e.delivery.count.toNat then deliver sink es
    else (true, sink)

/-! ## Requests -/

/-- `HttpClient::Impl`: the handle is null when libcurl could not be set up. -/
structure Impl where
  config : HttpClientConfig
  curl : Option Curl

/-- `HttpClient`: without an implementation after it was moved from. -/
structure HttpClient where
  impl : Option Impl

/-- `is_absolute_url`. -/
def isAbsoluteUrl (value : Bytes) : Bool :=
  match indexOf? (ascii "://") value with
  | none => false
  | some end_ =>
    if end_ = 0 then false
    else
      match value.head? with
      | none => false
      | some first =>
        if ¬ ((97 ≤ first ∧ first ≤ 122) ∨ (65 ≤ first ∧ first ≤ 90)) then false
        else
          (value.take end_).all fun c => c ∈
            ascii "abcdefghijklmnopqrstuvwxyzABCDEFGHIJKLMNOPQRSTUVWXYZ0123456789+.-"

/-- `invalid_header`. -/
def invalidHeader (value : Bytes) : Bool := value.any fun c => c ∈ [13, 10, 0]

/-- `std::numeric_limits<long>::max()`. -/
def longMax : ℤ := 2 ^ 63 - 1

/-- The URL of a request. -/
def requestUrl (config : HttpClientConfig) (path : Bytes) : Bytes :=
  if isAbsoluteUrl path then path else config.baseUrl ++ path

/-- The options of a request. -/
def requestOptions (config : HttpClientConfig) (path : Bytes) (range : Option Bytes) : Options where
  url := requestUrl config path
  protocols := ascii "http,https"
  redirProtocols := ascii "http,https"
  httpHeader := [ascii "Accept: application/octet-stream"]
  timeout := min config.timeout longMax
  noSignal := true
  userAgent := config.userAgent
  range := range
  acceptEncoding := if range.isSome then ascii "identity" else []
  followLocation := true
  maxRedirs := 10
  sslVerifyPeer := if config.verifySsl then 1 else 0
  sslVerifyHost := if config.verifySsl then 2 else 0

/-- A request that is ready to be sent. -/
structure Prepared where
  curl : Curl
  limit : UInt64
  options : Options

/-- The first half of `HttpClient::perform`: everything before the transfer. -/
def HttpClient.prepare (client : HttpClient) (path : Bytes) (range : Option Bytes) :
    Result Prepared :=
  match client.impl with
  | none => .error (.network (ascii "CURL not initialized"))
  | some impl =>
    match impl.curl with
    | none => .error (.network (ascii "CURL not initialized"))
    | some curl =>
      if 0 ∈ requestUrl impl.config path ∨ invalidHeader impl.config.userAgent = true ∨
          impl.config.timeout < 0 then
        .error (.invalidRequest (ascii "Invalid URL, header, or timeout"))
      else if curl.slistAppend = false then
        .error (.network (ascii "Could not allocate HTTP headers"))
      else if curl.setopt (requestOptions impl.config path range) = false then
        .error (.network (ascii "libcurl rejected a required option"))
      else
        .ok ⟨curl, impl.config.maxResponseBytes, requestOptions impl.config path range⟩

/-- The second half of `HttpClient::perform`: the transfer and what comes of it. -/
def Prepared.receive (p : Prepared) : Result HttpResponse :=
  let transfer := p.curl.easyPerform p.options
  let (stopped, sink) := deliver { limit := p.limit } transfer.events
  let code := if stopped then curleWriteError else transfer.code
  -- the overflow is what stopped the transfer, and is reported in its place
  if sink.overflowed then
    .error (.invalidRequest (ascii "Response exceeded HttpClientConfig::max_response_bytes"))
  else if code = curleOperationTimedout then .error (.timeout (p.curl.strerror code))
  else if code ≠ curleOk then .error (.network (p.curl.strerror code))
  else
    match transfer.status with
    | none => .error (.network (ascii "libcurl did not return HTTP status"))
    | some status => .ok { sink.response with statusCode := Int16.ofInt status }

/-- What a request comes to: the options it was sent with, if it was sent, and the result. -/
structure Exchange where
  sent : Option Options
  result : Result HttpResponse

/-- `HttpClient::perform`. -/
def HttpClient.perform (client : HttpClient) (path : Bytes) (range : Option Bytes) : Exchange :=
  match client.prepare path range with
  | .error e => ⟨none, .error e⟩
  | .ok p => ⟨some p.options, p.receive⟩

/-- `HttpClient::get`. -/
def HttpClient.get (client : HttpClient) (path : Bytes) : Exchange := client.perform path none

/-- The client can send a request: it has a handle, the URL, the user agent and the timeout
are valid, and libcurl takes the header and the options. -/
structure HttpClient.CanSend (client : HttpClient) (path : Bytes) (range : Option Bytes)
    (config : HttpClientConfig) (curl : Curl) : Prop where
  impl_eq : client.impl = some ⟨config, some curl⟩
  url : 0 ∉ requestUrl config path
  user_agent : invalidHeader config.userAgent = false
  timeout : 0 ≤ config.timeout
  slist : curl.slistAppend = true
  setopt : curl.setopt (requestOptions config path range) = true

section Perform

variable {client : HttpClient} {path : Bytes} {range : Option Bytes}

lemma prepare_eq_ok_iff {p : Prepared} :
    client.prepare path range = .ok p ↔
      ∃ config curl, client.CanSend path range config curl ∧
        p = ⟨curl, config.maxResponseBytes, requestOptions config path range⟩ := by
  rw [HttpClient.prepare]
  constructor
  · intro h
    split at h
    · exact absurd h (by simp)
    · rename_i impl himpl
      split at h
      · exact absurd h (by simp)
      · rename_i curl hcurl
        split_ifs at h with hvalid hslist hsetopt
        push Not at hvalid
        refine ⟨impl.config, curl, ⟨?_, hvalid.1, ?_, hvalid.2.2, ?_, ?_⟩, (Except.ok.inj h).symm⟩
        · rw [himpl, ← hcurl]
        · simpa using hvalid.2.1
        · simpa using hslist
        · simpa using hsetopt
  · rintro ⟨config, curl, ⟨himpl, hurl, hagent, htimeout, hslist, hsetopt⟩, rfl⟩
    have hvalid : ¬ (0 ∈ requestUrl config path ∨ invalidHeader config.userAgent = true ∨
        config.timeout < 0) := by
      rw [hagent]
      rintro (h | h | h)
      · exact hurl h
      · exact absurd h (by simp)
      · omega
    simp only [himpl, if_neg hvalid, hslist, hsetopt]
    simp

/-- A request is sent with its own options, if the client can send it, and only then. -/
lemma sent_perform_iff {opts : Options} :
    (client.perform path range).sent = some opts ↔
      ∃ config curl, client.CanSend path range config curl ∧
        opts = requestOptions config path range := by
  rw [HttpClient.perform]
  cases hprepare : client.prepare path range with
  | error e =>
    constructor
    · intro h
      exact absurd h (by simp)
    · rintro ⟨config, curl, hsend, -⟩
      exact absurd (hprepare.symm.trans (prepare_eq_ok_iff.mpr ⟨config, curl, hsend, rfl⟩))
        (by simp)
  | ok p =>
    obtain ⟨config, curl, hsend, rfl⟩ := prepare_eq_ok_iff.mp hprepare
    constructor
    · intro h
      exact ⟨config, curl, hsend, (Option.some.inj h).symm⟩
    · rintro ⟨config', curl', hsend', rfl⟩
      have himpl := Option.some.inj (hsend.impl_eq.symm.trans hsend'.impl_eq)
      rw [(Impl.mk.inj himpl).1]

end Perform

end GribCpp.Http
