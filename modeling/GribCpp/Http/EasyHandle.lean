/-
# The options of the easy handle

`HttpClient::perform` once more, option by option: the easy handle of libcurl keeps a value for
every option until it is reset, and a request that fails half-way leaves behind what it has set so
far, with pointers to a sink and to a list of headers that are gone when it returns.  In
`GribCpp.Http.Client` a request hands all of its options over at once, to a libcurl that remembers
nothing.  The machine of this module refines that one, over whole runs of requests and from
whatever an earlier request has left in the handle.
-/
import GribCpp.Http.Client
import GribCpp.Lib.Machine

namespace GribCpp.Http

open Machine

/-! ## The handle -/

/-- The options that the client sets. -/
inductive CurlOption where
  | url | protocolsStr | redirProtocolsStr
  | writeFunction | writeData | headerFunction | headerData | httpHeader
  | timeout | noSignal | userAgent | range | acceptEncoding
  | followLocation | maxRedirs | sslVerifyPeer | sslVerifyHost
deriving DecidableEq

/-- The functions that the client gives to libcurl. -/
inductive Callback where
  | write
  | header
deriving DecidableEq

/-- The memory of a request that it lends to libcurl: its sink, and its list of headers. -/
inductive Lent where
  | sink (request : ℕ)
  | headers (request : ℕ)
deriving DecidableEq

/-- The value of an option; libcurl copies texts, and keeps pointers. -/
inductive CurlValue where
  | long (n : ℤ)
  | text (s : Bytes)
  | null
  | callback (f : Callback)
  | pointer (p : Lent)
deriving DecidableEq

/-- What a handle keeps; an option that is not set has its default value.  That it is kept until the
next reset is what libcurl documents, and not read off the source. -/
abbrev OptionTable : Type := CurlOption → Option CurlValue

/-- libcurl, as far as the client uses it: what the request with a given number comes to. -/
structure Libcurl where
  slistAppend : ℕ → Bool
  setopt : ℕ → CurlOption → CurlValue → Bool
  easyPerform : ℕ → OptionTable → Transfer
  strerror : ℕ → Bytes

/-- The easy handle, and the number of requests that have been made with it. -/
structure EasyHandle where
  table : OptionTable
  requests : ℕ

namespace OptionTable

/-- The handle behind `curl_easy_reset`, which puts all options back to their default values. -/
def reset : OptionTable := fun _ => none

/-- `curl_easy_setopt`, when it succeeds: it stores the value and leaves the other options. -/
def set (t : OptionTable) (o : CurlOption) (v : CurlValue) : OptionTable :=
  Function.update t o (some v)

/-- The value of an option that is a number. -/
def long? (t : OptionTable) (o : CurlOption) : Option ℤ :=
  match t o with
  | some (.long n) => some n
  | _ => none

/-- The value of an option that is a text. -/
def text? (t : OptionTable) (o : CurlOption) : Option Bytes :=
  match t o with
  | some (.text s) => some s
  | _ => none

/-- The range: none by default. -/
def range? (t : OptionTable) : Option (Option Bytes) :=
  match t .range with
  | none | some .null => some none
  | some (.text s) => some (some s)
  | _ => none

/-- What libcurl finds in the handle, when the lists of headers are these. -/
def options? (t : OptionTable) (lists : Lent → Option (List Bytes)) : Option Options := do
  let url ← t.text? .url
  let protocols ← t.text? .protocolsStr
  let redirProtocols ← t.text? .redirProtocolsStr
  let list ← t .httpHeader
  let httpHeader ← match list with
    | .pointer p => lists p
    | _ => none
  let timeout ← t.long? .timeout
  let noSignal ← t.long? .noSignal
  let userAgent ← t.text? .userAgent
  let range ← t.range?
  let acceptEncoding ← t.text? .acceptEncoding
  let followLocation ← t.long? .followLocation
  let maxRedirs ← t.long? .maxRedirs
  let sslVerifyPeer ← t.long? .sslVerifyPeer
  let sslVerifyHost ← t.long? .sslVerifyHost
  return { url, protocols, redirProtocols, httpHeader, timeout, userAgent, range, acceptEncoding,
           maxRedirs, sslVerifyPeer, sslVerifyHost
           noSignal := noSignal ≠ 0
           followLocation := followLocation ≠ 0 }

/-- The callbacks are set, and get the same sink, which is alive. -/
def callable (t : OptionTable) (alive : Lent → Bool) : Bool :=
  t .writeFunction = some (.callback .write) && t .headerFunction = some (.callback .header) &&
    match t .writeData with
    | some (.pointer p) => t .headerData = some (.pointer p) && alive p
    | _ => false

end OptionTable

/-! ## Requests -/

/-- The chain of `curl_easy_setopt`: it ends with the first option that is rejected. -/
def setAll (accepts : CurlOption → CurlValue → Bool) :
    List (CurlOption × CurlValue) → OptionTable → Bool × OptionTable
  | [], t => (true, t)
  | (o, v) :: rest, t => if accepts o v then setAll accepts rest (t.set o v) else (false, t)

/-- What `HttpClient::perform` sets, in its order. -/
def settings (config : HttpClientConfig) (path : Bytes) (range : Option Bytes) (request : ℕ) :
    List (CurlOption × CurlValue) :=
  let verify : ℤ := if config.verifySsl then 1 else 0
  [(.url, .text (requestUrl config path)),
    (.protocolsStr, .text (ascii "http,https")),
    (.redirProtocolsStr, .text (ascii "http,https")),
    (.writeFunction, .callback .write),
    (.writeData, .pointer (.sink request)),
    (.headerFunction, .callback .header),
    (.headerData, .pointer (.sink request)),
    (.httpHeader, .pointer (.headers request)),
    (.timeout, .long (min config.timeout longMax)),
    (.noSignal, .long 1),
    (.userAgent, .text config.userAgent),
    (.range, range.elim .null .text),
    (.acceptEncoding, .text (if range.isSome then ascii "identity" else [])),
    (.followLocation, .long 1),
    (.maxRedirs, .long 10),
    (.sslVerifyPeer, .long verify),
    (.sslVerifyHost, .long (verify * 2))]

/-- The lists of headers while a request is made: its own one only. -/
def listsOf (request : ℕ) : Lent → Option (List Bytes)
  | .headers n => if n = request then some [ascii "Accept: application/octet-stream"] else none
  | .sink _ => none

/-- The sinks while a request is made: its own one only. -/
def sinkOf (request : ℕ) : Lent → Bool
  | .sink n => n = request
  | .headers _ => false

/-- `HttpClient::perform` with a handle.  There is no answer when libcurl calls a callback that is
not set, or follows a pointer to memory that is gone. -/
def EasyHandle.perform (lib : Libcurl) (config : HttpClientConfig) (s : EasyHandle)
    (path : Bytes) (range : Option Bytes) : Option Exchange × EasyHandle :=
  let n := s.requests
  if 0 ∈ requestUrl config path ∨ invalidHeader config.userAgent = true ∨ config.timeout < 0 then
    (some ⟨none, .error (.invalidRequest (ascii "Invalid URL, header, or timeout"))⟩,
      { s with requests := n + 1 })
  else if lib.slistAppend n = false then
    (some ⟨none, .error (.network (ascii "Could not allocate HTTP headers"))⟩,
      { s with requests := n + 1 })
  else
    match setAll (lib.setopt n) (settings config path range n) .reset with
    | (false, table) =>
      (some ⟨none, .error (.network (ascii "libcurl rejected a required option"))⟩,
        { table := table, requests := n + 1 })
    | (true, table) =>
      let answer :=
        if table.callable (sinkOf n) then
          (table.options? (listsOf n)).map fun opts =>
            ⟨some opts, Prepared.receive
              { curl :=
                  { slistAppend := true
                    setopt := fun _ => true
                    easyPerform := fun _ => lib.easyPerform n table
                    strerror := lib.strerror }
                limit := config.maxResponseBytes
                options := opts }⟩
        else none
      (answer, { table := table, requests := n + 1 })

/-! ## The libcurl that remembers nothing -/

/-- The settings that make some options. -/
def settingsOf (opts : Options) (request : ℕ) : List (CurlOption × CurlValue) :=
  [(.url, .text opts.url),
    (.protocolsStr, .text opts.protocols),
    (.redirProtocolsStr, .text opts.redirProtocols),
    (.writeFunction, .callback .write),
    (.writeData, .pointer (.sink request)),
    (.headerFunction, .callback .header),
    (.headerData, .pointer (.sink request)),
    (.httpHeader, .pointer (.headers request)),
    (.timeout, .long opts.timeout),
    (.noSignal, .long opts.noSignal.toInt),
    (.userAgent, .text opts.userAgent),
    (.range, opts.range.elim .null .text),
    (.acceptEncoding, .text opts.acceptEncoding),
    (.followLocation, .long opts.followLocation.toInt),
    (.maxRedirs, .long opts.maxRedirs),
    (.sslVerifyPeer, .long opts.sslVerifyPeer),
    (.sslVerifyHost, .long opts.sslVerifyHost)]

/-- The handle that is set to some options, and to nothing else. -/
def tableOf (opts : Options) (request : ℕ) : OptionTable :=
  (settingsOf opts request).foldl (fun t p => t.set p.1 p.2) .reset

/-- The request with the given number, of options that are handed over at once. -/
def Libcurl.curl (lib : Libcurl) (request : ℕ) : Curl where
  slistAppend := lib.slistAppend request
  setopt opts := (settingsOf opts request).all fun p => lib.setopt request p.1 p.2
  easyPerform opts := lib.easyPerform request (tableOf opts request)
  strerror := lib.strerror

/-- The client of that request. -/
def Libcurl.client (lib : Libcurl) (config : HttpClientConfig) (request : ℕ) : HttpClient where
  impl := some ⟨config, some (lib.curl request)⟩

section Refinement

variable {config : HttpClientConfig} {path : Bytes} {range : Option Bytes} {request : ℕ}

lemma settings_eq : settings config path range request
    = settingsOf (requestOptions config path range) request := by
  rw [settings, settingsOf, requestOptions]
  cases config.verifySsl <;> rfl

/-- The chain sets everything or ends with a rejection. -/
lemma setAll_eq (accepts : CurlOption → CurlValue → Bool) (l : List (CurlOption × CurlValue))
    (t : OptionTable) :
    (l.all (fun p => accepts p.1 p.2) = true →
      setAll accepts l t = (true, l.foldl (fun t p => t.set p.1 p.2) t)) ∧
    (l.all (fun p => accepts p.1 p.2) = false → (setAll accepts l t).1 = false) := by
  induction l generalizing t with
  | nil => simp [setAll]
  | cons p l ih =>
    rw [setAll, List.all_cons, List.foldl_cons]
    cases hp : accepts p.1 p.2 with
    | true => simpa using ih (t.set p.1 p.2)
    | false => simp

/-- The pointers of a request are its own. -/
lemma callable_tableOf (opts : Options) (request : ℕ) :
    (tableOf opts request).callable (sinkOf request) = true := by
  simp [tableOf, settingsOf, OptionTable.callable, OptionTable.set, sinkOf]

/-- What a request sets is what libcurl finds. -/
lemma options?_tableOf : (tableOf (requestOptions config path range) request).options?
    (listsOf request) = some (requestOptions config path range) := by
  cases range <;>
    simp [tableOf, settingsOf, requestOptions, OptionTable.options?, OptionTable.set,
      OptionTable.text?, OptionTable.long?, OptionTable.range?, listsOf]

/-- **A request through the handle**: whatever is in it, the request comes to what it comes to with
a libcurl that gets its options at once. -/
lemma perform_eq (lib : Libcurl) (config : HttpClientConfig) (s : EasyHandle) (path : Bytes)
    (range : Option Bytes) :
    (s.perform lib config path range).1
        = some ((lib.client config s.requests).perform path range) ∧
      (s.perform lib config path range).2.requests = s.requests + 1 := by
  rw [EasyHandle.perform, HttpClient.perform, HttpClient.prepare, Libcurl.client]
  simp only
  by_cases hvalid : 0 ∈ requestUrl config path ∨ invalidHeader config.userAgent = true ∨
      config.timeout < 0
  · rw [if_pos hvalid, if_pos hvalid]
    exact ⟨rfl, rfl⟩
  · rw [if_neg hvalid, if_neg hvalid]
    by_cases hslist : lib.slistAppend s.requests = false
    · have hslist' : (lib.curl s.requests).slistAppend = false := hslist
      rw [if_pos hslist, if_pos hslist']
      exact ⟨rfl, rfl⟩
    · have hslist' : ¬ (lib.curl s.requests).slistAppend = false := hslist
      rw [if_neg hslist, if_neg hslist', settings_eq]
      obtain ⟨hall, hsome⟩ := setAll_eq (lib.setopt s.requests)
        (settingsOf (requestOptions config path range) s.requests) .reset
      cases hset : (lib.curl s.requests).setopt (requestOptions config path range) with
      | false =>
        -- the chain has ended with a rejection, and has left a part of the options
        have hfirst := hsome hset
        rcases hchain : setAll (lib.setopt s.requests)
          (settingsOf (requestOptions config path range) s.requests) .reset with ⟨configured, table⟩
        rw [hchain] at hfirst
        obtain rfl : configured = false := hfirst
        exact ⟨rfl, rfl⟩
      | true =>
        have hchain := hall hset
        have htable : (settingsOf (requestOptions config path range) s.requests).foldl
            (fun t p => t.set p.1 p.2) .reset
              = tableOf (requestOptions config path range) s.requests := rfl
        rw [hchain, htable]
        simp only [callable_tableOf, if_true, options?_tableOf, Option.map_some,
          Bool.true_eq_false, if_false]
        exact ⟨rfl, trivial⟩

end Refinement

/-- **The client forgets what a handle remembers.**  In every run of requests through one easy
handle, whatever options an earlier use has left in it: libcurl never calls a callback that is not
set and never gets a pointer to memory that is gone; and each request comes to what it comes to
with a libcurl that gets the options of this request at once and has seen no other, also behind
requests that have failed or been rejected half-way. -/
theorem easyHandle_refines (lib : Libcurl) (config : HttpClientConfig) (s : EasyHandle)
    (requests : List (Bytes × Option Bytes)) :
    answers (fun s r => s.perform lib config r.1 r.2) s requests
      = requests.mapIdx fun i r =>
          some ((lib.client config (s.requests + i)).perform r.1 r.2) := by
  set forgetful : ℕ → Bytes × Option Bytes → Option Exchange × ℕ := fun n r =>
    (some ((lib.client config n).perform r.1 r.2), n + 1) with hforgetful
  have hstep : ∀ (s : EasyHandle) (n : ℕ) (r : Bytes × Option Bytes), s.requests = n → True →
      (s.perform lib config r.1 r.2).1 = (forgetful n r).1 ∧
        (s.perform lib config r.1 r.2).2.requests = (forgetful n r).2 := by
    rintro s _ r rfl -
    exact perform_eq lib config s r.1 r.2
  obtain ⟨hanswers, -⟩ := simulates hstep rfl (admissible_true s.requests requests)
  rw [hanswers, hforgetful, answers_counter]

end GribCpp.Http
