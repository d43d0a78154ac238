/-
# The life of HTTP clients

The model of `CurlRuntime`, of `runtime` and of the special members of `HttpClient` and
`HttpClient::Impl` in `src/http/client.cpp`.  Any number of clients are constructed, moved,
assigned, used and destroyed, in any order, and the process may end before the last one is gone.
The first client initializes libcurl; every client shares that runtime with the static variable
that holds it, and opens an easy handle of its own.  libcurl may fail to be initialized, and may
fail to give a handle.
-/
import GribCpp.Http.Client
import GribCpp.Lib.Custody
import GribCpp.Lib.Transition

namespace GribCpp.Http

open Resources Transition

/-! ## Clients -/

/-- `HttpClient::Impl`: whether the status of its runtime is `CURLE_OK`, and its easy handle. -/
structure EasyImpl (C : Type*) where
  global : Bool
  config : HttpClientConfig
  curl : Option C

/-- `HttpClient`: without an implementation after it was moved from. -/
structure EasyClient (C : Type*) where
  impl : Option (EasyImpl C)

/-- The static variable of `runtime`. -/
inductive StaticRuntime where
  | unset
  | holding (ok : Bool)
  | destroyed
deriving DecidableEq

/-- A call of libcurl that concerns the life of the library or of a handle; an initialization
succeeds or fails, and a handle may be null.  What a request does in between is not listed: it makes
and frees a list of headers of its own, sets its options behind the reset, and reads the status
behind the transfer, all with the same handle. -/
inductive CurlCall (C : Type*) where
  | globalInit (ok : Bool)
  | globalCleanup
  | easyInit (created : Option C)
  | easyReset (c : C)
  | easyPerform (c : C)
  | easyCleanup (c : C)
deriving DecidableEq

namespace EasyClient

variable {C : Type*}

/-- The client as its requests see it. -/
def view (lib : C → Curl) (client : EasyClient C) : HttpClient where
  impl := client.impl.map fun i => ⟨i.config, i.curl.map lib⟩

/-- The easy handle of a client. -/
def handle (client : EasyClient C) : Option C := client.impl.bind (·.curl)

/-- The move constructor: the new client, and what is left of the old one. -/
def move (o : EasyClient C) : EasyClient C × EasyClient C := (⟨o.impl⟩, ⟨none⟩)

/-- The calls of a request on the handle of its client. -/
def request (lib : C → Curl) (client : EasyClient C) (path : Bytes) (range : Option Bytes) :
    List (CurlCall C) :=
  match client.impl with
  | none => []
  | some impl =>
    match impl.curl with
    | none => []
    | some c =>
      if 0 ∈ requestUrl impl.config path ∨ invalidHeader impl.config.userAgent = true ∨
          impl.config.timeout < 0 then []
      else if (lib c).slistAppend = false then []
      else if (lib c).setopt (requestOptions impl.config path range) = false then [.easyReset c]
      else [.easyReset c, .easyPerform c]

variable {lib : C → Curl} {client : EasyClient C} {path : Bytes} {range : Option Bytes}

/-- A client without a handle makes no call, and refuses every request. -/
lemma request_of_no_handle (h : client.handle = none) (path : Bytes) (range : Option Bytes) :
    client.request lib path range = [] ∧
      (client.view lib).perform path range
        = ⟨none, .error (.network (ascii "CURL not initialized"))⟩ := by
  cases himpl : client.impl with
  | none => simp [request, himpl, HttpClient.perform, HttpClient.prepare, view]
  | some impl =>
    have hcurl : impl.curl = none := by simpa [handle, himpl] using h
    simp [request, himpl, hcurl, HttpClient.perform, HttpClient.prepare, view]

/-- A client calls libcurl with its own handle. -/
lemma mem_request {call : CurlCall C} (h : call ∈ client.request lib path range) :
    ∃ c, client.handle = some c ∧ (call = .easyReset c ∨ call = .easyPerform c) := by
  rw [request] at h
  split at h
  · exact absurd h List.not_mem_nil
  · rename_i impl himpl
    split at h
    · exact absurd h List.not_mem_nil
    · rename_i c hc
      refine ⟨c, by rw [handle, himpl, Option.bind_some, hc], ?_⟩
      split_ifs at h
      · exact absurd h List.not_mem_nil
      · exact absurd h List.not_mem_nil
      · exact Or.inl (List.mem_singleton.mp h)
      · simpa using h

/-- A transfer is made when the request is sent, and only then. -/
lemma sent_iff_mem_request :
    ((client.view lib).perform path range).sent.isSome ↔
      ∃ c, .easyPerform c ∈ client.request lib path range := by
  rw [HttpClient.perform, HttpClient.prepare, request, view]
  cases himpl : client.impl with
  | none => simp
  | some impl =>
    cases hcurl : impl.curl with
    | none => simp [hcurl]
    | some c =>
      simp only [Option.map_some, hcurl]
      split_ifs <;> simp

end EasyClient

/-! ## The system of clients -/

/-- The static variable, the clients that are alive, and the calls of libcurl so far. -/
structure ClientSystem (κ C : Type*) where
  static : StaticRuntime
  objects : κ → Option (EasyClient C)
  calls : List (CurlCall C)

/-- The resources of libcurl: the initialized library, and the easy handles. -/
inductive CurlResource (C : Type*) where
  | runtime
  | handle (c : C)
deriving DecidableEq

/-- What happens to clients. -/
inductive ClientEvent (κ : Type*) where
  | construct (k : κ) (config : HttpClientConfig)
  | moveConstruct (k o : κ)
  | moveAssign (k o : κ)
  | request (k : κ) (path : Bytes) (range : Option Bytes)
  | destroy (k : κ)
  | exit

section Holds

variable {κ C : Type*}

/-- What the static variable keeps alive. -/
def StaticRuntime.keeps (s : StaticRuntime) : Set (CurlResource C) :=
  {r | s = .holding true ∧ r = .runtime}

/-- What an implementation keeps alive. -/
def EasyImpl.keeps (i : EasyImpl C) : Set (CurlResource C) :=
  {r | (i.global = true ∧ r = .runtime) ∨ ∃ c, i.curl = some c ∧ r = .handle c}

/-- What an object keeps alive. -/
def keepsOf (object : Option (EasyClient C)) : Set (CurlResource C) :=
  {r | ∃ client i, object = some client ∧ client.impl = some i ∧ r ∈ i.keeps}

lemma keepsOf_none : keepsOf (none : Option (EasyClient C)) = ∅ := by
  ext r
  simp [keepsOf]

lemma keepsOf_moved : keepsOf (some (⟨none⟩ : EasyClient C)) = ∅ := by
  ext r
  simp [keepsOf]

lemma keepsOf_impl (i : EasyImpl C) : keepsOf (some ⟨some i⟩) = i.keeps := by
  ext r
  simp [keepsOf]

namespace ClientSystem

/-- What the static variable and the objects keep alive. -/
def holds (s : ClientSystem κ C) : Option κ → Set (CurlResource C)
  | none => s.static.keeps
  | some k => keepsOf (s.objects k)

/-- No client has been constructed. -/
def init : ClientSystem κ C where
  static := .unset
  objects := fun _ => none
  calls := []

/-- The system makes calls. -/
def call (s : ClientSystem κ C) (calls : List (CurlCall C)) : ClientSystem κ C :=
  { s with calls := s.calls ++ calls }

/-- The runtime has another owner. -/
def HeldElsewhere (s : ClientSystem κ C) (slot : Option κ) : Prop :=
  ∃ other, other ≠ slot ∧ .runtime ∈ s.holds other

variable [DecidableEq κ]

/-- An object gets a content. -/
def set (s : ClientSystem κ C) (k : κ) (object : Option (EasyClient C)) : ClientSystem κ C :=
  { s with objects := Function.update s.objects k object }

end ClientSystem

/-- A call of `runtime`: the first one initializes libcurl. -/
inductive Runtime : ClientSystem κ C → Bool → ClientSystem κ C → Prop
  | first {s : ClientSystem κ C} (ok : Bool) (hstatic : s.static = .unset) :
      Runtime s ok { s with static := .holding ok, calls := s.calls ++ [.globalInit ok] }
  | again {s : ClientSystem κ C} {ok : Bool} (hstatic : s.static = .holding ok) : Runtime s ok s

/-- A `std::shared_ptr` to the runtime goes away: the last one takes it along, and libcurl is
cleaned up if its initialization has succeeded. -/
inductive Drops (s : ClientSystem κ C) (slot : Option κ) : Bool → List (CurlCall C) → Prop
  | failed : Drops s slot false []
  | shared (h : s.HeldElsewhere slot) : Drops s slot true []
  | last (h : ¬ s.HeldElsewhere slot) : Drops s slot true [.globalCleanup]

/-- `HttpClient::~HttpClient`: `Impl::~Impl` closes the handle, and then the share of the runtime
goes away. -/
inductive Releases (s : ClientSystem κ C) (k : κ) :
    Option (EasyImpl C) → List (CurlCall C) → Prop
  | null : Releases s k none []
  | impl {i : EasyImpl C} {calls : List (CurlCall C)} (h : Drops s (some k) i.global calls) :
      Releases s k (some i) (i.curl.toList.map .easyCleanup ++ calls)

variable [DecidableEq κ]

/-- The steps of the system.  A client that is constructed gets a fresh handle, or none; without
the runtime it does not ask for one. -/
inductive ClientStep (lib : C → Curl) :
    ClientSystem κ C → ClientEvent κ → ClientSystem κ C → Prop
  | construct {s s₁ : ClientSystem κ C} {k : κ} {config : HttpClientConfig} {created : Option C}
      (hdead : s.objects k = none) (hruntime : Runtime s true s₁)
      (hfresh : ∀ c, created = some c → .easyInit (some c) ∉ s.calls) :
      ClientStep lib s (.construct k config)
        ((s₁.set k (some ⟨some ⟨true, config, created⟩⟩)).call [.easyInit created])
  | constructNull {s s₁ : ClientSystem κ C} {k : κ} {config : HttpClientConfig}
      (hdead : s.objects k = none) (hruntime : Runtime s false s₁) :
      ClientStep lib s (.construct k config) (s₁.set k (some ⟨some ⟨false, config, none⟩⟩))
  | moveConstruct {s : ClientSystem κ C} {k o : κ} {client : EasyClient C}
      (hdead : s.objects k = none) (ho : s.objects o = some client) :
      ClientStep lib s (.moveConstruct k o)
        ((s.set k (some client.move.1)).set o (some client.move.2))
  | moveAssign {s : ClientSystem κ C} {k o : κ} {self client : EasyClient C}
      {calls : List (CurlCall C)} (hne : k ≠ o) (hk : s.objects k = some self)
      (ho : s.objects o = some client) (hcalls : Releases s k self.impl calls) :
      ClientStep lib s (.moveAssign k o)
        (((s.set k (some client.move.1)).set o (some client.move.2)).call calls)
  | selfAssign {s : ClientSystem κ C} {k : κ} {self : EasyClient C}
      (hk : s.objects k = some self) : ClientStep lib s (.moveAssign k k) s
  | request {s : ClientSystem κ C} {k : κ} {client : EasyClient C} {path : Bytes}
      {range : Option Bytes} (hk : s.objects k = some client) :
      ClientStep lib s (.request k path range) (s.call (client.request lib path range))
  | destroy {s : ClientSystem κ C} {k : κ} {client : EasyClient C} {calls : List (CurlCall C)}
      (hk : s.objects k = some client) (hcalls : Releases s k client.impl calls) :
      ClientStep lib s (.destroy k) ((s.set k none).call calls)
  | exit {s : ClientSystem κ C} {ok : Bool} {calls : List (CurlCall C)}
      (hstatic : s.static = .holding ok) (hcalls : Drops s none ok calls) :
      ClientStep lib s .exit ({ s with static := .destroyed }.call calls)

end Holds

/-! ## The calls as effects on resources -/

section Effects

variable {C : Type*} {calls pre post : List (CurlCall C)} {call : CurlCall C} {c : C}

/-- What a call does to the resources. -/
def CurlCall.effect : CurlCall C → Effect (CurlResource C)
  | .globalInit true => .issue .runtime none
  | .globalInit false => .use []
  | .globalCleanup => .release .runtime
  | .easyInit none => .use [.runtime]
  | .easyInit (some c) => .issue (.handle c) (some .runtime)
  | .easyReset c | .easyPerform c => .use [.handle c]
  | .easyCleanup c => .release (.handle c)

/-- The effects of some calls. -/
abbrev curlEffects (calls : List (CurlCall C)) : List (Effect (CurlResource C)) :=
  calls.map CurlCall.effect

lemma effect_issue_runtime {owner : Option (CurlResource C)} :
    call.effect = .issue .runtime owner ↔ call = .globalInit true ∧ owner = none := by
  cases call with
  | globalInit ok => cases ok <;> simp [CurlCall.effect, eq_comm]
  | easyInit created => cases created <;> simp [CurlCall.effect]
  | globalCleanup | easyReset | easyPerform | easyCleanup => simp [CurlCall.effect]

lemma effect_issue_handle {owner : Option (CurlResource C)} :
    call.effect = .issue (.handle c) owner ↔
      call = .easyInit (some c) ∧ owner = some .runtime := by
  cases call with
  | globalInit ok => cases ok <;> simp [CurlCall.effect]
  | easyInit created => cases created <;> simp [CurlCall.effect, eq_comm]
  | globalCleanup | easyReset | easyPerform | easyCleanup => simp [CurlCall.effect]

lemma effect_release_runtime : call.effect = .release .runtime ↔ call = .globalCleanup := by
  cases call with
  | globalInit ok => cases ok <;> simp [CurlCall.effect]
  | easyInit created => cases created <;> simp [CurlCall.effect]
  | globalCleanup | easyReset | easyPerform | easyCleanup => simp [CurlCall.effect]

lemma effect_release_handle : call.effect = .release (.handle c) ↔ call = .easyCleanup c := by
  cases call with
  | globalInit ok => cases ok <;> simp [CurlCall.effect]
  | easyInit created => cases created <;> simp [CurlCall.effect]
  | globalCleanup | easyReset | easyPerform | easyCleanup => simp [CurlCall.effect]

lemma issued_runtime_iff : Issued (curlEffects calls) .runtime ↔ .globalInit true ∈ calls := by
  simp [Issued, effect_issue_runtime]

lemma issued_easy_iff : Issued (curlEffects calls) (.handle c) ↔ .easyInit (some c) ∈ calls := by
  simp [Issued, effect_issue_handle]

lemma issue_easy_iff :
    .issue (.handle c) (some .runtime) ∈ curlEffects calls ↔ .easyInit (some c) ∈ calls := by
  simp [effect_issue_handle]

/-- Nothing is issued on behalf of a handle, and the runtime on behalf of nothing. -/
lemma owner_eq_runtime {r q : CurlResource C} (h : .issue r (some q) ∈ curlEffects calls) :
    q = .runtime ∧ r ≠ .runtime := by
  obtain ⟨call, -, hcall⟩ := List.mem_map.mp h
  cases r with
  | runtime => exact absurd (effect_issue_runtime.mp hcall).2 (by simp)
  | handle c => exact ⟨Option.some.inj (effect_issue_handle.mp hcall).2, by simp⟩

lemma live_runtime_iff :
    Live (curlEffects calls) .runtime ↔ .globalInit true ∈ calls ∧ .globalCleanup ∉ calls := by
  rw [Live, issued_runtime_iff]
  simp [effect_release_runtime]

lemma live_easy_iff :
    Live (curlEffects calls) (.handle c) ↔
      .easyInit (some c) ∈ calls ∧ .easyCleanup c ∉ calls := by
  rw [Live, issued_easy_iff]
  simp [effect_release_handle]

end Effects

/-! ## The invariant -/

section Invariant

variable {κ C : Type*}

/-- A handle belongs to one client, the runtime to all of them. -/
abbrev exclusive : Set (CurlResource C) := {r | r ≠ .runtime}

/-- What is live is what the static variable and the clients keep; libcurl is initialized once,
before everything else, for the first client. -/
structure ClientSystem.Inv (s : ClientSystem κ C) : Prop where
  kept : Custody exclusive s.holds (curlEffects s.calls)
  unset : s.static = .unset → s.calls = [] ∧ ∀ k, s.objects k = none
  once : ∀ ok, .globalInit ok ∉ s.calls.tail

lemma keeps_unset : (StaticRuntime.unset.keeps : Set (CurlResource C)) = ∅ := by
  ext r
  simp [StaticRuntime.keeps]

lemma keeps_destroyed : (StaticRuntime.destroyed.keeps : Set (CurlResource C)) = ∅ := by
  ext r
  simp [StaticRuntime.keeps]

lemma inv_init : (ClientSystem.init : ClientSystem κ C).Inv := by
  have hholds : (ClientSystem.init : ClientSystem κ C).holds = fun _ => ∅ := by
    ext1 slot
    cases slot with
    | none => exact keeps_unset
    | some k => exact keepsOf_none
  refine ⟨?_, fun _ => ⟨rfl, fun _ => rfl⟩, fun _ => List.not_mem_nil⟩
  rw [hholds]
  exact .nil

variable {s s₁ u : ClientSystem κ C} {k : κ} {ok : Bool} {calls : List (CurlCall C)}

/-- Calls that do not initialize libcurl. -/
lemma once_append (h : ∀ ok, .globalInit ok ∉ s.calls.tail)
    (hcalls : ∀ ok, .globalInit ok ∉ calls) (ok : Bool) :
    .globalInit ok ∉ (s.calls ++ calls).tail := by
  intro hmem
  cases hs : s.calls with
  | nil =>
    rw [hs, List.nil_append] at hmem
    exact hcalls ok (List.mem_of_mem_tail hmem)
  | cons call rest =>
    rw [hs, List.cons_append, List.tail_cons, List.mem_append] at hmem
    have hrest := h ok
    rw [hs, List.tail_cons] at hrest
    exact hmem.elim hrest (hcalls ok)

lemma Drops.no_init {slot : Option κ} (h : Drops s slot ok calls) (b : Bool) :
    .globalInit b ∉ calls := by
  cases h <;> simp

lemma Releases.no_init {impl : Option (EasyImpl C)} (h : Releases s k impl calls) (b : Bool) :
    .globalInit b ∉ calls := by
  cases h with
  | null => exact List.not_mem_nil
  | impl hdrops => simp [hdrops.no_init b]

variable [DecidableEq κ]

lemma holds_set (object : Option (EasyClient C)) :
    (s.set k object).holds = Function.update s.holds (some k) (keepsOf object) := by
  ext1 slot
  rcases slot with _ | j
  · rfl
  · by_cases hj : j = k
    · subst hj
      simp [ClientSystem.holds, ClientSystem.set]
    · simp [ClientSystem.holds, ClientSystem.set, hj]

lemma holds_static (static : StaticRuntime) (calls : List (CurlCall C)) :
    ({ s with static := static, calls := calls } : ClientSystem κ C).holds
      = Function.update s.holds none static.keeps := by
  ext1 slot
  cases slot with
  | none => simp [ClientSystem.holds]
  | some j => simp [ClientSystem.holds]

/-- `runtime` leaves libcurl initialized, if it can be. -/
lemma Runtime.inv (h : Runtime s ok s₁) (hs : s.Inv) :
    s₁.Inv ∧ s₁.static = .holding ok ∧ s₁.objects = s.objects ∧
      ∀ created, .easyInit created ∈ s₁.calls → .easyInit created ∈ s.calls := by
  cases h with
  | again hstatic => exact ⟨hs, hstatic, rfl, fun _ h => h⟩
  | first hstatic =>
    obtain ⟨hcalls, -⟩ := hs.unset hstatic
    have hnone : s.holds none = ∅ := by rw [ClientSystem.holds, hstatic, keeps_unset]
    refine ⟨⟨?_, by simp, by simp [hcalls]⟩, rfl, rfl, by simp⟩
    rw [holds_static, curlEffects, List.map_append, List.map_singleton]
    cases ok with
    | false =>
      have hkeeps : (StaticRuntime.holding false).keeps = s.holds none := by
        rw [hnone]
        ext r
        simp [StaticRuntime.keeps]
      rw [hkeeps, Function.update_eq_self]
      exact hs.kept.use (by simp)
    | true =>
      have hkeeps : (StaticRuntime.holding true).keeps
          = insert CurlResource.runtime (s.holds none) := by
        rw [hnone]
        ext r
        simp [StaticRuntime.keeps]
      rw [hkeeps]
      refine hs.kept.issue ?_ (by simp)
      rw [issued_runtime_iff, hcalls]
      exact List.not_mem_nil

/-- A share of the runtime goes away. -/
lemma Drops.custody {slot : Option κ} {holds' : Option κ → Set (CurlResource C)}
    {before : List (CurlCall C)} (h : Drops s slot ok calls)
    (hkept : Custody exclusive holds' (curlEffects before))
    (hslot : ∀ r, r ∈ holds' slot ↔ ok = true ∧ r = .runtime)
    (hother : ∀ other, other ≠ slot → holds' other = s.holds other) :
    Custody exclusive (Function.update holds' slot ∅) (curlEffects (before ++ calls)) := by
  -- nothing else is kept by the slot
  have hfree : ∀ r ∈ holds' slot, .issue r (some .runtime) ∉ curlEffects before := by
    intro r hr hissue
    exact (owner_eq_runtime hissue).2 ((hslot r).mp hr).2
  have hempty : holds' slot \ {.runtime} = ∅ := by
    ext r
    simp [hslot]
  have hwho : ∀ other, other ≠ slot → (.runtime ∈ holds' other ↔ .runtime ∈ s.holds other) :=
    fun other hne => by rw [hother other hne]
  rw [← hempty]
  cases h with
  | failed =>
    have hsame : holds' slot \ {.runtime} = holds' slot := by
      rw [hempty]
      ext r
      simp [hslot]
    rw [hsame, Function.update_eq_self, List.append_nil]
    exact hkept
  | shared h =>
    obtain ⟨other, hne, hmem⟩ := h
    rw [List.append_nil]
    exact hkept.drop ⟨other, hne, (hwho other hne).mpr hmem⟩ hfree
  | last h =>
    rw [curlEffects, List.map_append, List.map_singleton]
    refine hkept.release ((hslot _).mpr ⟨rfl, rfl⟩) (fun other hmem => ?_) hfree
    by_contra hne
    exact h ⟨other, hne, (hwho other hne).mp hmem⟩

/-- A client that goes away closes its handle, and then gives up its share of the runtime. -/
lemma Releases.custody {client : EasyClient C} (h : Releases s k client.impl calls)
    (hk : s.objects k = some client) (hkept : Custody exclusive s.holds (curlEffects s.calls)) :
    Custody exclusive (Function.update s.holds (some k) ∅) (curlEffects (s.calls ++ calls)) := by
  have hholds : s.holds (some k) = keepsOf (some client) := by rw [ClientSystem.holds, hk]
  generalize himpl : client.impl = impl at h
  cases h with
  | null =>
    have hempty : s.holds (some k) = ∅ := by
      rw [hholds]
      ext r
      simp [keepsOf, himpl]
    rw [← hempty, Function.update_eq_self, List.append_nil]
    exact hkept
  | @impl i calls hdrops =>
    have hkeeps : ∀ r, r ∈ s.holds (some k) ↔
        (i.global = true ∧ r = .runtime) ∨ ∃ c, i.curl = some c ∧ r = .handle c := by
      intro r
      rw [hholds]
      simp [keepsOf, himpl, EasyImpl.keeps]
    rw [← List.append_assoc]
    cases hcurl : i.curl with
    | none =>
      rw [Option.toList_none, List.map_nil, List.append_nil]
      exact hdrops.custody hkept (fun r => by simp [hkeeps, hcurl]) fun _ _ => rfl
    | some c =>
      have hmem : .handle c ∈ s.holds (some k) := (hkeeps _).mpr (Or.inr ⟨c, hcurl, rfl⟩)
      have hclosed : Custody exclusive
          (Function.update s.holds (some k) (s.holds (some k) \ {.handle c}))
          (curlEffects (s.calls ++ [.easyCleanup c])) := by
        rw [curlEffects, List.map_append, List.map_singleton]
        refine hkept.release hmem (fun other hother => ?_) fun r _ hissue => ?_
        · exact hkept.once (.handle c) (by simp [exclusive]) _ _ hother hmem
        · exact absurd (owner_eq_runtime hissue).1 (by simp)
      have hdropped := hdrops.custody hclosed (fun r => ?_) fun other hne => ?_
      · rwa [Function.update_idem] at hdropped
      · rw [Function.update_self, Set.mem_sdiff, hkeeps, hcurl, Set.mem_singleton_iff]
        constructor
        · rintro ⟨h | ⟨c', hc, rfl⟩, hne⟩
          · exact h
          · exact absurd (by rw [Option.some.inj hc]) hne
        · rintro ⟨hglobal, rfl⟩
          exact ⟨Or.inl ⟨hglobal, rfl⟩, by simp⟩
      · rw [Function.update_of_ne hne]

/-- The implementation of a client goes to one that has none. -/
lemma custody_move {holds' : Option κ → Set (CurlResource C)} {t : List (Effect (CurlResource C))}
    {o : κ} {client : EasyClient C} (hkept : Custody exclusive holds' t) (hk : holds' (some k) = ∅)
    (ho : holds' (some o) = keepsOf (some client)) :
    Custody exclusive (Function.update (Function.update holds' (some k) (keepsOf
      (some client.move.1))) (some o) (keepsOf (some client.move.2))) t := by
  have hmove := hkept.transfer (o := some o) hk
  rw [ho] at hmove
  rwa [EasyClient.move, keepsOf_moved]

omit [DecidableEq κ] in
/-- A client may use the handle that it keeps. -/
lemma custody_uses {handle : Option C} (hkept : Custody exclusive s.holds (curlEffects s.calls))
    (hkeeps : ∀ c, handle = some c → .handle c ∈ s.holds (some k))
    (hcalls : ∀ call ∈ calls, ∃ c, handle = some c ∧
      (call = .easyReset c ∨ call = .easyPerform c)) :
    Custody exclusive s.holds (curlEffects (s.calls ++ calls)) := by
  induction calls using List.reverseRecOn with
  | nil =>
    rw [List.append_nil]
    exact hkept
  | append_singleton calls call ih =>
    obtain ⟨c, hc, hcall⟩ := hcalls call (by simp)
    have heffect : call.effect = .use [.handle c] := by rcases hcall with rfl | rfl <;> rfl
    rw [← List.append_assoc, curlEffects, List.map_append, List.map_singleton, heffect]
    refine (ih fun call' hcall' => hcalls call' (by simp [hcall'])).use fun r hr => ?_
    rw [List.mem_singleton.mp hr]
    exact ⟨some k, hkeeps c hc⟩

/-- **Every step keeps the invariant.** -/
theorem ClientStep.inv {lib : C → Curl} {e : ClientEvent κ} (h : ClientStep lib s e u)
    (hs : s.Inv) : u.Inv := by
  have hheld : ∀ {k' : κ} {client : EasyClient C}, s.objects k' = some client →
      s.static ≠ .unset := by
    intro k' client hk' hstatic
    rw [(hs.unset hstatic).2 k'] at hk'
    exact absurd hk' (by simp)
  cases h with
  | @construct s₁ k config created hdead hruntime hfresh =>
    obtain ⟨hs₁, hstatic, hobjects, hinits⟩ := hruntime.inv hs
    have hnone : s₁.holds (some k) = ∅ := by
      rw [ClientSystem.holds, hobjects, hdead, keepsOf_none]
    have hmem : .runtime ∈ s₁.holds none := by
      rw [ClientSystem.holds, hstatic]
      exact ⟨rfl, rfl⟩
    -- the client shares the runtime, and then it opens its handle
    have hshared := hs₁.kept.share (k := some k) hmem (by simp [exclusive])
      fun q hissue => absurd rfl (owner_eq_runtime hissue).2
    rw [hnone] at hshared
    refine ⟨?_, fun hunset => absurd (hunset.symm.trans hstatic) (by simp),
      once_append hs₁.once (by simp)⟩
    change Custody exclusive (s₁.set k _).holds (curlEffects (s₁.calls ++ [.easyInit created]))
    rw [holds_set, keepsOf_impl, curlEffects, List.map_append, List.map_singleton]
    cases created with
    | none =>
      have hkeeps : (⟨true, config, none⟩ : EasyImpl C).keeps
          = insert CurlResource.runtime ∅ := by
        ext r
        simp [EasyImpl.keeps]
      rw [hkeeps]
      refine hshared.use fun r hr => ⟨some k, ?_⟩
      rw [List.mem_singleton.mp hr, Function.update_self]
      simp
    | some c =>
      have hkeeps : (⟨true, config, some c⟩ : EasyImpl C).keeps
          = insert (CurlResource.handle c) (insert CurlResource.runtime ∅) := by
        ext r
        simp [EasyImpl.keeps, or_comm]
      have howner : ∀ q, some (CurlResource.runtime : CurlResource C) = some q →
          q ∈ Function.update s₁.holds (some k) (insert CurlResource.runtime ∅) (some k) := by
        simp
      have hissued := hshared.issue (r := .handle c)
        (fun hissue => hfresh c rfl (hinits _ (issued_easy_iff.mp hissue))) howner
      rw [Function.update_idem, Function.update_self, ← hkeeps] at hissued
      exact hissued
  | @constructNull s₁ k config hdead hruntime =>
    obtain ⟨hs₁, hstatic, hobjects, -⟩ := hruntime.inv hs
    have hsame : (s₁.set k (some ⟨some ⟨false, config, none⟩⟩)).holds = s₁.holds := by
      have hkeeps : keepsOf (some (⟨some ⟨false, config, none⟩⟩ : EasyClient C))
          = s₁.holds (some k) := by
        rw [ClientSystem.holds, hobjects, hdead, keepsOf_none, keepsOf_impl]
        ext r
        simp [EasyImpl.keeps]
      rw [holds_set, hkeeps, Function.update_eq_self]
    refine ⟨?_, fun hunset => absurd (hunset.symm.trans hstatic) (by simp), hs₁.once⟩
    rw [hsame]
    exact hs₁.kept
  | @moveConstruct k o client hdead ho =>
    refine ⟨?_, fun hunset => absurd hunset (hheld ho), hs.once⟩
    rw [holds_set, holds_set]
    refine custody_move hs.kept ?_ (by rw [ClientSystem.holds, ho])
    rw [ClientSystem.holds, hdead, keepsOf_none]
  | @moveAssign k o self client calls hne hk ho hcalls =>
    refine ⟨?_, fun hunset => absurd hunset (hheld ho), once_append hs.once hcalls.no_init⟩
    change Custody exclusive ((s.set k _).set o _).holds (curlEffects (s.calls ++ calls))
    rw [holds_set, holds_set]
    have hreleased := hcalls.custody hk hs.kept
    have hne' : (some o : Option κ) ≠ some k := by simpa using hne.symm
    have hmoved := custody_move (k := k) (o := o) hreleased
      (Function.update_self ..) (by rw [Function.update_of_ne hne', ClientSystem.holds, ho])
    rwa [Function.update_idem] at hmoved
  | selfAssign hk => exact hs
  | @request k client path range hk =>
    refine ⟨?_, fun hunset => absurd hunset (hheld hk), once_append hs.once fun ok hmem => ?_⟩
    · refine custody_uses (k := k) hs.kept (fun c hc => ?_)
        fun call hcall => EasyClient.mem_request hcall
      obtain ⟨i, hi, hcurl⟩ := Option.bind_eq_some_iff.mp hc
      exact ⟨client, i, hk, hi, Or.inr ⟨c, hcurl, rfl⟩⟩
    · obtain ⟨c, -, hcall | hcall⟩ := EasyClient.mem_request hmem <;> exact absurd hcall (by simp)
  | @destroy k client calls hk hcalls =>
    refine ⟨?_, fun hunset => absurd hunset (hheld hk), once_append hs.once hcalls.no_init⟩
    change Custody exclusive (s.set k none).holds (curlEffects (s.calls ++ calls))
    rw [holds_set, keepsOf_none]
    exact hcalls.custody hk hs.kept
  | @exit ok calls hstatic hcalls =>
    refine ⟨?_, fun hunset => absurd hunset (by simp [ClientSystem.call]),
      once_append hs.once hcalls.no_init⟩
    change Custody exclusive ({ s with static := .destroyed } : ClientSystem κ C).holds
      (curlEffects (s.calls ++ calls))
    have hdropped := hcalls.custody hs.kept (fun r => ?_) fun _ _ => rfl
    · rwa [holds_static, keeps_destroyed]
    · rw [ClientSystem.holds, hstatic, StaticRuntime.keeps]
      simp

theorem inv_run {lib : C → Curl} {es : List (ClientEvent κ)}
    (hrun : Run (ClientStep lib) ClientSystem.init es s) : s.Inv :=
  hrun.invariant (I := fun _ s => s.Inv) inv_init fun _ _ _ _ hs hstep => hstep.inv hs

end Invariant

/-! ## What libcurl sees -/

section Lifecycle

variable {κ C : Type*} {s : ClientSystem κ C} {pre post calls : List (CurlCall C)}
  {call : CurlCall C}

/-- The call is proper behind the calls `pre`: libcurl is initialized before everything else; a
handle is opened, used and closed while it is initialized, and used and closed only while it is
open; and all handles are closed before libcurl is cleaned up. -/
def CurlProper (pre : List (CurlCall C)) : CurlCall C → Prop
  | .globalInit _ => pre = []
  | .globalCleanup =>
    .globalInit true ∈ pre ∧ .globalCleanup ∉ pre ∧
      ∀ c, .easyInit (some c) ∈ pre → .easyCleanup c ∈ pre
  | .easyInit created =>
    .globalInit true ∈ pre ∧ .globalCleanup ∉ pre ∧
      ∀ c, created = some c → .easyInit (some c) ∉ pre
  | .easyReset c | .easyPerform c | .easyCleanup c =>
    .easyInit (some c) ∈ pre ∧ .easyCleanup c ∉ pre ∧
      .globalInit true ∈ pre ∧ .globalCleanup ∉ pre

/-- An open handle is open while libcurl is initialized. -/
lemma open_of_live {c : C} (hdisc : Disciplined (curlEffects pre))
    (hlive : Live (curlEffects pre) (.handle c)) :
    .easyInit (some c) ∈ pre ∧ .easyCleanup c ∉ pre ∧
      .globalInit true ∈ pre ∧ .globalCleanup ∉ pre := by
  obtain ⟨hopen, hnot⟩ := live_easy_iff.mp hlive
  exact ⟨hopen, hnot,
    live_runtime_iff.mp (hdisc.live_owner hlive (issue_easy_iff.mpr hopen))⟩

/-- Whatever the clients do is proper. -/
lemma ClientSystem.Inv.proper (hs : s.Inv) (hcalls : s.calls = pre ++ call :: post) :
    CurlProper pre call := by
  have hdisc := hs.kept.disciplined
  rw [hcalls, curlEffects, List.map_append, List.map_cons] at hdisc
  have hallowed := hdisc.allowed
  have hpre := hdisc.front
  cases call with
  | globalInit ok =>
    by_contra hne
    have hnot := hs.once ok
    rw [hcalls, List.tail_append_of_ne_nil hne] at hnot
    exact hnot (by simp)
  | globalCleanup =>
    obtain ⟨hinit, hnot⟩ := live_runtime_iff.mp hallowed.1
    refine ⟨hinit, hnot, fun c hopen => ?_⟩
    have hreleased := hallowed.2 (.handle c) (issue_easy_iff.mpr hopen)
    simpa [effect_release_handle] using hreleased
  | easyInit created =>
    cases created with
    | none =>
      obtain ⟨hinit, hnot⟩ := live_runtime_iff.mp (hallowed .runtime (by simp))
      exact ⟨hinit, hnot, by simp⟩
    | some c =>
      obtain ⟨hinit, hnot⟩ := live_runtime_iff.mp (hallowed.2 .runtime rfl)
      refine ⟨hinit, hnot, fun c' hc' hopen => hallowed.1 ?_⟩
      rw [Option.some.inj hc']
      exact issued_easy_iff.mpr hopen
  | easyReset c => exact open_of_live hpre (hallowed (.handle c) (by simp))
  | easyPerform c => exact open_of_live hpre (hallowed (.handle c) (by simp))
  | easyCleanup c => exact open_of_live hpre hallowed.1

variable [DecidableEq C]

/-- A call that is the only one with its effect is made as often as the effect happens. -/
lemma count_of_effect {e : Effect (CurlResource C)}
    (he : ∀ call' : CurlCall C, call'.effect = e ↔ call' = call) :
    calls.count call = (curlEffects calls).count e := by
  rw [List.count_eq_countP, List.count_eq_countP, List.countP_map]
  refine List.countP_congr fun call' _ => ?_
  simp [he]

/-- **The life of HTTP clients.**  In every run of constructions, moves, assignments, requests and
destructions of any number of clients, around the end of the process or not: every listed call of
libcurl is proper where it stands; no two clients have the same handle, and what a client has is
open while libcurl is initialized; a client without a handle makes no call and refuses its requests.
When no client is alive any more and the static variable is gone, every handle has been closed
exactly once, and libcurl has been cleaned up exactly once if its initialization succeeded. -/
theorem client_lifecycle [DecidableEq κ] {lib : C → Curl} {es : List (ClientEvent κ)}
    (hrun : Run (ClientStep lib) ClientSystem.init es s) :
    (∀ pre call post, s.calls = pre ++ call :: post → CurlProper pre call) ∧
    (∀ k k' client client' c, s.objects k = some client → s.objects k' = some client' →
      client.handle = some c → client'.handle = some c → k = k') ∧
    (∀ k client, s.objects k = some client →
      (∀ c, client.handle = some c → .easyInit (some c) ∈ s.calls ∧ .easyCleanup c ∉ s.calls ∧
        .globalInit true ∈ s.calls ∧ .globalCleanup ∉ s.calls) ∧
      (client.handle = none → ∀ path range, client.request lib path range = [] ∧
        (client.view lib).perform path range
          = ⟨none, .error (.network (ascii "CURL not initialized"))⟩)) ∧
    ((∀ k, s.objects k = none) → (∀ ok, s.static ≠ .holding ok) →
      (∀ c, .easyInit (some c) ∈ s.calls → s.calls.count (.easyCleanup c) = 1) ∧
      (.globalInit true ∈ s.calls → s.calls.count .globalCleanup = 1)) := by
  have hs := inv_run hrun
  have hkeeps : ∀ k client c, s.objects k = some client → client.handle = some c →
      .handle c ∈ s.holds (some k) := by
    intro k client c hk hc
    obtain ⟨i, hi, hcurl⟩ := Option.bind_eq_some_iff.mp hc
    exact ⟨client, i, hk, hi, Or.inr ⟨c, hcurl, rfl⟩⟩
  refine ⟨fun pre call post hcalls => hs.proper hcalls, ?_, ?_, ?_⟩
  · intro k k' client client' c hk hk' hc hc'
    have heq := hs.kept.once (.handle c) (by simp [exclusive]) _ _ (hkeeps k client c hk hc)
      (hkeeps k' client' c hk' hc')
    exact Option.some.inj heq
  · intro k client hk
    refine ⟨fun c hc => ?_,
      fun hnone path range => EasyClient.request_of_no_handle hnone path range⟩
    exact open_of_live hs.kept.disciplined (hs.kept.live (hkeeps k client c hk hc))
  · intro hdead hgone
    -- nobody keeps anything, so that nothing is live
    have hreleased : ∀ r, Issued (curlEffects s.calls) r → .release r ∈ curlEffects s.calls := by
      intro r hr
      by_contra hnot
      obtain ⟨slot, hslot⟩ := (hs.kept.live_iff r).mp ⟨hr, hnot⟩
      rcases slot with _ | k
      · exact hgone true hslot.1
      · rw [ClientSystem.holds, hdead k, keepsOf_none] at hslot
        exact hslot
    refine ⟨fun c hopen => ?_, fun hinit => ?_⟩
    · rw [count_of_effect fun _ => effect_release_handle]
      exact hs.kept.disciplined.count_release (hreleased _ (issued_easy_iff.mpr hopen))
    · rw [count_of_effect fun _ => effect_release_runtime]
      exact hs.kept.disciplined.count_release (hreleased _ (issued_runtime_iff.mpr hinit))

/-- A libcurl that takes every option. -/
def obligingCurl : Curl where
  slistAppend := true
  setopt _ := true
  easyPerform _ := { events := [], code := curleOk, status := some 200 }
  strerror _ := []

/-- One of two clients is assigned to the other one, which then outlives the static variable. -/
theorem client_lifecycle_two :
    ∃ (es : List (ClientEvent Bool)) (s : ClientSystem Bool ℕ),
      Run (ClientStep fun _ => obligingCurl) ClientSystem.init es s ∧
      s.calls = [.globalInit true, .easyInit (some 1), .easyInit (some 2), .easyCleanup 1,
        .easyReset 2, .easyPerform 2, .easyCleanup 2, .globalCleanup] ∧
      s.calls.count (.easyCleanup 2) = 1 ∧ s.calls.count .globalCleanup = 1 := by
  -- the first client has handle 1 and the second one handle 2
  have h₀ : Run (ClientStep fun _ : ℕ => obligingCurl) (ClientSystem.init (κ := Bool))
    [] ClientSystem.init := .nil
  have h₁ := h₀.snoc (@ClientStep.construct _ _ _ _ _ _ false {} (some 1) rfl
    (.first true rfl) (by simp [ClientSystem.init]))
  have h₂ := h₁.snoc (@ClientStep.construct _ _ _ _ _ _ true {} (some 2) rfl
    (.again rfl) (by simp [ClientSystem.init, ClientSystem.call, ClientSystem.set]))
  have h₃ := h₂.snoc (.moveAssign (k := false) (o := true) Bool.false_ne_true rfl rfl
    (.impl (.shared ⟨none, by simp, rfl, rfl⟩)))
  have h₄ := h₃.snoc (@ClientStep.request _ _ _ _ _ false _ (ascii "/file") none rfl)
  have h₅ := h₄.snoc (.destroy (k := true) rfl .null)
  have h₆ := h₅.snoc (.exit rfl
    (.shared ⟨some false, by simp, _, _, rfl, rfl, Or.inl ⟨rfl, rfl⟩⟩))
  have h₇ := h₆.snoc (.destroy (k := false) rfl (.impl (.last fun ⟨other, hne, hmem⟩ => by
    rcases other with _ | _ | _
    · exact absurd hmem.1 (by simp [ClientSystem.call])
    · exact hne rfl
    · obtain ⟨client, i, hobject, -, -⟩ := hmem
      exact absurd hobject (by simp [ClientSystem.call, ClientSystem.set]))))
  have hend := (client_lifecycle h₇).2.2.2
    (by rintro (_ | _) <;> simp [ClientSystem.call, ClientSystem.set])
    (by simp [ClientSystem.call, ClientSystem.set])
  exact ⟨_, _, h₇, rfl, hend.1 2 (by decide), hend.2 (by decide)⟩

end Lifecycle

end GribCpp.Http
