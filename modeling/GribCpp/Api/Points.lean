/-
# The extraction of stations

The model of `extract_point` and `extract_points` in `src/api/extract.cpp`.  The first decodes the
blob for a single search; the second decodes it once and searches for one station after the other,
with the nearest object that the first search has left in the handle.

ecCodes has a state: the calls of a batch find it in different states, one for each call.  What is
assumed of these states, in `Behaves`, is that they answer alike: on the same bytes, the same
message and the same coordinates.  A cached object that has been created for the handle is then
as good as a new one, and the batch is the traversal of the stations by `extract_point`.
-/
import GribCpp.Api.Extract
import GribCpp.Lib.Traverse

namespace GribCpp.Api

open Decode Framing Sidecar

/-! ## The source -/

/-- `Station`. -/
structure Station where
  id : Bytes
  lat : Double := .zero
  lon : Double := .zero

section Source

variable {H N : Type}

/-- `extract_point`. -/
def extractPoint (lib : EcCodes H N) (blob : Bytes) (lat lon : Double) : Result Double :=
  match (GribHandle.fromBytes (N := N) lib.create blob).result with
  | .error e => .error e
  | .ok h => (h.nearestValue lib.toNearestApi lat lon).result

variable (lib : ℕ → EcCodes H N)

/-- The loop of `extract_points`; `lib i` is ecCodes as the search of that turn finds it. -/
def pointsLoop (i : ℕ) (h : GribHandle H N) (out : List (Bytes × Double)) :
    List Station → Result (List (Bytes × Double))
  | [] => .ok out
  | s :: stations =>
    match (h.nearestValue (lib i).toNearestApi s.lat s.lon).result with
    | .error e => .error e
    | .ok v =>
      pointsLoop (i + 1) (h.nearestValue (lib i).toNearestApi s.lat s.lon).handle
        (out ++ [(s.id, v)]) stations

/-- `extract_points`. -/
def extractPoints (blob : Bytes) (stations : List Station) : Result (List (Bytes × Double)) :=
  match (GribHandle.fromBytes (N := N) (lib 0).create blob).result with
  | .error e => .error e
  | .ok h => pointsLoop lib 1 h [] stations

end Source

/-! ## What is assumed of ecCodes -/

/-- The error code with which the creation of a nearest object fails. -/
def creationError {N : Type} : Option N × ℤ → Option ℤ
  | (none, err) => some err
  | (some _, err) => if err ≠ codesSuccess then some err else none

variable {H N : Type}

/-- The states of ecCodes answer alike: the creation of a handle succeeds on the same bytes; the
creation of a nearest object fails alike for handles of the same message; and a search with a
nearest object that has been created for its handle finds the same for the same message and
coordinates, whatever the object has been used for before. -/
structure Behaves (lib : ℕ → EcCodes H N) (message : H → Bytes) : Prop where
  create_isSome : ∀ i j m, ((lib i).create m).isSome = ((lib j).create m).isSome
  message_create : ∀ i m h, (lib i).create m = some h → message h = m
  nearestNew : ∀ i j h h', message h = message h' →
    creationError ((lib i).nearestNew h) = creationError ((lib j).nearestNew h')
  nearestFind : ∀ i i' j j' h h' n n', message h = message h' →
    (lib i).nearestNew h = (some n, codesSuccess) →
    (lib i').nearestNew h' = (some n', codesSuccess) →
      ∀ lat lon, (lib j).nearestFind n h lat lon = (lib j').nearestFind n' h' lat lon
  errorMessage : ∀ i j, (lib i).errorMessage = (lib j).errorMessage

lemma creationError_eq_none_iff {r : Option N × ℤ} :
    creationError r = none ↔ ∃ n, r = (some n, codesSuccess) := by
  obtain ⟨_ | n, err⟩ := r
  · simp [creationError]
  · by_cases h : err = codesSuccess <;> simp [creationError, h]

/-! ## The cached object -/

/-- A handle over what ecCodes has created, whose nearest object, if there is one, has been
created for it. -/
structure Opened (lib : ℕ → EcCodes H N) (h : H) (g : GribHandle H N) : Prop where
  h_eq : g.h = some h
  cached : ∀ n ∈ g.nearest, ∃ k, (lib k).nearestNew h = (some n, codesSuccess)

variable {lib : ℕ → EcCodes H N} {message : H → Bytes} {h h' : H} {g g' : GribHandle H N}

lemma opened_ofHandle (lib : ℕ → EcCodes H N) (h : H) : Opened lib h (.ofHandle h) :=
  ⟨rfl, fun _ hn => absurd hn (by simp [GribHandle.ofHandle])⟩

lemma nearestValue_refused (api : NearestApi H N) {lat lon : Double}
    (hvalid : validCoordinates lat lon = false) :
    (g.nearestValue api lat lon).handle = g ∧
      (g.nearestValue api lat lon).result
        = .error (.decode (ascii "Invalid handle or coordinates")) := by
  rw [GribHandle.nearestValue]
  cases g.h with
  | none => exact ⟨rfl, rfl⟩
  | some h => simp [hvalid]

/-- **A search of an opened handle** leaves it opened; it fails as the creation of a nearest
object fails, or finds what a search with an object created for the handle finds. -/
lemma nearestValue_cases (hg : Opened lib h g) (i : ℕ) {lat lon : Double}
    (hvalid : validCoordinates lat lon = true) :
    Opened lib h (g.nearestValue (lib i).toNearestApi lat lon).handle ∧
      ((∃ err, creationError ((lib i).nearestNew h) = some err ∧
          (g.nearestValue (lib i).toNearestApi lat lon).result
            = .error (.decode (ascii "nearest_new: " ++ (lib i).errorMessage err))) ∨
        ∃ k n, (lib k).nearestNew h = (some n, codesSuccess) ∧
          (g.nearestValue (lib i).toNearestApi lat lon).result
            = foundValue (lib i).toNearestApi
                ((lib i).nearestFind n h lat (wrapLongitude lon))) := by
  rw [GribHandle.nearestValue, hg.h_eq]
  simp only [hvalid, Bool.true_eq_false, if_false]
  cases hn : g.nearest with
  | some near =>
    obtain ⟨k, hk⟩ := hg.cached near hn
    exact ⟨hg, Or.inr ⟨k, near, hk, rfl⟩⟩
  | none =>
    rcases hnew : (lib i).nearestNew h with ⟨_ | created, err⟩
    · exact ⟨hg, Or.inl ⟨err, rfl, rfl⟩⟩
    · by_cases herr : err = codesSuccess
      · -- the new object is kept
        subst herr
        refine ⟨⟨rfl, ?_⟩, Or.inr ⟨i, created, hnew, rfl⟩⟩
        rintro n hn
        obtain rfl := Option.some.inj hn
        exact ⟨i, hnew⟩
      · simp only [ne_eq, herr, not_false_eq_true, if_true]
        exact ⟨hg, Or.inl ⟨err, by simp [creationError, herr], rfl⟩⟩

/-- A search leaves a handle opened. -/
lemma Opened.nearestValue (hg : Opened lib h g) (i : ℕ) (lat lon : Double) :
    Opened lib h (g.nearestValue (lib i).toNearestApi lat lon).handle := by
  cases hvalid : validCoordinates lat lon with
  | false =>
    rw [(nearestValue_refused _ hvalid).1]
    exact hg
  | true => exact (nearestValue_cases hg i hvalid).1

/-- **Opened handles of one message find the same**, with a cached object or without, whenever
they search. -/
theorem nearestValue_eq (hlib : Behaves lib message) (hg : Opened lib h g)
    (hg' : Opened lib h' g') (hm : message h = message h') (i j : ℕ) (lat lon : Double) :
    (g.nearestValue (lib i).toNearestApi lat lon).result
      = (g'.nearestValue (lib j).toNearestApi lat lon).result := by
  cases hvalid : validCoordinates lat lon with
  | false => rw [(nearestValue_refused _ hvalid).2, (nearestValue_refused _ hvalid).2]
  | true =>
    have hcreated : ∀ k n, (lib k).nearestNew h = (some n, codesSuccess) →
        creationError ((lib j).nearestNew h') = none := by
      intro k n hk
      rw [← hlib.nearestNew k j h h' hm]
      exact creationError_eq_none_iff.mpr ⟨n, hk⟩
    obtain ⟨-, ⟨err, herr, hres⟩ | ⟨k, n, hk, hres⟩⟩ := nearestValue_cases hg i hvalid <;>
      obtain ⟨-, ⟨err', herr', hres'⟩ | ⟨k', n', hk', hres'⟩⟩ := nearestValue_cases hg' j hvalid
    · -- no object can be created for the message
      rw [hlib.nearestNew i j h h' hm, herr', Option.some.injEq] at herr
      rw [hres, hres', herr, hlib.errorMessage i j]
    · rw [hlib.nearestNew i k' h h' hm, creationError_eq_none_iff.mpr ⟨n', hk'⟩] at herr
      exact absurd herr (by simp)
    · rw [hcreated k n hk] at herr'
      exact absurd herr' (by simp)
    · rw [hres, hres', hlib.nearestFind k k' i j h h' n n' hm hk hk']
      simp only [foundValue, hlib.errorMessage i j]

/-! ## The batch -/

/-- The decoding of a blob fails alike in every state, or gives handles of the same message. -/
lemma fromBytes_cases (hlib : Behaves lib message) (blob : Bytes) (i j : ℕ) :
    (∃ e, (GribHandle.fromBytes (N := N) (lib i).create blob).result = .error e ∧
        (GribHandle.fromBytes (N := N) (lib j).create blob).result = .error e) ∨
      ∃ h h', message h = message h' ∧
        (GribHandle.fromBytes (N := N) (lib i).create blob).result = .ok (.ofHandle h) ∧
        (GribHandle.fromBytes (N := N) (lib j).create blob).result = .ok (.ofHandle h') := by
  simp only [GribHandle.fromBytes]
  split
  · exact Or.inl ⟨_, rfl, rfl⟩
  · split
    · rename_i start len _
      have hsome := hlib.create_isSome i j (Slice.of ⟨start, len⟩ blob)
      cases hh : (lib i).create (Slice.of ⟨start, len⟩ blob) with
      | none =>
        rw [hh, eq_comm, Option.isSome_none, Option.isSome_eq_false_iff,
          Option.isNone_iff_eq_none] at hsome
        exact Or.inl ⟨_, by rw [makeHandle, hh], by rw [makeHandle, hsome]⟩
      | some h =>
        rw [hh, eq_comm, Option.isSome_some] at hsome
        obtain ⟨h', hh'⟩ := Option.isSome_iff_exists.mp hsome
        refine Or.inr ⟨h, h', ?_, makeHandle_eq_ok_iff.mpr ⟨h, hh, rfl⟩,
          makeHandle_eq_ok_iff.mpr ⟨h', hh', rfl⟩⟩
        rw [hlib.message_create i _ h hh, hlib.message_create j _ h' hh']
    · exact Or.inl ⟨_, rfl, rfl⟩
    · exact Or.inl ⟨_, rfl, rfl⟩

/-- **The loop is a traversal** of the stations by any function that gives what a search of an
opened handle does. -/
lemma pointsLoop_eq {point : Station → Result Double}
    (hpoint : ∀ g i s, Opened lib h g →
      (g.nearestValue (lib i).toNearestApi s.lat s.lon).result = point s)
    (stations : List Station) (i : ℕ) (hg : Opened lib h g) (out : List (Bytes × Double)) :
    pointsLoop lib i g out stations
      = (stations.mapM fun s => (point s).map (Prod.mk s.id)).map (out ++ ·) := by
  induction stations generalizing i g out with
  | nil => simp [pointsLoop, pure, Except.pure, Except.map]
  | cons s stations ih =>
    have hg' := hg.nearestValue i s.lat s.lon
    rw [pointsLoop, hpoint g i s hg]
    cases hres : point s with
    | error e =>
      rw [Traverse.mapM_cons_error (by rw [hres]; rfl)]
      rfl
    | ok v =>
      rw [Traverse.mapM_cons_ok (by rw [hres]; rfl)]
      simp only [ih _ hg']
      cases stations.mapM fun s => (point s).map (Prod.mk s.id) with
      | error e => rfl
      | ok vs => simp [Except.map]

/-- **The batch is the traversal of the stations by `extract_point`.** -/
theorem extractPoints_eq (hlib : Behaves lib message) (blob : Bytes) {stations : List Station}
    (hne : stations ≠ []) (j : ℕ) :
    extractPoints lib blob stations
      = stations.mapM fun s =>
          (extractPoint (lib j) blob s.lat s.lon).map (Prod.mk s.id) := by
  rcases fromBytes_cases hlib blob 0 j with ⟨e, he, he'⟩ | ⟨h, h', hm, hok, hok'⟩
  · -- without a handle no station has a value
    obtain ⟨s, stations, rfl⟩ := List.exists_cons_of_ne_nil hne
    rw [extractPoints, he]
    refine (Traverse.mapM_cons_error ?_).symm
    simp only [extractPoint, he']
    rfl
  · have hpoint : ∀ g i (s : Station), Opened lib h g →
        (g.nearestValue (lib i).toNearestApi s.lat s.lon).result
          = extractPoint (lib j) blob s.lat s.lon := by
      intro g i s hg
      rw [extractPoint, hok']
      exact nearestValue_eq hlib hg (opened_ofHandle lib h') hm i j s.lat s.lon
    rw [extractPoints, hok]
    simp only [pointsLoop_eq hpoint stations 1 (opened_ofHandle lib h)]
    cases stations.mapM fun s =>
      (extractPoint (lib j) blob s.lat s.lon).map (Prod.mk s.id) <;> rfl

/-- What `extract_point` returns does not depend on when it is called. -/
lemma extractPoint_eq (hlib : Behaves lib message) (blob : Bytes) (i j : ℕ) (lat lon : Double) :
    extractPoint (lib i) blob lat lon = extractPoint (lib j) blob lat lon := by
  rw [extractPoint, extractPoint]
  rcases fromBytes_cases hlib blob i j with ⟨e, he, he'⟩ | ⟨h, h', hm, hok, hok'⟩
  · rw [he, he']
  · rw [hok, hok']
    exact nearestValue_eq hlib (opened_ofHandle lib h) (opened_ofHandle lib h') hm i j lat lon

/-- **`extract_point` searches the first message of the blob.** -/
theorem extractPoint_message (lib : EcCodes H N) {gap m : Bytes} (hgap : ¬ ascii "GRIB" <:+: gap)
    (hm : IsMessage m) (rest : Bytes) (lat lon : Double) :
    extractPoint lib (gap ++ (m ++ rest)) lat lon = nearestOf lib lat lon m := by
  have hwhole : Slice.of ⟨0, m.length⟩ m = m := by
    rw [Slice.of, List.drop_zero, List.take_length]
  rw [extractPoint, (fromBytes_behind hgap hm rest lib.create).2]
  simp only [makeHandle, hwhole, nearestOf]
  cases lib.create m <;> rfl

/-! ## The main result -/

/-- **The batch agrees with the extraction of single points.**  `extract_points` succeeds if and
only if `extract_point` does for every station, at whatever time; it then returns the values in
the order of the stations, each with its identifier, and otherwise the error of the first station
that fails. -/
theorem extractPoints_law (lib : ℕ → EcCodes H N) (message : H → Bytes)
    (hlib : Behaves lib message) (blob : Bytes) (stations : List Station) (hne : stations ≠ []) :
    (∀ i j lat lon, extractPoint (lib i) blob lat lon = extractPoint (lib j) blob lat lon) ∧
    ∀ i,
      ((∃ out, extractPoints lib blob stations = .ok out) ↔
        ∀ s ∈ stations, ∃ v, extractPoint (lib i) blob s.lat s.lon = .ok v) ∧
      (∀ out, extractPoints lib blob stations = .ok out →
        List.Forall₂ (fun s p => p.1 = s.id ∧ extractPoint (lib i) blob s.lat s.lon = .ok p.2)
          stations out) ∧
      ∀ pre s post e, stations = pre ++ s :: post →
        (∀ s' ∈ pre, ∃ v, extractPoint (lib i) blob s'.lat s'.lon = .ok v) →
        extractPoint (lib i) blob s.lat s.lon = .error e →
          extractPoints lib blob stations = .error e := by
  refine ⟨extractPoint_eq hlib blob, fun i => ?_⟩
  -- the value of a station, with its identifier
  have hok : ∀ (s : Station) (p : Bytes × Double),
      (extractPoint (lib i) blob s.lat s.lon).map (Prod.mk s.id) = .ok p ↔
        p.1 = s.id ∧ extractPoint (lib i) blob s.lat s.lon = .ok p.2 := by
    rintro s ⟨id, v⟩
    cases extractPoint (lib i) blob s.lat s.lon <;> simp [Except.map, eq_comm]
  rw [extractPoints_eq hlib blob hne i]
  refine ⟨?_, ?_, ?_⟩
  · rw [Traverse.exists_mapM_eq_ok_iff]
    simp only [hok]
    constructor
    · intro h s hs
      obtain ⟨p, -, hp⟩ := h s hs
      exact ⟨p.2, hp⟩
    · intro h s hs
      obtain ⟨v, hv⟩ := h s hs
      exact ⟨(s.id, v), rfl, hv⟩
  · intro out hout
    exact (Traverse.mapM_eq_ok_iff.mp hout).imp fun s p h => (hok s p).mp h
  · rintro pre s post e rfl hpre hs
    refine Traverse.mapM_eq_error (fun s' hs' => ?_) (by rw [hs]; rfl)
    obtain ⟨v, hv⟩ := hpre s' hs'
    exact ⟨(s'.id, v), (hok s' _).mpr ⟨rfl, hv⟩⟩

/-- The second of two stations has no latitude. -/
theorem extractPoints_law_two :
    extractPoints (fun _ => lengthAsNumber) shortest
        [{ id := ascii "a" }, { id := ascii "b", lat := .nan }]
      = .error (.decode (ascii "Invalid handle or coordinates")) := by
  have hlib : Behaves (fun _ => lengthAsNumber) id := by
    refine ⟨fun _ _ _ => rfl, fun _ m h hm => ?_, fun _ _ _ _ _ => rfl, ?_, fun _ _ => rfl⟩
    · exact (Option.some.inj hm).symm
    · exact fun _ _ _ _ _ _ _ _ _ _ _ _ _ => rfl
  have hpoint : ∀ lat lon, extractPoint lengthAsNumber shortest lat lon
      = nearestOf lengthAsNumber lat lon shortest := by
    intro lat lon
    have hgap : ¬ ascii "GRIB" <:+: ([] : Bytes) := by decide
    exact extractPoint_message lengthAsNumber hgap isMessage_shortest [] lat lon
  have hlaw := extractPoints_law _ id hlib shortest
    [{ id := ascii "a" }, { id := ascii "b", lat := .nan }] (by simp)
  refine (hlaw.2 0).2.2 [{ id := ascii "a" }] _ [] _ rfl ?_ ((hpoint _ _).trans rfl)
  intro s hs
  obtain rfl := List.mem_singleton.mp hs
  exact ⟨.negZero, (hpoint _ _).trans rfl⟩

end GribCpp.Api
