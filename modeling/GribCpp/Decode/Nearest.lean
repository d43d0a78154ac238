/-
# The grid search of a handle

The model of `GribHandle::nearest` and of the special members of `GribHandle` in
`src/decode/handle.cpp`.  The grid search of ecCodes is a parameter.  Every call records the
calls of ecCodes that it makes, with the handle and the nearest object that it passes; a handle
caches its nearest object from the first search on.
-/
import GribCpp.Decode.File
import GribCpp.Models.EcmwfIndex

namespace GribCpp.Decode

open Framing Rounding Sidecar

/-! ## Coordinates -/

/-- A rational number rounded to an integer, halves to even. -/
def roundHalfEven (q : ℚ) : ℤ :=
  if q - ⌊q⌋ < 1 / 2 then ⌊q⌋
  else if 1 / 2 < q - ⌊q⌋ then ⌊q⌋ + 1
  else if ⌊q⌋ % 2 = 0 then ⌊q⌋
  else ⌊q⌋ + 1

/-- The exponent of the last bit of the floating-point numbers around a number. -/
def lastBit (q : ℚ) : ℤ := max (Int.log 2 |q| - 52) (-1074)

/-- A rational number rounded to a `double`. -/
def roundDouble (q : ℚ) : Double :=
  let m := roundHalfEven (q / 2 ^ lastBit q)
  if h : |m| < 2 ^ 53 ∧ lastBit q ≤ 971 then
    .finite (m * 2 ^ lastBit q) ⟨m, lastBit q, h.1, le_max_right _ _, h.2, rfl⟩
  else if h : |m / 2| < 2 ^ 53 ∧ lastBit q + 1 ≤ 971 then
    -- rounded up to the next power of two
    .finite ((m / 2 : ℤ) * 2 ^ (lastBit q + 1))
      ⟨m / 2, lastBit q + 1, h.1, (le_max_right _ _).trans (Int.le_add_one le_rfl), h.2, rfl⟩
  else .infinity (decide (q < 0))

/-- `std::fmod` of a finite number by a positive one; the remainder is exact, and has the sign of
the number, as a zero too. -/
def fmod (x y : ℚ) : Double :=
  let r := x - y * trunc (x / y)
  if r = 0 ∧ x < 0 then .negZero else roundDouble r

/-- A finite coordinate of the range. -/
def validCoordinates (lat lon : Double) : Bool :=
  match lat.value, lon.value with
  | some lat, some _ => ¬ (lat < -90 ∨ 90 < lat)
  | _, _ => false

/-- The longitude, from 0 to 360 degrees. -/
def wrapLongitude (lon : Double) : Double :=
  match lon with
  | .finite q _ =>
    match fmod q 360 with
    | .finite r h => if r < 0 then roundDouble (r + 360) else .finite r h
    | r => r
  | lon => lon

/-- `<` on floating-point numbers. -/
def less : Double → Double → Bool
  | .nan, _ | _, .nan => false
  | .infinity true, .infinity true => false
  | .infinity true, _ => true
  | _, .infinity true => false
  | .infinity false, _ => false
  | _, .infinity false => true
  | x, y => x.value.getD 0 < y.value.getD 0

/-! ## ecCodes -/

/-- `CODES_SUCCESS`. -/
def codesSuccess : ℤ := 0

/-- A point of the grid: its value, and its distance. -/
structure GridPoint where
  value : Double
  dist : Double

/-- The grid search of ecCodes: the results of `codes_grib_nearest_new` and of
`codes_grib_nearest_find`, with their error codes, and the texts of these. -/
structure NearestApi (H N : Type*) where
  nearestNew : H → Option N × ℤ
  nearestFind : N → H → Double → Double → ℤ × List GridPoint
  errorMessage : ℤ → Bytes

/-- A call of ecCodes that concerns its objects. -/
inductive Call (H N : Type*) where
  | handleNew (h : H)
  | handleDelete (h : H)
  | nearestNew (h : H) (created : Option N)
  | nearestDelete (n : N)
  | nearestFind (n : N) (h : H)
deriving DecidableEq

/-! ## The search -/

section Search

variable {H N : Type*}

/-- What a search does, what it leaves behind, and what it returns. -/
structure Searched (H N : Type*) where
  calls : List (Call H N)
  handle : GribHandle H N
  result : Result Double

/-- The point of the least distance, the first one of several. -/
def bestPoint (best : GridPoint) : List GridPoint → GridPoint
  | [] => best
  | p :: ps => bestPoint (if less p.dist best.dist then p else best) ps

/-- The second half of `GribHandle::nearest`: what `codes_grib_nearest_find` has found. -/
def foundValue (api : NearestApi H N) (found : ℤ × List GridPoint) : Result Double :=
  match found with
  | (err, []) => .error (.decode (ascii "nearest_find: " ++ api.errorMessage err))
  | (err, p :: ps) =>
    if err ≠ codesSuccess then
      .error (.decode (ascii "nearest_find: " ++ api.errorMessage err))
    else .ok (bestPoint p ps).value

/-- `GribHandle::nearest`. -/
def GribHandle.nearestValue (g : GribHandle H N) (api : NearestApi H N) (lat lon : Double) :
    Searched H N :=
  match g.h with
  | none => ⟨[], g, .error (.decode (ascii "Invalid handle or coordinates"))⟩
  | some h =>
    if validCoordinates lat lon = false then
      ⟨[], g, .error (.decode (ascii "Invalid handle or coordinates"))⟩
    else
      let lon := wrapLongitude lon
      match g.nearest with
      | some near =>
        ⟨[.nearestFind near h], g, foundValue api (api.nearestFind near h lat lon)⟩
      | none =>
        match api.nearestNew h with
        | (none, err) =>
          ⟨[.nearestNew h none], g,
            .error (.decode (ascii "nearest_new: " ++ api.errorMessage err))⟩
        | (some created, err) =>
          if err ≠ codesSuccess then
            -- an object that comes with an error is given back
            ⟨[.nearestNew h (some created), .nearestDelete created], g,
              .error (.decode (ascii "nearest_new: " ++ api.errorMessage err))⟩
          else
            ⟨[.nearestNew h (some created), .nearestFind created h],
              { g with nearest := some created },
              foundValue api (api.nearestFind created h lat lon)⟩

/-! ## The special members -/

namespace GribHandle

/-- A handle that owns nothing. -/
def empty : GribHandle H N := ⟨none, none⟩

/-- `GribHandle::GribHandle(void*)`. -/
def ofHandle (h : H) : GribHandle H N := ⟨some h, none⟩

/-- `GribHandle::~GribHandle`, and the first half of the move assignment. -/
def release (g : GribHandle H N) : List (Call H N) :=
  g.nearest.toList.map .nearestDelete ++ g.h.toList.map .handleDelete

/-- The move constructor: the new object, and what is left of the old one. -/
def move (o : GribHandle H N) : GribHandle H N × GribHandle H N := (⟨o.h, o.nearest⟩, empty)

/-- The move assignment to another object: the calls, the object assigned to, and what is left of
the old one. -/
def moveAssign (self o : GribHandle H N) :
    List (Call H N) × GribHandle H N × GribHandle H N :=
  (self.release, ⟨o.h, o.nearest⟩, empty)

end GribHandle

/-- A handle that is made of a slice of a buffer owns what ecCodes has created, and nothing else. -/
lemma makeHandle_eq_ok_iff {H N : Type} {create : Bytes → Option H} {buf : Bytes} {slice : Slice}
    {g : GribHandle H N} :
    makeHandle create buf slice = .ok g ↔
      ∃ h, create (slice.of buf) = some h ∧ g = .ofHandle h := by
  rw [makeHandle]
  cases create (slice.of buf) with
  | none => simp
  | some h => simp [GribHandle.ofHandle, eq_comm]

/-- What a search may do with a handle, and how it leaves the handle: it makes no call; it searches
with the cached object; it fails to create one, with or without an object to give back; or it
creates one, keeps it and searches. -/
inductive Searches (g : GribHandle H N) (api : NearestApi H N) :
    List (Call H N) → GribHandle H N → Prop
  | refused : Searches g api [] g
  | cached {h : H} {n : N} (hh : g.h = some h) (hn : g.nearest = some n) :
      Searches g api [.nearestFind n h] g
  | notCreated {h : H} (hh : g.h = some h) (hn : g.nearest = none) :
      Searches g api [.nearestNew h none] g
  | givenBack {h : H} {n : N} (hh : g.h = some h) (hn : g.nearest = none)
      (hnew : (api.nearestNew h).1 = some n) :
      Searches g api [.nearestNew h (some n), .nearestDelete n] g
  | created {h : H} {n : N} (hh : g.h = some h) (hn : g.nearest = none)
      (hnew : (api.nearestNew h).1 = some n) :
      Searches g api [.nearestNew h (some n), .nearestFind n h] { g with nearest := some n }

/-- `GribHandle::nearest` does nothing else. -/
lemma searches_nearestValue (g : GribHandle H N) (api : NearestApi H N) (lat lon : Double) :
    Searches g api (g.nearestValue api lat lon).calls (g.nearestValue api lat lon).handle := by
  generalize hs : g.nearestValue api lat lon = s
  rw [GribHandle.nearestValue] at hs
  split at hs
  · rw [← hs]
    exact .refused
  · rename_i h hh
    split at hs
    · rw [← hs]
      exact .refused
    · simp only at hs
      split at hs
      · rename_i near hn
        rw [← hs]
        exact .cached hh hn
      · rename_i hn
        split at hs
        · rw [← hs]
          exact .notCreated hh hn
        · rename_i created err hnew
          have hcreated : (api.nearestNew h).1 = some created := by rw [hnew]
          split at hs
          · rw [← hs]
            exact .givenBack hh hn hcreated
          · rw [← hs]
            exact .created hh hn hcreated

end Search

end GribCpp.Decode
