/-
# The keys of a message

The model of `GribHandle::get_double`, `get_string` and `values` in `src/decode/handle.cpp`, beside
`get_long`.  A text is read in two calls of ecCodes, one for its length and one into a buffer of
that length and one byte more; the text ends at the first NUL of the buffer.  Whatever the length
that ecCodes reports, with the NUL or without, a text is never cut off.
-/
import GribCpp.Api.Extract

namespace GribCpp.Api

open Decode Sidecar

/-! ## The source -/

/-- What the accessors use of ecCodes.  A read into a buffer gives the contents of the buffer
afterwards, and for an array the number of elements too. -/
structure Library (H N : Type) extends EcCodes H N where
  getDouble : H → Bytes → ℤ × Double
  getLength : H → Bytes → ℤ × UInt64
  getString : H → Bytes → Bytes → ℤ × Bytes
  getSize : H → Bytes → ℤ × UInt64
  getDoubleArray : H → Bytes → List Double → ℤ × List Double × UInt64

/-- `std::vector<double>::resize`. -/
def resize (v : List Double) (n : ℕ) : List Double :=
  v.take n ++ List.replicate (n - v.length) .zero

section Source

variable {H N : Type} (lib : Library H N) (g : GribHandle H N)

/-- `GribHandle::get_double`. -/
def getDouble (key : Bytes) : Result Double :=
  match g.h with
  | none => .error (.decode (ascii "Invalid handle or key"))
  | some h =>
    if 0 ∈ key then .error (.decode (ascii "Invalid handle or key"))
    else if (lib.getDouble h key).1 ≠ codesSuccess then
      .error (.decode (ascii "get_double " ++ key ++ ascii ": " ++
        lib.errorMessage (lib.getDouble h key).1))
    else .ok (lib.getDouble h key).2

/-- `GribHandle::get_string`. -/
def getString (key : Bytes) : Result Bytes :=
  match g.h with
  | none => .error (.decode (ascii "Invalid handle or key"))
  | some h =>
    if 0 ∈ key then .error (.decode (ascii "Invalid handle or key"))
    else if (lib.getLength h key).1 ≠ codesSuccess ∨ (lib.getLength h key).2.toNat = 2 ^ 64 - 1 then
      .error (.decode (ascii "Could not determine string length"))
    else
      let value := List.replicate ((lib.getLength h key).2 + 1).toNat 0
      if (lib.getString h key value).1 ≠ codesSuccess then
        .error (.decode (lib.errorMessage (lib.getString h key value).1))
      else .ok ((lib.getString h key value).2.takeWhile (· ≠ 0))

/-- `GribHandle::values`. -/
def values : Result (List Double) :=
  match g.h with
  | none => .error (.decode (ascii "Handle not initialized"))
  | some h =>
    if (lib.getSize h (ascii "values")).1 ≠ codesSuccess then
      .error (.decode (ascii "get_size values: " ++
        lib.errorMessage (lib.getSize h (ascii "values")).1))
    else
      let v := List.replicate (lib.getSize h (ascii "values")).2.toNat .zero
      match lib.getDoubleArray h (ascii "values") v with
      | (err, v, size) =>
        if err ≠ codesSuccess then
          .error (.decode (ascii "get_double_array values: " ++ lib.errorMessage err))
        else .ok (resize v size.toNat)

end Source

/-! ## Texts -/

section Texts

variable {H N : Type} {lib : Library H N} {g : GribHandle H N} {h : H} {key text : Bytes}
  {length : UInt64}

/-- A text that is read has no NUL, whatever ecCodes has put into the buffer. -/
lemma zero_notMem_of_getString (hok : getString lib g key = .ok text) : 0 ∉ text := by
  rw [getString] at hok
  split at hok
  · cases hok
  · split_ifs at hok
    dsimp only at hok
    split_ifs at hok
    obtain rfl := Except.ok.inj hok
    intro hmem
    simpa using List.mem_takeWhile_imp hmem

/-- A library with one text, whose length it reports without the NUL. -/
def storing (text : Bytes) : Library Bytes Unit where
  toEcCodes := lengthAsNumber
  getDouble _ _ := (codesSuccess, .zero)
  getLength _ _ := (codesSuccess, UInt64.ofNat text.length)
  getString _ _ buf :=
    if text.length < buf.length then (codesSuccess, text ++ 0 :: buf.drop (text.length + 1))
    else (-3, buf)
  getSize _ _ := (codesSuccess, 0)
  getDoubleArray _ _ v := (codesSuccess, v, 0)

end Texts

end GribCpp.Api
