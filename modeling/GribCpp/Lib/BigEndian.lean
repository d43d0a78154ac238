/-
# Big-endian numbers

The number that a string of bytes denotes with its most significant byte first, and the
loop that computes it in a machine word by shifting the next byte in.
-/
import Mathlib

namespace GribCpp.BigEndian

/-- The number of a string of bytes, most significant byte first. -/
def value (bs : List UInt8) : ℕ := bs.foldl (fun n b => 256 * n + b.toNat) 0

@[simp] lemma value_nil : value [] = 0 := rfl

lemma value_append_singleton (bs : List UInt8) (b : UInt8) :
    value (bs ++ [b]) = 256 * value bs + b.toNat := by
  simp [value]

lemma value_lt (bs : List UInt8) : value bs < 256 ^ bs.length := by
  induction bs using List.reverseRecOn with
  | nil => simp
  | append_singleton bs b ih =>
    have hb := b.toNat_lt
    rw [value_append_singleton, List.length_append, List.length_singleton, pow_succ]
    omega

/-- Shifting one more byte into a word that has room for it. -/
lemma shift_or_eq {n : ℕ} (hn : n < 2 ^ 56) (b : UInt8) :
    UInt64.ofNat n <<< 8 ||| b.toUInt64 = UInt64.ofNat (256 * n + b.toNat) := by
  have hb : b.toNat < 2 ^ 8 := b.toNat_lt
  have h8 : n <<< 8 = 256 * n := by rw [Nat.shiftLeft_eq]; omega
  have hor : 256 * n ||| b.toNat = 256 * n + b.toNat := by
    rw [← h8, Nat.shiftLeft_add_eq_or_of_lt hb]
  apply UInt64.toNat_inj.mp
  have hlt : 256 * n + b.toNat < 2 ^ 64 := by omega
  rw [UInt64.toNat_or, UInt64.toNat_shiftLeft, UInt64.toNat_ofNat_of_lt' (hn.trans (by norm_num)),
    UInt64.toNat_ofNat_of_lt' hlt, UInt8.toNat_toUInt64]
  have h64 : (8 : UInt64).toNat % 64 = 8 := rfl
  rw [h64, h8, Nat.mod_eq_of_lt (by omega), hor]

/-- The loop over `k` bytes of a buffer from `base` on; `none` when it reads outside. -/
def read? (buf : List UInt8) (base : ℕ) : ℕ → Option UInt64
  | 0 => some 0
  | k + 1 => do
    let n ← read? buf base k
    let b ← buf[base + k]?
    return n <<< 8 ||| b.toUInt64

/-- The loop reads the number of the bytes. -/
theorem read?_eq {buf : List UInt8} {base k : ℕ} (hk : k ≤ 8) (hbuf : base + k ≤ buf.length) :
    read? buf base k = some (UInt64.ofNat (value ((buf.drop base).take k))) := by
  induction k with
  | zero => simp [read?]
  | succ k ih =>
    have hlt : base + k < buf.length := by omega
    have htake : (buf.drop base).take (k + 1) = (buf.drop base).take k ++ [buf[base + k]] := by
      rw [List.take_add_one, List.getElem?_drop, List.getElem?_eq_getElem hlt]
      rfl
    have hval : value ((buf.drop base).take k) < 2 ^ 56 := by
      refine (value_lt _).trans_le ?_
      have hlen : ((buf.drop base).take k).length ≤ 7 := by
        rw [List.length_take]
        omega
      calc 256 ^ ((buf.drop base).take k).length ≤ 256 ^ 7 := Nat.pow_le_pow_right (by omega) hlen
        _ = 2 ^ 56 := by norm_num
    rw [read?, ih (by omega) (by omega), List.getElem?_eq_getElem hlt, htake,
      value_append_singleton, ← shift_or_eq hval]
    rfl

end GribCpp.BigEndian
