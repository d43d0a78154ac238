/-
# Checked machine integers

A type of machine integers is a range of the integers.  The checked operations of a type give no
result where the machine would leave the range or divide by zero, and otherwise the result that
the integers have.  A computation is safe on an input when its checked version gives a result
there.
-/
import Mathlib

namespace GribCpp.Checked

/-- A type of machine integers: its least and its greatest value. -/
structure IntType where
  least : ℤ
  greatest : ℤ

/-- The signed integers of 64 bits. -/
def int64 : IntType := ⟨-2 ^ 63, 2 ^ 63 - 1⟩

/-- The unsigned integers of 16 bits. -/
def uint16 : IntType := ⟨0, 2 ^ 16 - 1⟩

namespace IntType

/-- The number is a value of the type. -/
def Has (T : IntType) (n : ℤ) : Prop := T.least ≤ n ∧ n ≤ T.greatest

instance (T : IntType) (n : ℤ) : Decidable (T.Has n) := inferInstanceAs (Decidable (_ ∧ _))

/-- A conversion to the type that must not lose anything. -/
def fit (T : IntType) (n : ℤ) : Option ℤ := if T.Has n then some n else none

def add (T : IntType) (a b : ℤ) : Option ℤ := T.fit (a + b)

def sub (T : IntType) (a b : ℤ) : Option ℤ := T.fit (a - b)

def mul (T : IntType) (a b : ℤ) : Option ℤ := T.fit (a * b)

/-- Division truncates towards zero. -/
def div (T : IntType) (a b : ℤ) : Option ℤ := if b = 0 then none else T.fit (a.tdiv b)

variable {T : IntType} {a b n : ℤ}

lemma fit_of_has (h : T.Has n) : T.fit n = some n := if_pos h

lemma add_of_has (h : T.Has (a + b)) : T.add a b = some (a + b) := fit_of_has h

lemma sub_of_has (h : T.Has (a - b)) : T.sub a b = some (a - b) := fit_of_has h

lemma mul_of_has (h : T.Has (a * b)) : T.mul a b = some (a * b) := fit_of_has h

/-- The quotient of a number that is not negative by a positive one is in the range of the
number. -/
lemma tdiv_bounds (ha : 0 ≤ a) (hb : 0 < b) :
    0 ≤ a.tdiv b ∧ a.tdiv b * b ≤ a ∧ a.tdiv b ≤ a := by
  rw [Int.tdiv_eq_ediv_of_nonneg ha]
  exact ⟨Int.ediv_nonneg ha hb.le, Int.ediv_mul_le a hb.ne', Int.ediv_le_self b ha⟩

/-- Such a division is safe in every type that has zero. -/
lemma div_of_nonneg (hT : T.least ≤ 0) (h : T.Has a) (ha : 0 ≤ a) (hb : 0 < b) :
    T.div a b = some (a.tdiv b) := by
  obtain ⟨h0, -, hle⟩ := tdiv_bounds ha hb
  rw [div, if_neg hb.ne']
  exact fit_of_has ⟨hT.trans h0, hle.trans h.2⟩

end IntType

lemma int64_has_iff {n : ℤ} : int64.Has n ↔ -2 ^ 63 ≤ n ∧ n ≤ 2 ^ 63 - 1 := Iff.rfl

lemma uint16_has_iff {n : ℤ} : uint16.Has n ↔ 0 ≤ n ∧ n ≤ 2 ^ 16 - 1 := Iff.rfl

end GribCpp.Checked
