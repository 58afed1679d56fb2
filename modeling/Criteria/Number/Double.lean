/-!
# Finite double-precision numbers

A finite double is a whole number of units of `2⁻¹⁰⁷⁴`: a significand of 53 bits shifted left. The
significand is normalized as soon as it is shifted, so a number has one such form up to the sign of
zero. The order is that of the exact values, hence the two zeros compare as equal.
-/

namespace Criteria
set_option autoImplicit false

/-- A finite double: `± significand · 2 ^ shift` units of `2⁻¹⁰⁷⁴`. -/
structure Double where
  negative : Bool
  significand : Nat
  shift : Nat
  /-- The significand has 53 bits. -/
  significand_lt : significand < 0x20000000000000
  /-- The largest double is finite. -/
  shift_le : shift ≤ 2045
  /-- A shifted significand has its leading bit set. -/
  normal : shift = 0 ∨ 0x10000000000000 ≤ significand
deriving DecidableEq

namespace Double

/-- Zero with the given sign. -/
def zero (negative : Bool) : Double where
  negative := negative
  significand := 0
  shift := 0
  significand_lt := by decide
  shift_le := by decide
  normal := .inl rfl

instance : Inhabited Double := ⟨zero false⟩

/-- A whole number, counted in units of `2⁻¹⁰⁷⁴`. -/
def inUnits (n : Nat) : Nat := n <<< 1074

/-- The units of the number one. -/
def one : Nat := inUnits 1

/-- The absolute value, counted in units of `2⁻¹⁰⁷⁴`. -/
def magnitude (d : Double) : Nat := d.significand <<< d.shift

/-- The value, counted in units of `2⁻¹⁰⁷⁴`. -/
def units (d : Double) : Int := if d.negative then -(d.magnitude : Int) else d.magnitude

/-- Orders two doubles by value. -/
def compare (a b : Double) : Ordering := Ord.compare a.units b.units

/-- Equality of values; the two zeros are equal. -/
def equal (a b : Double) : Bool := a.units == b.units

/-- Whether the value is a whole number. -/
def isIntegral (d : Double) : Bool := d.magnitude % one == 0

/-- The 64 bits of the interchange format: sign, biased exponent, fraction. The exponent field is
`shift + 1` when the leading bit is set and `0` otherwise, so adding the whole significand to the
shifted `shift` accounts for the leading bit, which is not stored. -/
def bits (d : Double) : Nat :=
  (if d.negative then 1 <<< 63 else 0) + d.shift <<< 52 + d.significand

@[simp] theorem zero_units (negative : Bool) : (zero negative).units = 0 := by
  cases negative <;> rfl

end Double
end Criteria
