import Criteria.Number.Double

/-!
# Rounding to the nearest double

`divRound` divides to the nearest whole number, a half going to the even neighbour. Rounding a
quotient of units chooses the shift that leaves 53 significant bits and rounds once on that grid;
`roundUnits_lt` and `roundUnits_normal` say that the result has the form a double needs.
-/

namespace Criteria
set_option autoImplicit false

/-- The whole number nearest to `num / den`; a half goes to the even neighbour. -/
def divRound (num den : Nat) : Nat :=
  let quotient := num / den
  let rest := num % den
  if 2 * rest < den then quotient
  else if den < 2 * rest then quotient + 1
  else quotient + quotient % 2

theorem le_divRound (num den : Nat) : num / den ≤ divRound num den := by
  simp only [divRound]
  split
  · exact Nat.le_refl _
  · split <;> omega

theorem divRound_le (num den : Nat) : divRound num den ≤ num / den + 1 := by
  simp only [divRound]
  split
  · omega
  · split <;> omega

namespace Double

/-- The shift that leaves at most 53 bits of `num / den` before the point. -/
def shiftFor (num den : Nat) : Nat := (num / den).log2 - 52

/-- Significand and shift of the double nearest to `num / den` units. -/
def roundUnits (num den : Nat) : Nat × Nat :=
  let shift := shiftFor num den
  let significand := divRound num (den <<< shift)
  if significand < 0x20000000000000 then (significand, shift) else (0x10000000000000, shift + 1)

theorem roundUnits_lt (num den : Nat) : (roundUnits num den).1 < 0x20000000000000 := by
  simp only [roundUnits]
  split
  · assumption
  · exact (by decide : 0x10000000000000 < 0x20000000000000)

theorem le_div_shiftFor {num den : Nat} (h : 52 < (num / den).log2) :
    0x10000000000000 ≤ num / den <<< shiftFor num den := by
  have nonzero : num / den ≠ 0 := by
    intro zero
    rw [zero] at h
    exact absurd h (by decide)
  rw [Nat.shiftLeft_eq, ← Nat.div_div_eq_div_mul, Nat.le_div_iff_mul_le (Nat.two_pow_pos _)]
  refine Nat.le_trans (Nat.le_of_eq ?_) (Nat.log2_self_le nonzero)
  rw [show (0x10000000000000 : Nat) = 2 ^ 52 from rfl, ← Nat.pow_add]
  simp only [shiftFor]
  rw [Nat.add_sub_cancel' (Nat.le_of_lt h)]

theorem roundUnits_normal (num den : Nat) :
    (roundUnits num den).2 = 0 ∨ 0x10000000000000 ≤ (roundUnits num den).1 := by
  simp only [roundUnits]
  split
  · by_cases h : 52 < (num / den).log2
    · exact .inr (Nat.le_trans (le_div_shiftFor h) (le_divRound _ _))
    · exact .inl (by simp only [shiftFor]; omega)
  · exact .inr (Nat.le_refl _)

theorem shiftFor_le {n a e k : Nat} (h : n < 1 <<< a) (le : a + e ≤ k + 53) :
    shiftFor (n <<< e) 1 ≤ k := by
  simp only [shiftFor, Nat.div_one]
  by_cases zero : n <<< e = 0
  · rw [zero]
    exact Nat.zero_le _
  · have large : n <<< e < 2 ^ (a + e) := by
      rw [Nat.shiftLeft_eq, Nat.pow_add]
      rw [Nat.one_shiftLeft] at h
      exact Nat.mul_lt_mul_of_pos_right h (Nat.two_pow_pos _)
    have := (Nat.log2_lt zero).2 large
    omega

/-- The double nearest to `num / den`, unless it lies beyond the largest one. -/
def nearest? (negative : Bool) (num den : Nat) : Option Double :=
  if h : (roundUnits (inUnits num) den).2 ≤ 2045 then
    some {
      negative := negative
      significand := (roundUnits (inUnits num) den).1
      shift := (roundUnits (inUnits num) den).2
      significand_lt := roundUnits_lt ..
      shift_le := h
      normal := roundUnits_normal .. }
  else none

/-- The double nearest to `± coefficient · 10 ^ exponent`, unless it lies beyond the largest one.
Powers that put every coefficient of this length beyond the largest double, or below half of the
smallest, are not computed. -/
def ofDecimal? (negative : Bool) (coefficient : Nat) (exponent : Int) : Option Double :=
  let digits : Int := (Nat.toDigits 10 coefficient).length
  if coefficient = 0 ∨ digits + exponent < -330 then some (zero negative)
  else if 330 < digits + exponent then none
  else if 0 ≤ exponent then nearest? negative (coefficient * Nat.pow 10 exponent.toNat) 1
  else nearest? negative coefficient (Nat.pow 10 (-exponent).toNat)

/-- The double nearest to a whole number of at most 64 bits. -/
def ofMagnitude (negative : Bool) (n : Nat) (bound : n < 0x10000000000000000) : Double where
  negative := negative
  significand := (roundUnits (inUnits n) 1).1
  shift := (roundUnits (inUnits n) 1).2
  significand_lt := roundUnits_lt ..
  shift_le := by
    have small : shiftFor (inUnits n) 1 ≤ 1085 := shiftFor_le (a := 64) bound (by decide)
    simp only [roundUnits]
    split <;> omega
  normal := roundUnits_normal ..

end Double
end Criteria
