import Criteria.Number.Integer
import Mathlib.Algebra.Group.Nat.Defs
import Mathlib.Data.Nat.Log

/-!
# The double nearest to an integer

Rounding a whole number of units divides it by the spacing of the doubles of its size and multiplies back
(`Double.rounded_eq`). So it keeps the order (`Double.rounded_mono`), and no double is nearer to a number than
the one it is rounded to (`Double.rounded_nearest`), whence doubles stay as they are. With the sign put back,
these are the laws of the numbers that stand for integers in comparisons (`Integer.units_toDouble`).
-/

namespace Criteria
set_option autoImplicit false

/-! ## Division with rounding -/

theorem divRound_mono {a b : Nat} (den : Nat) (le : a ≤ b) : divRound a den ≤ divRound b den := by
  rcases Nat.lt_or_ge (a / den) (b / den) with less | more
  · exact (divRound_le a den).trans (less.trans_le (le_divRound b den))
  · -- Both have the same quotient, so the remainders are in order.
    have same : a / den = b / den := Nat.le_antisymm (Nat.div_le_div_right le) more
    have splitA := Nat.div_add_mod a den
    have splitB := Nat.div_add_mod b den
    rw [same] at splitA
    have rest : a % den ≤ b % den := by omega
    simp only [divRound, same]
    split
    · split
      · exact Nat.le_refl _
      · split <;> omega
    · split <;> split <;> (try split) <;> omega

/-- A quotient is rounded down up to the middle between two whole numbers, and up from the middle on. -/
theorem divRound_cases (num den : Nat) :
    divRound num den = num / den ∧ 2 * num ≤ 2 * (num / den * den) + den ∨
      divRound num den = num / den + 1 ∧ 2 * (num / den * den) + den ≤ 2 * num := by
  have parts := Nat.div_add_mod' num den
  simp only [divRound]
  split
  · exact .inl ⟨rfl, by omega⟩
  · split
    · exact .inr ⟨rfl, by omega⟩
    · rcases Nat.mod_two_eq_zero_or_one (num / den) with even | odd
      · exact .inl ⟨by omega, by omega⟩
      · exact .inr ⟨by omega, by omega⟩

namespace Double

/-! ## Rounding whole numbers of units -/

/-- The magnitude of the double that a whole number of units is rounded to. -/
def rounded (num : Nat) : Nat := (roundUnits num 1).1 <<< (roundUnits num 1).2

/-- The distance of neighbouring doubles where `num` lies. -/
def spacing (num : Nat) : Nat := 2 ^ shiftFor num 1

theorem lt_spacing (num : Nat) : num < 2 ^ 53 * spacing num := by
  rw [spacing, ← Nat.pow_add, shiftFor, Nat.div_one]
  refine Nat.lt_log2_self.trans_le (Nat.pow_le_pow_right (by decide) ?_)
  omega

/-- **Rounding is division by the spacing**, to the nearest whole number, and multiplication with it. -/
theorem rounded_eq (num : Nat) : rounded num = divRound num (spacing num) * spacing num := by
  have bound : divRound num (spacing num) ≤ 2 ^ 53 :=
    (divRound_le num _).trans (Nat.div_lt_of_lt_mul (Nat.mul_comm _ _ ▸ lt_spacing num))
  have step : (1 : Nat) <<< shiftFor num 1 = spacing num := Nat.one_shiftLeft _
  rw [rounded, roundUnits]
  simp only [step, Nat.shiftLeft_eq]
  split
  · rfl
  next full =>
    have whole : divRound num (spacing num) = 2 ^ 53 := by omega
    rw [whole, Nat.pow_succ, spacing]
    omega

/-- A multiple of the spacing is not rounded. -/
theorem rounded_of_dvd {num : Nat} (fits : spacing num ∣ num) : rounded num = num := by
  have pos : 0 < spacing num := Nat.two_pow_pos _
  rw [rounded_eq, divRound, Nat.mod_eq_zero_of_dvd fits, if_pos (by simpa using pos),
    Nat.div_mul_cancel fits]

/-- Rounding keeps a number between the powers of two around it. -/
theorem rounded_bounds {num : Nat} (wide : 52 < num.log2) :
    2 ^ num.log2 ≤ rounded num ∧ rounded num ≤ 2 ^ (num.log2 + 1) := by
  have split_ : 2 ^ num.log2 = 2 ^ 52 * spacing num := by
    rw [spacing, ← Nat.pow_add, shiftFor, Nat.div_one]
    congr 1
    omega
  have pos : 0 < spacing num := Nat.two_pow_pos _
  have low : 2 ^ 52 ≤ num / spacing num := by
    rw [Nat.le_div_iff_mul_le pos, ← split_]
    exact Nat.log2_self_le (by rintro rfl; simp at wide)
  have high : num / spacing num < 2 ^ 53 := Nat.div_lt_of_lt_mul (Nat.mul_comm _ _ ▸ lt_spacing num)
  rw [rounded_eq, Nat.pow_succ, split_]
  constructor
  · exact Nat.mul_le_mul_right _ (low.trans (le_divRound _ _))
  · calc divRound num (spacing num) * spacing num
        ≤ 2 ^ 53 * spacing num := Nat.mul_le_mul_right _ ((divRound_le _ _).trans high)
      _ = 2 ^ 52 * spacing num * 2 := by omega

/-- **Rounding keeps the order.** -/
theorem rounded_mono {a b : Nat} (le : a ≤ b) : rounded a ≤ rounded b := by
  have logs : a.log2 ≤ b.log2 := by
    rw [Nat.log2_eq_log_two, Nat.log2_eq_log_two]
    exact Nat.log_mono_right le
  by_cases same : shiftFor a 1 = shiftFor b 1
  · rw [rounded_eq, rounded_eq, spacing, spacing, same]
    exact Nat.mul_le_mul_right _ (divRound_mono _ le)
  · -- A power of two lies between the two, and between what they are rounded to.
    simp only [shiftFor, Nat.div_one] at same
    have upper : rounded a ≤ 2 ^ b.log2 := by
      by_cases wide : 52 < a.log2
      · exact (rounded_bounds wide).2.trans (Nat.pow_le_pow_right (by decide) (by omega))
      · have unit : spacing a = 1 := by
          rw [spacing, shiftFor, Nat.div_one, Nat.sub_eq_zero_of_le (by omega), Nat.pow_zero]
        rw [rounded_of_dvd (unit ▸ Nat.one_dvd a)]
        exact Nat.lt_log2_self.le.trans (Nat.pow_le_pow_right (by decide) (by omega))
    exact upper.trans (rounded_bounds (by omega)).1

/-! ## Doubles around a number -/

/-- No double lies strictly between the two multiples of the spacing around a number. -/
theorem magnitude_outside (d : Double) (num : Nat) :
    d.magnitude ≤ num / spacing num * spacing num ∨
      num / spacing num * spacing num + spacing num ≤ d.magnitude := by
  have pos : 0 < spacing num := Nat.two_pow_pos _
  rcases Nat.lt_or_ge d.shift (shiftFor num 1) with finer | coarser
  · -- The double is below the power of two below the number.
    left
    have wide : 52 < (num / 1).log2 := by
      rw [shiftFor] at finer
      omega
    have low := le_div_shiftFor wide
    rw [Nat.one_shiftLeft] at low
    calc d.magnitude = d.significand * 2 ^ d.shift := Nat.shiftLeft_eq _ _
      _ ≤ 2 ^ 53 * 2 ^ d.shift := Nat.mul_le_mul_right _ d.significand_lt.le
      _ = 2 ^ 52 * 2 ^ (d.shift + 1) := by rw [Nat.pow_succ 2 d.shift]; omega
      _ ≤ 2 ^ 52 * spacing num := Nat.mul_le_mul_left _ (Nat.pow_le_pow_right (by decide) finer)
      _ ≤ num / spacing num * spacing num := Nat.mul_le_mul_right _ low
  · obtain ⟨k, multiple⟩ : spacing num ∣ d.magnitude := by
      rw [magnitude, Nat.shiftLeft_eq]
      exact Nat.dvd_mul_left_of_dvd (Nat.pow_dvd_pow 2 coarser) _
    rw [multiple, Nat.mul_comm, ← Nat.succ_mul]
    rcases Nat.lt_or_ge (num / spacing num) k with above | below
    · exact .inr (Nat.mul_le_mul_right _ above)
    · exact .inl (Nat.mul_le_mul_right _ below)

/-- **No double is nearer to a number than the one it is rounded to.** -/
theorem rounded_nearest (d : Double) (num : Nat) :
    ((num : Int) - rounded num).natAbs ≤ ((num : Int) - d.magnitude).natAbs := by
  have pos : 0 < spacing num := Nat.two_pow_pos _
  have parts := Nat.div_add_mod' num (spacing num)
  have rest := Nat.mod_lt num pos
  have outside := magnitude_outside d num
  rw [rounded_eq]
  obtain ⟨down, near⟩ | ⟨up, near⟩ := divRound_cases num (spacing num)
  · rw [down]
    omega
  · rw [up, Nat.succ_mul]
    omega

/-- Doubles are not rounded. -/
theorem rounded_magnitude (d : Double) : rounded d.magnitude = d.magnitude := by
  have := rounded_nearest d d.magnitude
  omega

/-! ## Signs -/

theorem inUnits_eq (n : Nat) : inUnits n = n * one := by
  -- For any shift, as the number of units of one is too large to be computed here.
  have shifted : ∀ k, n <<< k = n * 1 <<< k := fun k => by rw [Nat.one_shiftLeft, Nat.shiftLeft_eq]
  exact shifted 1074

theorem one_pos : 0 < one := by
  have shifted : ∀ k, 0 < 1 <<< k := fun k => Nat.one_shiftLeft k ▸ Nat.two_pow_pos k
  exact shifted 1074

/-- The units of the double that a number of units is rounded to. -/
def roundedUnits (u : Int) : Int := if u < 0 then -(rounded u.natAbs : Int) else rounded u.natAbs

theorem roundedUnits_mono {u v : Int} (le : u ≤ v) : roundedUnits u ≤ roundedUnits v := by
  rw [roundedUnits, roundedUnits]
  split
  · split
    · have := rounded_mono (show v.natAbs ≤ u.natAbs by omega)
      omega
    · omega
  · have := rounded_mono (show u.natAbs ≤ v.natAbs by omega)
    rw [if_neg (by omega)]
    omega

theorem units_eq (d : Double) : d.units = d.magnitude ∨ d.units = -(d.magnitude : Int) := by
  rw [units]
  split
  · exact .inr rfl
  · exact .inl rfl

theorem roundedUnits_units (d : Double) : roundedUnits d.units = d.units := by
  have kept := rounded_magnitude d
  have size : d.units.natAbs = d.magnitude := by
    have := d.units_eq
    omega
  have := d.units_eq
  rw [roundedUnits, size, kept]
  split <;> omega

/-- No double is nearer than the rounded one, whatever the signs are. -/
theorem roundedUnits_nearest (d : Double) (u : Int) :
    (u - roundedUnits u).natAbs ≤ (u - d.units).natAbs := by
  have sameSide := rounded_nearest d u.natAbs
  have fromZero := rounded_nearest (zero false) u.natAbs
  have none : (zero false).magnitude = 0 := rfl
  have := d.units_eq
  rw [roundedUnits]
  split <;> omega

end Double

namespace Integer

open Double

/-- The integer, counted in units of `2⁻¹⁰⁷⁴`. -/
def units (n : Integer) : Int := n.value * one

/-- **An integer is compared as the double nearest to it.** -/
theorem units_toDouble (n : Integer) : n.toDouble.units = roundedUnits n.units := by
  have size : inUnits n.value.natAbs = n.units.natAbs := by
    rw [units, Int.natAbs_mul, Int.natAbs_natCast, inUnits_eq]
  have sign : n.units < 0 ↔ n.value < 0 := by
    rw [units, ← Int.zero_mul (one : Int)]
    exact Int.mul_lt_mul_right (Int.natCast_pos.2 Double.one_pos)
  have size_ : n.toDouble.magnitude = rounded n.units.natAbs := by
    rw [← size]
    rfl
  rw [Double.units, size_, roundedUnits]
  simp [toDouble, ofMagnitude, sign]

end Integer
end Criteria
