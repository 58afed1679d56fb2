import Criteria.Number.Double

/-!
# The shortest decimal of a double

Among the decimals that round to a given double, the shortest are those on the coarsest grid
`10 ^ k` that meets its rounding interval; of these the nearest is taken. On each grid only the two
neighbours of the exact value can be candidates, and they are compared in whole numbers.
-/

namespace Criteria
set_option autoImplicit false

/-- A nonnegative decimal, `coefficient · 10 ^ exponent`. -/
structure Decimal where
  coefficient : Nat
  exponent : Int
deriving DecidableEq, Repr

namespace Decimal

/-- The decimal digits of the coefficient. -/
def digits (d : Decimal) : List Char := Nat.toDigits 10 d.coefficient

/-- The exponent when one digit stands before the point. -/
def scientific (d : Decimal) : Int := d.exponent + (d.digits.length - 1 : Nat)

/-- The same decimal without zeros at the end of its coefficient. -/
def trim (coefficient : Nat) (exponent : Int) : Decimal :=
  if coefficient ≠ 0 ∧ coefficient % 10 = 0 then trim (coefficient / 10) (exponent + 1)
  else ⟨coefficient, exponent⟩
termination_by coefficient
decreasing_by omega

end Decimal

/-- Which of two equally near decimals is taken. -/
inductive Tie where
  | toEven
  | upward
deriving DecidableEq

namespace Double

/-- How far the rounding interval reaches below the magnitude, in quarter steps: two, but one when
the next smaller double lies half as far away as the next larger one. -/
def reachBelow (d : Double) : Nat :=
  if d.significand = 0x10000000000000 ∧ d.shift ≠ 0 then 1 else 2

/-- Whether `num / den` units round to `d`: the ends of the interval do if the significand is
even. -/
def roundsFrom (d : Double) (num den : Nat) : Bool :=
  let step := den <<< d.shift
  let low := (4 * d.significand - d.reachBelow) * step
  let high := (4 * d.significand + 2) * step
  if d.significand % 2 = 0 then low ≤ 4 * num && 4 * num ≤ high
  else low < 4 * num && 4 * num < high

/-- The position of the leading decimal digit of `num / den`. -/
def leadingExponent (num den : Nat) : Int :=
  if den ≤ num then ((Nat.toDigits 10 (num / den)).length - 1 : Nat)
  else -((Nat.toDigits 10 ((den - 1) / num)).length : Int)

/-- The multiple of `10 ^ exponent` nearest to the magnitude among those that round to it. -/
def onGrid? (tie : Tie) (d : Double) (exponent : Int) : Option Nat :=
  let up := Nat.pow 10 exponent.toNat
  let down := Nat.pow 10 (-exponent).toNat
  let num := d.magnitude * down
  let den := one * up
  let below := num / den
  let rest := num % den
  let lower := d.roundsFrom (below * den) down
  let upper := d.roundsFrom ((below + 1) * den) down
  let nearer : Nat :=
    if 2 * rest < den then below
    else if den < 2 * rest then below + 1
    else match tie with
      | .toEven => below + below % 2
      | .upward => below + 1
  match lower, upper with
  | true, true => some nearer
  | true, false => some below
  | false, true => some (below + 1)
  | false, false => none

/-- The shortest decimal that rounds to the magnitude of `d`. Seventeen digits always suffice. -/
def shortest (tie : Tie) (d : Double) : Decimal :=
  if d.significand = 0 then ⟨0, 0⟩
  else
    let leading := leadingExponent d.magnitude one
    let grid (n : Nat) : Option Decimal :=
      (d.onGrid? tie (leading - n)).map fun c => Decimal.trim c (leading - n)
    ((List.range 17).findSome? grid).getD ⟨d.magnitude, 0⟩

end Double
end Criteria
