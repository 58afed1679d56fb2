import Criteria.Number.Shortest

/-!
# How numbers are written

A `NumeralStyle` holds the decisions of a textual format: which scientific exponents are written
with a plain point, whether a whole number keeps a fraction, up to where whole numbers are written
digit for digit, and which of two equally short decimals is meant. The digits themselves come from
`Double.shortest`.
-/

namespace Criteria
set_option autoImplicit false

/-- The decisions of a textual format for doubles. -/
structure NumeralStyle where
  /-- The choice between two equally near shortest decimals. -/
  tie : Tie
  /-- Whole numbers below this bound are written with their exact digits. -/
  exactBelow : Nat
  /-- The scientific exponents that are written positionally. -/
  positional : Int → Bool
  /-- Whether a whole number in positional form ends in `.0`. -/
  pointed : Bool

namespace Decimal

/-- The decimal in positional form. -/
def positional (pointed : Bool) (d : Decimal) : String :=
  let digits := d.digits
  let zeros (n : Nat) : List Char := List.replicate n '0'
  if 0 ≤ d.exponent then
    String.ofList (digits ++ zeros d.exponent.toNat) ++ if pointed then ".0" else ""
  else
    let places := (-d.exponent).toNat
    if places < digits.length then
      let whole := digits.length - places
      String.ofList (digits.take whole ++ '.' :: digits.drop whole)
    else String.ofList ('0' :: '.' :: zeros (places - digits.length) ++ digits)

/-- The decimal with one digit before the point and a signed exponent of ten. -/
def exponential (d : Decimal) : String :=
  let mantissa := match d.digits with
    | [] => []
    | [digit] => [digit]
    | digit :: rest => digit :: '.' :: rest
  let sign := if d.scientific < 0 then "e-" else "e+"
  String.ofList mantissa ++ sign ++ d.scientific.natAbs.repr

end Decimal

namespace Double

/-- The absolute value in the given style. -/
def magnitudeText (style : NumeralStyle) (d : Double) : String :=
  if d.isIntegral ∧ d.magnitude / one < style.exactBelow then (d.magnitude / one).repr
  else
    let decimal := d.shortest style.tie
    if style.positional decimal.scientific then decimal.positional style.pointed
    else decimal.exponential

/-- The number in the given style; the sign of zero is written. -/
def text (style : NumeralStyle) (d : Double) : String :=
  (if d.negative then "-" else "") ++ d.magnitudeText style

end Double
end Criteria
