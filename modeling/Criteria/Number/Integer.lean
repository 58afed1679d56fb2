import Criteria.Number.Rounding

/-!
# Integers of one machine word

The integers that a number literal denotes exactly: those that fit a signed or an unsigned word of
64 bits. Comparisons across number kinds go through the nearest double.
-/

namespace Criteria
set_option autoImplicit false

/-- An integer that fits a signed or an unsigned word of 64 bits. -/
structure Integer where
  value : Int
  lower : -0x8000000000000000 ≤ value
  upper : value < 0x10000000000000000
deriving DecidableEq

namespace Integer

/-- The integer with the given value, if it fits a word. -/
def ofInt? (value : Int) : Option Integer :=
  if h : -0x8000000000000000 ≤ value ∧ value < 0x10000000000000000 then some ⟨value, h.1, h.2⟩
  else none

theorem natAbs_lt (n : Integer) : n.value.natAbs < 0x10000000000000000 := by
  have := n.lower
  have := n.upper
  omega

/-- The double nearest to the integer. -/
def toDouble (n : Integer) : Double :=
  .ofMagnitude (decide (n.value < 0)) n.value.natAbs n.natAbs_lt

/-- The decimal numeral. -/
def text (n : Integer) : String :=
  (if n.value < 0 then "-" else "") ++ n.value.natAbs.repr

/-- Whether the integer fits a signed word. -/
def isSigned (n : Integer) : Bool := n.value < 0x8000000000000000

end Integer
end Criteria
