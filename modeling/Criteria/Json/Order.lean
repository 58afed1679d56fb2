import Criteria.Json.Basic

/-!
# Comparing values

Two numbers are compared as doubles, two strings by code point, and no other pair is ordered.
`equal` is equality of whole values except that two numbers are equal if their doubles are.
-/

namespace Criteria.Json
set_option autoImplicit false

/-- The order of two numbers or of two strings. -/
def compare? : Json → Json → Option Ordering
  | str a, str b => some (if a < b then .lt else if a = b then .eq else .gt)
  | a, b =>
    match a.number?, b.number? with
    | some x, some y => some (x.compare y)
    | _, _ => none

/-- Equality as rules see it: `5` equals `5.0`, and `5` differs from `"5"`. -/
def equal (a b : Json) : Bool :=
  match a.number?, b.number? with
  | some x, some y => x.equal y
  | _, _ => a.same b

/-- Whether `a` comes after `b`. -/
def greaterThan (a b : Json) : Bool := compare? a b == some .gt

/-- Whether `a` comes before `b`. -/
def lessThan (a b : Json) : Bool := compare? a b == some .lt

/-- Whether `a` comes after `b` or beside it. -/
def atLeast (a b : Json) : Bool := compare? a b == some .gt || compare? a b == some .eq

/-- Whether `a` comes before `b` or beside it. -/
def atMost (a b : Json) : Bool := compare? a b == some .lt || compare? a b == some .eq

/-- Whether the value's type has the given name. -/
def hasType (a : Json) (name : String) : Bool := a.typeName == name

end Criteria.Json
