import Criteria.Json.Basic

/-!
# Failures

What a value that is not accepted is told: a leaf for a failed rule clause, or the aggregate of a
group whose alternatives all failed. A failure is a tree; it can be counted, flattened, written out
line by line and written as a document.
-/

namespace Criteria
set_option autoImplicit false

/-- A failed clause, with the failures of its alternatives if it is a group. -/
structure Failure where
  /-- The message, filled in. -/
  message : String
  /-- The value that was tested. -/
  value : Json
  /-- The failed rule; a group has none. -/
  rule : Option String
  /-- Whether the failed clause was negated. -/
  negated : Bool
  /-- The parameters of the failed clause. -/
  params : List Json
  /-- The failures of the alternatives. -/
  nested : List Failure
  /-- Why the rule could not be evaluated, if it could not. -/
  cause : Option String
deriving Inhabited

namespace Failure

/-- The failure of a plain rule clause without parameters. -/
def ofRule (rule message : String) (value : Json) : Failure :=
  { message, value, rule := some rule, negated := false, params := [], nested := [], cause := none }

/-- The failure of a group. -/
def aggregate (value : Json) (nested : List Failure) : Failure :=
  { message := "All " ++ nested.length.repr ++ " alternatives failed", value, rule := none
    negated := false, params := [], nested, cause := none }

/-- Whether the failure holds failures of alternatives. -/
def isAggregate (f : Failure) : Bool := !f.nested.isEmpty

mutual

/-- The number of failures in the tree. -/
def count : Failure → Nat
  | ⟨_, _, _, _, _, nested, _⟩ => 1 + countAll nested

/-- The number of failures in the trees of a list. -/
def countAll : List Failure → Nat
  | [] => 0
  | f :: rest => count f + countAll rest

end

mutual

/-- The failures of the tree, each before its alternatives. -/
def flatten : Failure → List Failure
  | ⟨message, value, rule, negated, params, nested, cause⟩ =>
    ⟨message, value, rule, negated, params, nested, cause⟩ :: flattenAll nested

/-- The failures of the trees of a list. -/
def flattenAll : List Failure → List Failure
  | [] => []
  | f :: rest => flatten f ++ flattenAll rest

end

/-- The message and the cause, if there is one. -/
def headline (message : String) (cause : Option String) : String :=
  match cause with
  | some text => message ++ " (caused by: " ++ text ++ ")"
  | none => message

/-- What stands before the headline of the alternative at `position`, counted from one. -/
def label (depth position : Nat) : String :=
  String.ofList (List.replicate (2 * depth) ' ') ++ position.repr ++ ". "

mutual

/-- The failure in words, its alternatives indented below it. -/
def displayAt (depth : Nat) : Failure → String
  | ⟨message, _, _, _, _, nested, cause⟩ =>
    headline message cause ++ displayNested (depth + 1) 1 nested

/-- The alternatives in words, each on a line of its own. -/
def displayNested (depth position : Nat) : List Failure → String
  | [] => ""
  | f :: rest =>
    "\n" ++ label depth position ++ displayAt depth f ++ displayNested depth (position + 1) rest

end

/-- The failure in words. -/
def display (f : Failure) : String := displayAt 0 f

mutual

/-- Equality of failures, values compared as whole values. -/
def same : Failure → Failure → Bool
  | ⟨m, v, r, n, p, ns, c⟩, ⟨m', v', r', n', p', ns', c'⟩ =>
    m == m' && v == v' && r == r' && n == n' && Json.sameItems p p' && sameAll ns ns' && c == c'

/-- Equality of lists of failures, one by one. -/
def sameAll : List Failure → List Failure → Bool
  | [], [] => true
  | f :: fs, g :: gs => same f g && sameAll fs gs
  | _, _ => false

end

instance : BEq Failure := ⟨same⟩

mutual

/-- The failure as a document; the lists of alternatives and the cause are left out if absent. -/
def toJson : Failure → Json
  | ⟨message, value, rule, negated, params, nested, cause⟩ =>
    Json.ofMembers <|
      [("message", .str message), ("tested_value", value),
        ("rule", match rule with | some name => .str name | none => .null),
        ("negated", .bool negated), ("params", .arr params)] ++
      (if nested.isEmpty then [] else [("nested", .arr (toJsonAll nested))]) ++
      (match cause with
        | some text => [("cause", .str text)]
        | none => [])

/-- The failures of a list as documents. -/
def toJsonAll : List Failure → List Json
  | [] => []
  | f :: rest => toJson f :: toJsonAll rest

end

end Failure
end Criteria
