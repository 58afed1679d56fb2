import Criteria.Json.Order
import Criteria.Message.Placeholder
import Criteria.Text.Occurrence

/-!
# Standard rules

The rules that every registry can install: tests that look at the tested value and the parameters of
the clause only. `defaults` hold presence, type, order and equality; `extras` hold containment and
length. Their templates serve both polarities.
-/

namespace Criteria
set_option autoImplicit false

/-- A rule that is decided by a test, with its message template. -/
structure StandardRule where
  name : String
  template : Option String
  test : Json → List Json → Bool

namespace StandardRule

/-- The parameter at `index`; null if it is not bound. -/
def param (params : List Json) (index : Nat) : Json := params.getD index .null

mutual

/-- Whether a parameter names the type of `value`: a string does by itself, an array through one of
its items. -/
def namesType (value : Json) : Json → Bool
  | .str name => value.hasType name
  | .arr items => someNamesType value items
  | _ => false

/-- Whether one of the parameters names the type of `value`. -/
def someNamesType (value : Json) : List Json → Bool
  | [] => false
  | item :: rest => namesType value item || someNamesType value rest

end

/-- Whether an array holds the parameter, a string holds it as a part or an object as a key. -/
def contains : Json → Json → Bool
  | .arr items, needle => items.any fun item => item.equal needle
  | .str text, .str part => Text.occursIn part.toList text.toList
  | .obj members, .str key => (Json.member? key members).isSome
  | _, _ => false

/-- The candidates that parameters list: a single array lists its items. -/
def candidates : List Json → List Json
  | [.arr items] => items
  | params => params

/-- The number of characters, items or keys. -/
def length? : Json → Option Json
  | .str text => (Integer.ofInt? text.length).map .int
  | .arr items => (Integer.ofInt? items.length).map .int
  | .obj members => (Integer.ofInt? members.length).map .int
  | _ => none

/-- Whether the value has a length for which `test` holds. -/
def lengthTest (test : Json → Bool) (value : Json) : Bool := (length? value).any test

/-- The token of a placeholder. -/
def mark (p : Placeholder) : String := String.ofList p.token

/-- The template that says what was expected of `subject`, for both polarities. -/
def expected (subject demand : String) : Option String :=
  some ("Expected " ++ subject ++ " to " ++ mark .negation ++ demand)

/-- The tested value, with its type in front. -/
def typedValue : String := "[" ++ mark .valueType ++ " " ++ mark .value ++ "]"

/-- Passes for every value but null. -/
def defined : StandardRule where
  name := "defined"
  template := expected ("\"" ++ mark .value ++ "\"") "be defined"
  test value _ := value.isDefined

/-- Passes if a parameter names the type of the value. -/
def type : StandardRule where
  name := "type"
  template := expected typedValue ("be of type: " ++ mark .allParams)
  test value params := someNamesType value params

/-- Passes above the bound. -/
def gt : StandardRule where
  name := "gt"
  template := expected (mark .value) ("be greater than " ++ mark (.param 0))
  test value params := value.greaterThan (param params 0)

/-- Passes below the bound. -/
def lt : StandardRule where
  name := "lt"
  template := expected (mark .value) ("be less than " ++ mark (.param 0))
  test value params := value.lessThan (param params 0)

/-- Passes at the bound and above it. -/
def al : StandardRule where
  name := "al"
  template := expected (mark .value) ("be at least " ++ mark (.param 0))
  test value params := value.atLeast (param params 0)

/-- Passes at the bound and below it. -/
def am : StandardRule where
  name := "am"
  template := expected (mark .value) ("be at most " ++ mark (.param 0))
  test value params := value.atMost (param params 0)

/-- Passes within two bounds, both included. -/
def between : StandardRule where
  name := "between"
  template := expected (mark .value)
    ("be between " ++ mark (.param 0) ++ " and " ++ mark (.param 1))
  test value params := value.atLeast (param params 0) && value.atMost (param params 1)

/-- Passes for a value equal to the parameter. -/
def is : StandardRule where
  name := "is"
  template :=
    expected typedValue ("be [" ++ mark (.paramType 0) ++ " " ++ mark (.param 0) ++ "]")
  test value params := value.equal (param params 0)

/-- Passes always. -/
def valid : StandardRule where
  name := "valid"
  template := none
  test _ _ := true

/-- Passes never. -/
def invalid : StandardRule where
  name := "invalid"
  template := none
  test _ _ := false

/-- Passes for a value that contains the parameter. -/
def has : StandardRule where
  name := "has"
  template := expected (mark .value) ("contain " ++ mark (.param 0))
  test value params := contains value (param params 0)

/-- Passes for a value equal to one of the candidates. -/
def oneOf : StandardRule where
  name := "in"
  template := expected (mark .value) ("be one of: " ++ mark .allParams)
  test value params := (candidates params).any fun candidate => value.equal candidate

/-- Passes for a value of the given length. -/
def length : StandardRule where
  name := "length"
  template := expected (mark .value) ("have a length of " ++ mark (.param 0))
  test value params := lengthTest (fun n => n.equal (param params 0)) value

/-- Passes for a value of the given length or a greater one. -/
def minLength : StandardRule where
  name := "minLength"
  template := expected (mark .value) ("have a length of at least " ++ mark (.param 0))
  test value params := lengthTest (fun n => n.atLeast (param params 0)) value

/-- Passes for a value of the given length or a smaller one. -/
def maxLength : StandardRule where
  name := "maxLength"
  template := expected (mark .value) ("have a length of at most " ++ mark (.param 0))
  test value params := lengthTest (fun n => n.atMost (param params 0)) value

/-- The rules of a new registry. -/
def defaults : List StandardRule := [defined, type, gt, lt, al, am, between, is, valid, invalid]

/-- The rules that a registry installs on request. -/
def extras : List StandardRule := [has, oneOf, length, minLength, maxLength]

/-- The standard rule of the given name. -/
def ofName? (name : String) : Option StandardRule :=
  (defaults ++ extras).find? fun rule => rule.name == name

end StandardRule
end Criteria
