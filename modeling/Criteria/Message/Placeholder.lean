import Criteria.Json.Text

/-!
# Placeholders

The tokens that a message template may hold and the text that stands for each: the tested value and
the parameters of the clause, each as plain text, as the name of its type or with its items joined,
all parameters together, and the word "not" of a negated clause.
-/

namespace Criteria
set_option autoImplicit false

/-- What a template is filled in with. -/
structure Subject where
  value : Json
  params : List Json
  negated : Bool

/-- A placeholder of a template. -/
inductive Placeholder where
  | value
  | valueType
  | valueJoin
  | param (index : Nat)
  | paramType (index : Nat)
  | paramJoin (index : Nat)
  | allParams
  | negation
deriving DecidableEq, Repr

namespace Placeholder

/-- The word between the braces of the token. -/
def body : Placeholder → List Char
  | value => "val".toList
  | valueType => "type:val".toList
  | valueJoin => "join:val".toList
  | param i => Nat.toDigits 10 i
  | paramType i => "type:".toList ++ Nat.toDigits 10 i
  | paramJoin i => "join:".toList ++ Nat.toDigits 10 i
  | allParams => "join:param".toList
  | negation => "not".toList

/-- The token that marks the placeholder in a template. -/
def token (p : Placeholder) : List Char := '\x7b' :: p.body ++ ['\x7d']

/-- The text that stands for the placeholder; a parameter that is not bound counts as null. -/
def text (subject : Subject) : Placeholder → String
  | value => subject.value.text
  | valueType => subject.value.typeName
  | valueJoin => subject.value.joined
  | param i => (subject.params.getD i .null).text
  | paramType i => (subject.params.getD i .null).typeName
  | paramJoin i => (subject.params.getD i .null).joined
  | allParams => ", ".intercalate (subject.params.map Json.joined)
  | negation => if subject.negated then "not " else ""

/-- The three placeholders of one parameter. -/
def ofParam (index : Nat) : List Placeholder := [param index, paramType index, paramJoin index]

/-- Every placeholder of a clause with `count` parameters, in the order of substitution. -/
def sequence (count : Nat) : List Placeholder :=
  [value, valueType, valueJoin] ++ (List.range count).flatMap ofParam ++ [allParams, negation]

end Placeholder
end Criteria
