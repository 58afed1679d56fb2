import Criteria.Number.Integer

/-!
# JSON values

A number is an integer of one word or a finite double, and the two kinds stay apart: `5` and `5.0`
are different values. The members of an object are listed by key in code point order, each key once;
`insertMember` keeps that order. `same` is equality of whole values, in which the two floating zeros
are equal.
-/

namespace Criteria
set_option autoImplicit false

/-- A JSON value. -/
inductive Json where
  | null
  | bool (b : Bool)
  | int (n : Integer)
  | float (d : Double)
  | str (s : String)
  | arr (items : List Json)
  | obj (members : List (String × Json))
deriving Inhabited

namespace Json

mutual

/-- Equality of whole values; numbers of different kinds differ. -/
def same : Json → Json → Bool
  | null, null => true
  | bool a, bool b => a == b
  | int a, int b => a == b
  | float a, float b => a.equal b
  | str a, str b => a == b
  | arr a, arr b => sameItems a b
  | obj a, obj b => sameMembers a b
  | _, _ => false

/-- Equality of arrays, item by item. -/
def sameItems : List Json → List Json → Bool
  | [], [] => true
  | a :: as, b :: bs => same a b && sameItems as bs
  | _, _ => false

/-- Equality of objects, member by member. -/
def sameMembers : List (String × Json) → List (String × Json) → Bool
  | [], [] => true
  | (k, a) :: as, (l, b) :: bs => k == l && same a b && sameMembers as bs
  | _, _ => false

end

instance : BEq Json := ⟨same⟩

/-- The member of the given key. -/
def member? (key : String) : List (String × Json) → Option Json
  | [] => none
  | (k, v) :: rest => if k = key then some v else member? key rest

/-- Puts a member in its place by key; it replaces a member of the same key. -/
def insertMember (key : String) (value : Json) : List (String × Json) → List (String × Json)
  | [] => [(key, value)]
  | (k, v) :: rest =>
    if key < k then (key, value) :: (k, v) :: rest
    else if k = key then (key, value) :: rest
    else (k, v) :: insertMember key value rest

/-- The object with the given members; of two members with one key the later counts. -/
def ofMembers (members : List (String × Json)) : Json :=
  .obj (members.foldl (fun sorted (key, value) => insertMember key value sorted) [])

/-- The name of the value's type. -/
def typeName : Json → String
  | null => "null"
  | bool _ => "boolean"
  | int _ => "number"
  | float _ => "number"
  | str _ => "string"
  | arr _ => "array"
  | obj _ => "object"

/-- Whether the value is anything but null. -/
def isDefined : Json → Bool
  | null => false
  | _ => true

/-- The number that the value denotes, as a double. -/
def number? : Json → Option Double
  | int n => some n.toDouble
  | float d => some d
  | _ => none

end Json
end Criteria
