import Criteria.Clause.Basic
import Criteria.Json.Reader

/-!
# Clauses as JSON documents

A string is a reference, an object with one key a reference with its parameters, an array a group.
Reading reports the first fault in document order; a fault in the value that a text starts with is
reported before anything after it. Writing puts every rule clause into an object with one key.
-/

namespace Criteria
set_option autoImplicit false

namespace Clause

/-- The parameters that the value of a single-key object binds: the items of an array, or the value
itself. -/
def boundParams : Json → List Json
  | .arr items => items
  | single => [single]

mutual

/-- Reads one clause. -/
def ofJson : Json → Except ClauseFault Clause
  | .str reference => .ok (ofReference reference [])
  | .obj [(reference, params)] => .ok (ofReference reference (boundParams params))
  | .obj members => .error (.keyCount members.length)
  | .arr items => (ofJsonItems items).map .group
  | .null => .error (.notClause .null)
  | .bool b => .error (.notClause (.bool b))
  | .int n => .error (.notClause (.int n))
  | .float d => .error (.notClause (.float d))

/-- Reads clauses one after the other. -/
def ofJsonItems : List Json → Except ClauseFault (List Clause)
  | [] => .ok []
  | item :: rest => do
    let clause ← ofJson item
    let more ← ofJsonItems rest
    .ok (clause :: more)

end

/-- Reads a list of clauses; a string or an object is a list of one clause. -/
def listOfJson : Json → Except ClauseFault (List Clause)
  | .arr items => ofJsonItems items
  | .str reference => (ofJson (.str reference)).map ([·])
  | .obj members => (ofJson (.obj members)).map ([·])
  | other => .error (.notList other)

/-- Why a document holds no clauses. -/
inductive DocumentError where
  /-- The text is not JSON. -/
  | unreadable
  /-- The document is not an array. -/
  | notArray
  | malformed (fault : ClauseFault)

/-- Reads the clauses of an array, and of nothing else. -/
def arrayOfJson : Json → Except DocumentError (List Clause)
  | .arr items => (ofJsonItems items).mapError .malformed
  | _ => .error .notArray

/-- Reads one clause from JSON text. -/
def ofText (text : String) : Except DocumentError Clause :=
  match Json.readFirst? text with
  | none => .error .unreadable
  | some (document, rest) =>
    match ofJson document with
    | .error fault => .error (.malformed fault)
    | .ok clause => if Json.isBlank rest then .ok clause else .error .unreadable

/-- The reference that a name and a polarity are split from. -/
def reference (name : String) (negated : Bool) : String :=
  if negated then String.ofList (negationMark :: name.toList) else name

mutual

/-- Writes a clause as a document. -/
def toJson : Clause → Json
  | rule name negated params => .obj [(reference name negated, .arr params)]
  | group members => .arr (toJsonItems members)

/-- Writes clauses one after the other. -/
def toJsonItems : List Clause → List Json
  | [] => []
  | clause :: rest => toJson clause :: toJsonItems rest

end

end Clause
end Criteria
