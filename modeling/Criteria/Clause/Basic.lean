import Criteria.Json.Printer

/-!
# Clauses

A clause names a rule, plain or negated, with its parameters, or it is a group of alternatives. A
rule reference is a name behind at most one negation mark. `BuildError` collects what can be wrong
with a list of clauses.
-/

namespace Criteria
set_option autoImplicit false

/-- One element of a validator's declaration. -/
inductive Clause where
  | rule (name : String) (negated : Bool) (params : List Json)
  | group (members : List Clause)
deriving Inhabited

/-- What keeps a document from being a clause or a list of clauses. -/
inductive ClauseFault where
  /-- An object with this many keys instead of one. -/
  | keyCount (count : Nat)
  /-- A value that is no clause. -/
  | notClause (found : Json)
  /-- A value that is no list of clauses. -/
  | notList (found : Json)
  /-- A group without members. -/
  | emptyGroup

/-- Why a list of clauses makes no validator. -/
inductive BuildError where
  | undefinedRule (name : String)
  | malformed (fault : ClauseFault)
  | emptyRuleName

namespace ClauseFault

/-- The fault in words. -/
def message : ClauseFault → String
  | keyCount n => "a parameterized clause needs exactly one key, found " ++ n.repr
  | notClause found =>
    "expected a rule name, a single-key object or an array, found " ++ found.print
  | notList found => "expected a clause list, found " ++ found.print
  | emptyGroup => "a group needs at least one clause"

end ClauseFault

namespace BuildError

/-- The error in words. -/
def message : BuildError → String
  | undefinedRule name => "undefined rule \"" ++ name ++ "\""
  | malformed fault => "malformed clause: " ++ fault.message
  | emptyRuleName => "clause has an empty rule name"

end BuildError

namespace Clause

/-- The mark before the name of a negated rule. -/
def negationMark : Char := '!'

/-- Whether a reference is negated, and the name behind its mark. -/
def splitReference (reference : String) : Bool × String :=
  match reference.toList with
  | c :: rest => if c = negationMark then (true, String.ofList rest) else (false, reference)
  | [] => (false, reference)

/-- A reference with its parameters. -/
def ofReference (reference : String) (params : List Json) : Clause :=
  let (negated, name) := splitReference reference
  .rule name negated params

/-- The clause with the other polarity; a group has none. -/
def negate : Clause → Clause
  | rule name negated params => .rule name (!negated) params
  | group members => .group members

/-- A reference without parameters, refused if it names no rule. -/
def ofName (reference : String) : Except BuildError Clause :=
  let (negated, name) := splitReference reference
  if name.isEmpty then .error .emptyRuleName else .ok (.rule name negated [])

end Clause
end Criteria
