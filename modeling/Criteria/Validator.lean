import Criteria.Clause.Document
import Criteria.Registry

/-!
# Validators

A validator is a conjunction of checks. Building one resolves the clauses, in declared order and
depth first, against a registry; the first clause that cannot be resolved is reported. A list read
from a document is reported for its form before any of its rules is looked up.
-/

namespace Criteria
set_option autoImplicit false

/-- How the checks of a list combine. -/
inductive Combinator where
  /-- Every check must pass. -/
  | all
  /-- One check must pass. -/
  | any
deriving DecidableEq, Repr

/-- What an empty list of checks comes to. -/
def Combinator.identity : Combinator → Bool
  | .all => true
  | .any => false

/-- A compiled list of clauses, all of which must pass. -/
structure Validator where
  /-- The number of definitions that existed when the validator was built. -/
  age : Nat
  checks : List Check

mutual

/-- Resolves a clause against a registry. -/
def Clause.resolve (registry : Registry) : Clause → Except BuildError Check
  | .rule name negated params =>
    if name.isEmpty then .error .emptyRuleName
    else
      match registry.lookup? name with
      | some d => .ok (.rule d.id d.name d.body negated params)
      | none => .error (.undefinedRule name)
  | .group members =>
    if members.isEmpty then .error (.malformed .emptyGroup)
    else (Clause.resolveAll registry members).map .group

/-- Resolves clauses one after the other. -/
def Clause.resolveAll (registry : Registry) : List Clause → Except BuildError (List Check)
  | [] => .ok []
  | clause :: rest => do
    let check ← clause.resolve registry
    let more ← Clause.resolveAll registry rest
    .ok (check :: more)

end

namespace Validator

/-- Builds a validator from clauses. -/
def build (age : Nat) (registry : Registry) (clauses : List Clause) : Except BuildError Validator :=
  (Clause.resolveAll registry clauses).map fun checks => ⟨age, checks⟩

/-- Builds a validator from a document. -/
def ofJson (age : Nat) (registry : Registry) (document : Json) : Except BuildError Validator :=
  match Clause.listOfJson document with
  | .ok clauses => build age registry clauses
  | .error fault => .error (.malformed fault)

/-- The number of clauses of the list itself. -/
def size (v : Validator) : Nat := v.checks.length

/-- Whether the list has no clauses, so that every value is accepted. -/
def isEmpty (v : Validator) : Bool := v.checks.isEmpty

/-- The list of a validator is a conjunction. -/
def combinator (_ : Validator) : Combinator := .all

/-- The validator as the body of a rule. -/
def body (v : Validator) : Body := .validator v.age v.checks

end Validator
end Criteria
