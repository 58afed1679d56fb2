import Criteria.Engine.Place
import Criteria.Failure
import Criteria.Rule.Standard

/-!
# Rule bodies and compiled checks

A rule body is a test, a script that works with settlement handles, or a whole validator. What a
script does may depend on the place where it is invoked: it is invoked at most once there, so a plan
for each place covers bodies that remember earlier invocations or look at what else is going on. A
check is a clause whose rules are resolved: it holds the bodies themselves, so a check is a finite
tree whatever happens to the names later. A validator inside a body carries its age, the number of
definitions that existed when it was built.
-/

namespace Criteria
set_option autoImplicit false

/-- What a rule answers about a value: whether it holds, or why that cannot be told. -/
abbrev Answer := Except String Bool

/-- What becomes of a value that is tested: accepted or not, or refused with a failure. -/
abbrev Result := Except Failure Bool

/-- What the one who settles a handle is told: nothing, or the failure that this caused. -/
abbrev Report := Except Failure Unit

/-- How a rule body returns: with its answer, or leaving that to its handle. -/
inductive Reply where
  | now (holds : Bool)
  | later
deriving DecidableEq

/-- One action of a scripted body. -/
inductive Action where
  /-- Keeps the body's own handle for later. -/
  | park
  /-- Settles the body's own handle. -/
  | settle (answer : Answer)
  /-- Settles the parked handle of the given number; does nothing if it is gone. -/
  | settleParked (index : Nat) (answer : Answer)

/-- What a scripted body does when it is invoked. -/
structure Plan where
  actions : List Action
  reply : Reply

mutual

/-- The body of a rule. -/
inductive Body where
  /-- Holds or not, without looking further. -/
  | test (holds : Json → List Json → Bool)
  /-- Acts on handles, as the place, the value and the parameters say. -/
  | scripted (plan : Place → Json → List Json → Plan)
  /-- Holds for the values that a validator accepts. -/
  | validator (age : Nat) (checks : List Check)

/-- A clause whose rules are resolved. -/
inductive Check where
  | rule (definition : Nat) (name : String) (body : Body) (negated : Bool) (params : List Json)
  | group (members : List Check)

end

/-- A registered rule: its number, its name and its body. -/
structure Definition where
  id : Nat
  name : String
  body : Body

/-- The message templates of a definition, one for each polarity. -/
structure Templates where
  plain : Option String
  negated : Option String
deriving DecidableEq, Inhabited

namespace Templates

/-- The template of the given polarity. -/
def ofPolarity (t : Templates) (negated : Bool) : Option String :=
  if negated then t.negated else t.plain

/-- The templates with the one of the given polarity replaced. -/
def set (t : Templates) (negated : Bool) (template : Option String) : Templates :=
  if negated then { t with negated := template } else { t with plain := template }

end Templates

/-- The definition body of a standard rule. -/
def StandardRule.body (rule : StandardRule) : Body := .test rule.test

/-- The templates of a standard rule: one template for both polarities. -/
def StandardRule.templates (rule : StandardRule) : Templates := ⟨rule.template, rule.template⟩

/-- Whether a body acts on handles by itself. -/
def Body.isScripted : Body → Bool
  | .scripted _ => true
  | _ => false

end Criteria
