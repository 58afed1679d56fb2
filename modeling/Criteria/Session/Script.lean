import Criteria.Rule.Body

/-!
# Scripted bodies

A small language for rule bodies: tests on the value and the parameters, and actions on settlement
handles. A script gives a plan for each value, the same at all places; only its tests look at the
value. A body that no script describes is given by its plans.
-/

namespace Criteria
set_option autoImplicit false

/-- A comparison of the tested value with a parameter. -/
inductive Comparison where
  | equal
  | greaterThan
  | lessThan
  | atLeast
  | atMost
  | isDefined
  | hasType
deriving DecidableEq, Repr

/-- Whether a comparison holds. Only a string names a type, and being defined needs no parameter. -/
def Comparison.holds : Comparison → Json → Json → Bool
  | equal, a, b => a.equal b
  | greaterThan, a, b => a.greaterThan b
  | lessThan, a, b => a.lessThan b
  | atLeast, a, b => a.atLeast b
  | atMost, a, b => a.atMost b
  | isDefined, a, _ => a.isDefined
  | hasType, a, .str name => a.hasType name
  | hasType, _, _ => false

/-- A test of a value, given the parameters of the clause. -/
inductive ScriptTest where
  | constant (holds : Bool)
  /-- Holds for the even integers of a signed word. -/
  | even
  /-- Holds if the first parameter is true. -/
  | param
  | compare (comparison : Comparison) (index : Nat)
deriving DecidableEq, Repr

/-- Whether a test holds. -/
def ScriptTest.holds : ScriptTest → Json → List Json → Bool
  | constant b, _, _ => b
  | even, .int n, _ => n.isSigned && n.value % 2 == 0
  | even, _, _ => false
  | param, _, .bool true :: _ => true
  | param, _, _ => false
  | compare comparison index, value, params => comparison.holds value (params.getD index .null)

/-- How a parked handle is meant. Handles are numbered from zero in the order in which they were
parked or made. -/
inductive HandleRef where
  /-- The handle of the given number. -/
  | numbered (index : Nat)
  /-- A handle that was never made: what names it is not a natural number. -/
  | unmade
deriving DecidableEq, Repr

/-- One action of a script. -/
inductive ScriptAction where
  | park
  | settle (answer : Answer)
  | settleTest (test : ScriptTest)
  | settleParked (handle : HandleRef) (answer : Answer)

/-- The action of a script for one value. Settling a handle that was never made is no action. -/
def ScriptAction.plan? (value : Json) (params : List Json) : ScriptAction → Option Action
  | park => some .park
  | settle answer => some (.settle answer)
  | settleTest test => some (.settle (.ok (test.holds value params)))
  | settleParked (.numbered index) answer => some (.settleParked index answer)
  | settleParked .unmade _ => none

/-- The source of a rule body. -/
inductive BodySource where
  /-- A standard rule, by name. -/
  | standard (name : String)
  /-- A validator of the session, by name. -/
  | validator (name : String)
  | test (test : ScriptTest)
  | script (actions : List ScriptAction) (reply : Reply)
  /-- Any other body, by what it does where it is invoked. -/
  | planned (plan : Place → Json → List Json → Plan)

namespace BodySource

/-- The plan of a test: no action, and the answer at once. -/
def testPlan (test : ScriptTest) (_ : Place) (value : Json) (params : List Json) : Plan :=
  ⟨[], .now (test.holds value params)⟩

/-- The plan of a script. -/
def scriptPlan (actions : List ScriptAction) (reply : Reply) (_ : Place) (value : Json)
    (params : List Json) : Plan :=
  ⟨actions.filterMap (ScriptAction.plan? value params), reply⟩

end BodySource
end Criteria
