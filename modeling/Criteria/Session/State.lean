import Criteria.Engine.Call
import Criteria.Session.Command

/-!
# Session state

A session names registries, definitions, validators and futures, and runs one engine for all of
them. The registry that every session starts with has number zero and holds the default rules.
-/

namespace Criteria
set_option autoImplicit false

/-- The state of a session. -/
structure Session where
  engine : Engine
  registries : Store Registry
  registryNames : List (String × Nat)
  definitions : List (String × Definition)
  validators : List (String × Validator)
  /-- The calls that futures stand for. -/
  futures : List (String × Nat)
  /-- The labels of the calls whose completions are noted. -/
  labels : List (Nat × Json)

namespace Session

/-- The number of the registry that sessions share. -/
def sharedRegistry : Nat := 0

/-- The session before any registry is made. -/
def empty : Session := ⟨.empty, .empty, [], [], [], [], []⟩

/-- Notes what happened. -/
def note (s : Session) (event : Event) : Session := { s with engine := s.engine.note event }

/-- The number of the registry of the given name. -/
def registryNumber? (s : Session) (name : String) : Option Nat := s.registryNames.lookup name

/-- The registry of the given number. -/
def registry (s : Session) (number : Nat) : Registry := (s.registries.get? number).getD .empty

/-- Makes a definition; it is registered nowhere yet. -/
def define (s : Session) (name : String) (body : Body) (templates : Templates) :
    Definition × Session :=
  (⟨s.engine.templates.size, name, body⟩, { s with engine := s.engine.define templates })

/-- Registers a definition in the registry of the given number. -/
def register (s : Session) (number : Nat) (d : Definition) : Session :=
  let replaced := (s.registry number).contains d.name
  { s with registries := s.registries.update number fun r => r.insert d }.note
    (.registered number d.name replaced)

/-- Defines a standard rule and registers it. -/
def installRule (number : Nat) (s : Session) (rule : StandardRule) : Session :=
  let (d, s) := s.define rule.name rule.body rule.templates
  s.register number d

/-- Defines standard rules and registers them in order. -/
def install (s : Session) (number : Nat) (rules : List StandardRule) : Session :=
  rules.foldl (installRule number) s

/-- The standard rules of a new registry. -/
def startRules (defaults extras : Bool) : List StandardRule :=
  (if defaults then StandardRule.defaults else []) ++ (if extras then StandardRule.extras else [])

/-- Gives a name to a registry. -/
def openRegistry (s : Session) (name : String) : RegistrySource → Nat × Session
  | .shared =>
    (sharedRegistry, { s with registryNames := (name, sharedRegistry) :: s.registryNames })
  | .fresh defaults extras =>
    let number := s.registries.size
    let s := { s with
      registries := s.registries.add .empty
      registryNames := (name, number) :: s.registryNames }
    (number, s.install number (startRules defaults extras))

/-- The session in which nothing happened yet: the shared registry holds the default rules. -/
def fresh : Session :=
  let s := { empty with registries := Store.empty.add .empty }
  let s := s.install sharedRegistry StandardRule.defaults
  { s with engine := { s.engine with journal := [] } }

/-- The body that a source stands for, if what it names exists. -/
def body? (s : Session) : BodySource → Option Body
  | .standard name => (StandardRule.ofName? name).map (·.body)
  | .validator name => (s.validators.lookup name).map (·.body)
  | .test test => some (.scripted (BodySource.testPlan test))
  | .script actions reply => some (.scripted (BodySource.scriptPlan actions reply))
  | .planned plan => some (.scripted plan)

/-- The definition that is meant, as seen from a registry. -/
def definition? (s : Session) (number : Nat) : DefinitionRef → Option Definition
  | .held name => s.definitions.lookup name
  | .registered name => (s.registry number).lookup? name

/-- The handle that is meant, if it was made and is not forgotten. -/
def handle? (s : Session) : HandleRef → Option Handle
  | .numbered index => s.engine.parked? index
  | .unmade => none

/-- Holds a definition under a name, if one is given. -/
def hold (s : Session) (name : Option String) (d : Definition) : Session :=
  match name with
  | some name => { s with definitions := (name, d) :: s.definitions }
  | none => s

end Session
end Criteria
