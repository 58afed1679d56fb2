import Criteria.Session.Script
import Criteria.Validator

/-!
# Commands and responses

What a session can be asked to do, and what it answers. Registries, definitions, validators and
futures go by names, handles by numbers. The label of a call can be any value.
-/

namespace Criteria
set_option autoImplicit false

/-- Which registry a name is given to. -/
inductive RegistrySource where
  /-- A registry of its own, with the given sets of standard rules. -/
  | fresh (defaults extras : Bool)
  /-- The registry that is there from the start; every name given to it means the same one. -/
  | shared
deriving DecidableEq, Repr

/-- How a definition is meant. -/
inductive DefinitionRef where
  /-- The definition held under a name. -/
  | held (name : String)
  /-- The definition registered under a name. -/
  | registered (name : String)
deriving DecidableEq, Repr

/-- The clauses of a validator, as a document or as they are. -/
inductive ClauseSource where
  | document (json : Json)
  | clauses (list : List Clause)

/-- What a session is asked to do. -/
inductive Command where
  /-- Gives the step's registry name to a registry. -/
  | openRegistry (source : RegistrySource)
  | addRule (name : String) (body : BodySource) (templates : Templates)
  | addDefinition (name : String) (body : BodySource) (templates : Templates) (hold : Option String)
  | install (rules : List StandardRule)
  | lookup (definition : DefinitionRef) (hold : Option String)
  | remove (name : String) (hold : Option String)
  | setTemplate (definition : DefinitionRef) (negated : Bool) (template : Option String)
  | contains (name : String)
  | names
  | evaluate (definition : DefinitionRef) (value : Json) (params : List Json)
    (handle : Option HandleRef)
  | build (name : String) (source : ClauseSource)
  | validate (validator : String) (value : Json)
  /-- Validates, and notes the completion under a label. -/
  | validateWith (validator : String) (value : Json) (label : Json)
  /-- Validates, and keeps the outcome as a future. -/
  | validateAsync (validator : String) (value : Json) (future : String)
  | poll (future : String)
  | makeHandle
  | settle (handle : HandleRef) (answer : Answer)
  | isSettled (handle : HandleRef)
  | dropHandle (handle : HandleRef)
  | inspectRegistry
  | inspectDefinition (definition : DefinitionRef)
  | inspectValidator (validator : String)
  | inspectHandle (handle : HandleRef)
  /-- Asks for something that does not exist. -/
  | unknown

/-- A command and the registry in which it works. -/
structure Step where
  registry : String
  command : Command

/-- What a session answers. -/
inductive Response where
  /-- Something that was named is not there. -/
  | missing
  | nothing
  | flag (b : Bool)
  | size (n : Nat)
  | definition (name : String) (templates : Templates)
  | names (list : List String)
  | evaluated (reply : Reply) (settled : Bool)
  | built (validator : Validator)
  | notBuilt (error : BuildError)
  | result (result : Result)
  | pending
  | report (report : Report)
  | handle (index : Nat)
  | dropped (b : Bool)
  | text (s : String)

/-- What a session lets see of the events of a step. -/
inductive Notice where
  /-- A scripted body was invoked. -/
  | called (rule : String) (value : Json) (params : List Json)
  /-- A scripted body settled a handle and was told this. -/
  | settledBy (rule : String) (report : Report)
  /-- The completion of a labelled call ran. -/
  | completed (label : Json) (result : Result)
  | registered (rule : String) (replaced : Bool)
  | removed (rule : String)
  | built (checks : Nat)
  /-- A settled handle was settled again. -/
  | repeated

end Criteria
