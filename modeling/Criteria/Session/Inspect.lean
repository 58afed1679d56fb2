import Criteria.Session.State
import Criteria.Text.Quoted

/-!
# Inspection

The one-line descriptions of registries, definitions, validators and handles.
-/

namespace Criteria
set_option autoImplicit false

namespace Inspect

/-- A named record with its fields. -/
def record (name : String) (fields : List (String × String)) : String :=
  let fields := fields.map fun (field, text) => field ++ ": " ++ text
  name ++ " \x7b " ++ ", ".intercalate fields ++ " \x7d"

/-- A list of texts in brackets. -/
def bracketed (texts : List String) : String := "[" ++ ", ".intercalate texts ++ "]"

/-- A template that may be absent. -/
def optional : Option String → String
  | some text => "Some(" ++ Text.quoted text ++ ")"
  | none => "None"

/-- A registry is described by the names of its rules. -/
def registry (r : Registry) : String :=
  record "RuleRegistry" [("rules", bracketed (r.names.map Text.quoted))]

/-- A definition is described by its name and its templates. -/
def definition (name : String) (templates : Templates) : String :=
  record "RuleDefinition"
    [("name", Text.quoted name), ("message", optional templates.plain),
      ("negated_message", optional templates.negated)]

/-- A validator is described by its combinator and its size. -/
def validator (v : Validator) : String :=
  let combinator := match v.combinator with
    | .all => "All"
    | .any => "Any"
  record "Validator" [("combinator", combinator), ("clauses", v.size.repr)]

/-- A handle is described by whether it is settled. -/
def handle (settled : Bool) : String :=
  record "Settle" [("settled", if settled then "true" else "false")]

end Inspect
end Criteria
