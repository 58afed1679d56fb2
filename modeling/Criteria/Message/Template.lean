import Criteria.Message.Placeholder
import Criteria.Text.Occurrence

/-!
# Filling in templates

A template is filled in placeholder by placeholder, each at its first occurrence only. The text that
an earlier placeholder brought in can hold the token of a later one, and is then filled in too.
-/

namespace Criteria
set_option autoImplicit false

/-- Puts the text of one placeholder in place of the first occurrence of its token. -/
def Placeholder.fill (subject : Subject) (message : List Char) (p : Placeholder) : List Char :=
  Text.replaceFirst p.token (p.text subject).toList message

namespace Message

/-- The characters of a filled-in template. -/
def renderChars (subject : Subject) (template : List Char) : List Char :=
  (Placeholder.sequence subject.params.length).foldl (Placeholder.fill subject) template

/-- The template with each placeholder filled in at its first occurrence. -/
def render (subject : Subject) (template : String) : String :=
  String.ofList (renderChars subject template.toList)

/-- The message of a rule that has no template. -/
def generic (rule : String) : String := "Validation did not pass rule \"" ++ rule ++ "\""

end Message
end Criteria
