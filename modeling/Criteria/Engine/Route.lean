import Criteria.Engine.Place
import Criteria.Message.Template
import Criteria.Validator

/-!
# Routes

A route says where a result goes: up through the lists in progress and the rule answers that wait
for it, to the completion of a call or to nobody. It is fixed when a list is opened or a handle is
made, so it is a finite chain. A handle is the place on a route where a rule's answer enters.
-/

namespace Criteria
set_option autoImplicit false

/-- A rule clause, put to a value. -/
structure Question where
  definition : Nat
  rule : String
  negated : Bool
  params : List Json
  value : Json

namespace Question

/-- The failure of the clause, in the words of the given templates. -/
def failure (q : Question) (templates : Templates) : Failure :=
  let message := match templates.ofPolarity q.negated with
    | some template => Message.render ⟨q.value, q.params, q.negated⟩ template
    | none => Message.generic q.rule
  { Failure.ofRule q.rule message q.value with negated := q.negated, params := q.params }

/-- Judges an answer: it must differ from the polarity, and a missing answer fails either way. -/
def judge (q : Question) (templates : Templates) : Answer → Result
  | .ok holds => if holds = q.negated then .error (q.failure templates) else .ok true
  | .error cause => .error { q.failure templates with cause := some cause }

end Question

/-- Where a result goes. -/
inductive Route where
  /-- To the completion of a call. -/
  | call (call : Nat)
  /-- Into the list at a place, and what that comes to goes onward. -/
  | list (place : Place) (combinator : Combinator) (value : Json) (onward : Route)
  /-- To nobody, through a handle that can be settled once. -/
  | detached (place : Place)
  /-- Through a handle as the answer to a question, and the judgement goes onward. -/
  | answer (place : Place) (question : Question) (onward : Route)

/-- The one-shot right to answer a rule's question. -/
inductive Handle where
  /-- Nobody asks. -/
  | detached (place : Place)
  /-- The judgement of the answer goes onward. -/
  | asked (place : Place) (question : Question) (onward : Route)

namespace Handle

/-- The place of the handle. -/
def place : Handle → Place
  | detached place => place
  | asked place _ _ => place

/-- The route of a result that is given as the answer. -/
def route : Handle → Route
  | detached place => .detached place
  | asked place question onward => .answer place question onward

end Handle

/-- The answer that a result amounts to when a validator serves as a rule. -/
def Result.holds : Result → Bool
  | .ok passed => passed
  | .error _ => false

end Criteria
