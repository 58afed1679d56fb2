import Criteria.Proofs.Journal.Outcome

/-!
# What a journal says about rule bodies

The journal notes each invocation of a rule body with the place where it stands, the name of its rule,
the tested value and the parameters. `invocations` lists them in the order in which they happened.
-/

namespace Criteria
set_option autoImplicit false

/-- An invocation of a rule body. -/
structure Invocation where
  place : Place
  rule : String
  value : Json
  params : List Json

/-- The invocation that an event notes. -/
def Event.invocation? : Event → Option Invocation
  | .invoked place rule _ value params => some ⟨place, rule, value, params⟩
  | _ => none

/-- The invocations that a journal notes, in the order in which they happened. -/
def invocations (journal : Journal) : List Invocation :=
  journal.reverse.filterMap Event.invocation?

@[simp] theorem invocations_nil : invocations [] = [] := rfl

theorem invocations_append (news earlier : Journal) :
    invocations (news ++ earlier) = invocations earlier ++ invocations news := by
  rw [invocations, List.reverse_append, List.filterMap_append, invocations, invocations]

theorem invocations_cons (event : Event) (earlier : Journal) :
    invocations (event :: earlier) = invocations earlier ++ event.invocation?.toList := by
  rw [invocations, List.reverse_cons, List.filterMap_append, invocations]
  cases noted : event.invocation? <;> simp [noted]

end Criteria
