import Criteria.Engine.Delivery

/-!
# Evaluating checks

Checks are started in declared order, by recursion on the checks. A rule clause makes a handle,
invokes its body and settles the handle if the body answers at once; a group opens a list of its own
that reports to the enclosing one. A conjunction starts no further check once it is rejected.
-/

namespace Criteria
set_option autoImplicit false

namespace Engine

/-- Performs one action of a scripted body. -/
def perform (rule : String) (own : Handle) (e : Engine) : Action → Engine
  | .park => e.park own
  | .settle answer =>
    let (report, e) := settle own answer e
    e.note (.settledBy rule report)
  | .settleParked index answer =>
    match e.parked? index with
    | none => e
    | some handle =>
      let (report, e) := settle handle answer e
      e.note (.settledBy rule report)

/-- Evaluates a list of `size` checks that stands at `place` and reports along `onward`: opens it,
starts the checks by `start`, and gives what they have come to by then. -/
def runList (combinator : Combinator) (size : Nat) (value : Json) (place : Place) (onward : Route)
    (start : Route → Engine → Engine) (e : Engine) : Bool × Engine :=
  if size = 0 then (combinator.identity, (deliver onward (.ok combinator.identity) e).2)
  else
    let e := start (.list place combinator value onward) (e.putList place (.start combinator size))
    (e.passed place, e)

mutual

/-- Invokes a rule body at a place, with a handle for its answer. -/
def evaluate (rule : String) (value : Json) (params : List Json) (place : Place) (handle : Handle) :
    Body → Engine → Reply × Engine
  | .test holds, e =>
    (.now (holds value params), e.note (.invoked place rule false value params))
  | .scripted plan, e =>
    let e := e.note (.invoked place rule true value params)
    ((plan place value params).reply,
      (plan place value params).actions.foldl (perform rule handle) e)
  | .validator _ checks, e =>
    let e := e.note (.invoked place rule false value params)
    (.later,
      (runList .all checks.length value place handle.route (startAll value place 0 checks) e).2)

/-- Starts the check of a place; its result goes along `into`. -/
def start (value : Json) (place : Place) (into : Route) : Check → Engine → Engine
  | .rule definition name body negated params, e =>
    let handle := .asked place ⟨definition, name, negated, params, value⟩ into
    match evaluate name value params place handle body e with
    | (.now holds, e) => (settle handle (.ok holds) e).2
    | (.later, e) => e
  | .group members, e =>
    (runList .any members.length value place into (startAll value place 0 members) e).2

/-- Starts the checks of the list at a place one after the other, the first at `position`, until a
failure has decided the list. -/
def startAll (value : Json) (place : Place) (position : Nat) : List Check → Route → Engine → Engine
  | [], _, e => e
  | check :: rest, into, e =>
    if e.isRejected place then e
    else
      startAll value place (position + 1) rest into
        (start value (place.member position) into check e)

end

end Engine
end Criteria
