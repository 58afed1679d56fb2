import Criteria.Engine.Call
import Criteria.Proofs.Engine.Delivery
import Criteria.Proofs.Run.Advance

/-!
# Who submits what to which list

Each time a list takes in a result, one of its members submits it. `Submission.run` goes along with a run of moves
and lists all these submissions in order, each with the record that the list holds before it takes the result in.
The functions here follow those of the engine: each lists what the function of its name makes lists take in, and
they change nothing. That they list just what lists take in is `Conduct.run_tapped`.
-/

namespace Criteria
set_option autoImplicit false

/-- A member of a list submits its result. -/
structure Submission where
  /-- Whose result it is. -/
  member : Place
  list : Place
  result : Result
  /-- The record that takes the result in. -/
  record : Progress

namespace Submission

/-- The list at a place takes in the result of a member; its decision, if still awaited, goes to `next`. -/
def takeIn (place : Place) (combinator : Combinator) (value : Json) (member : Place) (result : Result)
    (next : Result → Engine → List Submission) (e : Engine) : List Submission :=
  match e.lists.get? place with
  | none => []
  | some record =>
    let intake := record.take combinator value result
    ⟨member, place, result, record⟩ ::
      match intake.decision with
      | some decision =>
        if record.awaited then next decision (e.putList place { intake.progress with awaited := false })
        else []
      | none => []

/-- The first answer to the question of a place is judged, and the judgement goes to `next`. -/
def answer (place : Place) (question : Question) (answer : Answer) (next : Result → Engine → List Submission)
    (e : Engine) : List Submission :=
  if e.isSettled place then []
  else
    let e := e.markSettled place
    let result := question.judge (e.templatesOf question.definition) answer
    next result (e.note (.judged place answer result))

/-- The result of what stands at `source` goes along a route. A list passes on its decision as a member of the next
one, and a handle the judgement of its place. -/
def deliver : Route → Place → Result → Engine → List Submission
  | .call _, _, _, _ => []
  | .list place combinator value onward, source, result, e =>
    takeIn place combinator value source result (deliver onward place) e
  | .detached _, _, _, _ => []
  | .answer place question onward, _, result, e =>
    answer place question (.ok result.holds) (deliver onward place) e

/-- A handle is settled. -/
def settle (handle : Handle) (given : Answer) (e : Engine) : List Submission :=
  match handle with
  | .detached _ => []
  | .asked place question onward => answer place question given (deliver onward place) e

/-- A scripted body performs an action. -/
def perform (own : Handle) (e : Engine) : Action → List Submission
  | .park => []
  | .settle given => settle own given e
  | .settleParked index given =>
    match e.parked? index with
    | none => []
    | some handle => settle handle given e

/-- A scripted body performs its actions. -/
def performAll (rule : String) (own : Handle) : List Action → Engine → List Submission
  | [], _ => []
  | action :: actions, e => perform own e action ++ performAll rule own actions (e.perform rule own action)

/-- A list is evaluated: its checks are started by `start`. -/
def runList (combinator : Combinator) (size : Nat) (value : Json) (place : Place) (onward : Route)
    (start : Route → Engine → List Submission) (e : Engine) : List Submission :=
  if size = 0 then deliver onward place (.ok combinator.identity) e
  else start (.list place combinator value onward) (e.putList place (.start combinator size))

/-- An evaluated body may have answered, and then its handle is settled. -/
def heed (handle : Handle) : Reply × Engine → List Submission
  | (.now holds, e) => settle handle (.ok holds) e
  | (.later, _) => []

mutual

/-- A rule body is invoked. -/
def evaluate (rule : String) (value : Json) (params : List Json) (place : Place) (handle : Handle) :
    Body → Engine → List Submission
  | .test _, _ => []
  | .scripted plan, e =>
    performAll rule handle (plan place value params).actions
      (e.note (.invoked place rule true value params))
  | .validator _ checks, e =>
    runList .all checks.length value place handle.route (startAll value place 0 checks)
      (e.note (.invoked place rule false value params))

/-- The check of a place is started. -/
def start (value : Json) (place : Place) (into : Route) : Check → Engine → List Submission
  | .rule definition name body negated params, e =>
    let handle := .asked place ⟨definition, name, negated, params, value⟩ into
    evaluate name value params place handle body e ++
      heed handle (Engine.evaluate name value params place handle body e)
  | .group members, e => runList .any members.length value place into (startAll value place 0 members) e

/-- The checks of the list at a place are started until it is rejected. -/
def startAll (value : Json) (place : Place) (position : Nat) : List Check → Route → Engine → List Submission
  | [], _, _ => []
  | check :: rest, into, e =>
    if e.isRejected place then []
    else
      start value (place.member position) into check e ++
        startAll value place (position + 1) rest into
          (Engine.start value (place.member position) into check e)

end

/-- A validator is called. -/
def call (v : Validator) (value : Json) (e : Engine) : List Submission :=
  runList .all v.checks.length value (.ofCall e.calls.size) (.call e.calls.size)
    (startAll value (.ofCall e.calls.size) 0 v.checks) (e.enter value)

/-- A rule body is evaluated outside of any call. -/
def evaluateLoose (d : Definition) (value : Json) (params : List Json) (handle : Option Handle) (e : Engine) :
    List Submission :=
  evaluate d.name value params e.loosePlace (handle.getD (.detached e.loosePlace)) d.body e.takeLoose

/-- A move is made. -/
def move (e : Engine) : Move → List Submission
  | .call validator value => call validator value e
  | .settle index given =>
    match e.parked? index with
    | some handle => settle handle given e
    | none => []
  | .evaluate definition value params none => evaluateLoose definition value params none e
  | .evaluate definition value params (some index) =>
    match e.parked? index with
    | some handle => evaluateLoose definition value params (some handle) e
    | none => []
  | _ => []

/-- Moves are made in order. -/
def run : List Move → Engine → List Submission
  | [], _ => []
  | m :: moves, e => move e m ++ run moves (e.move m)

end Submission
end Criteria
