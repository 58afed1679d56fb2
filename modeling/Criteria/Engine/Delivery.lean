import Criteria.Engine.State

/-!
# Delivering results

A result travels along its route by recursion on the route: a list takes it in and passes on what it
has come to once it is decided, a handle turns it into an answer, and a call either keeps a failure
for its return or runs its completion. The report travels back to the one who settled.
-/

namespace Criteria
set_option autoImplicit false

namespace Engine

/-- A call takes the result of its list: a failure before its return is kept for the return,
anything else is what its completion receives. -/
def complete (e : Engine) (call : Nat) (result : Result) : Report × Engine :=
  match e.calls.get? call, result with
  | none, _ => (.ok (), e)
  | some { returned := none, .. }, .error f =>
    (.error f, e.updateCall call fun c => { c with failure := some f })
  | some _, result =>
    let e := e.updateCall call fun c => { c with completed := some result }
    (result.map fun _ => (), e.note (.completed call result))

/-- The list at a place takes the result of one of its checks; its decision, if still awaited, goes
to `next`. -/
def takeIn (e : Engine) (place : Place) (combinator : Combinator) (value : Json) (result : Result)
    (next : Result → Engine → Report × Engine) : Report × Engine :=
  match e.lists.get? place with
  | none => (.ok (), e)
  | some progress =>
    let intake := progress.take combinator value result
    match intake.decision with
    | some decision =>
      let e := e.putList place { intake.progress with awaited := false }
      if progress.awaited then
        let (raised, e) := next decision e
        (combinator.tell intake.report raised, e)
      else (intake.report, e)
    | none => (intake.report, e.putList place intake.progress)

/-- Settles the handle of a place: the first time by `act`, later without effect. -/
def once (e : Engine) (place : Place) (act : Engine → Report × Engine) : Report × Engine :=
  if e.isSettled place then (.ok (), e.note (.repeated place)) else act (e.markSettled place)

/-- Answers the question of a place: judges the answer by the templates as they are now, sends the
judgement to `next`, and tells what that has come to. -/
def answer (e : Engine) (place : Place) (question : Question) (answer : Answer)
    (next : Result → Engine → Report × Engine) : Report × Engine :=
  e.once place fun e =>
    let result := question.judge (e.templatesOf question.definition) answer
    let (report, e) := next result (e.note (.judged place answer result))
    (report, e.note (.told place report))

/-- Sends a result along its route. -/
def deliver : Route → Result → Engine → Report × Engine
  | .call call, result, e => e.complete call result
  | .list place combinator value onward, result, e =>
    e.takeIn place combinator value result (deliver onward)
  | .detached place, _, e => e.once place fun e => (.ok (), e)
  | .answer place question onward, result, e =>
    e.answer place question (.ok result.holds) (deliver onward)

/-- Settles a handle with an answer. -/
def settle (handle : Handle) (answer : Answer) (e : Engine) : Report × Engine :=
  match handle with
  | .detached place => e.once place fun e => (.ok (), e)
  | .asked place question onward => e.answer place question answer (deliver onward)

end Engine
end Criteria
