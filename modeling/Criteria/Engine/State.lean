import Criteria.Engine.Progress
import Criteria.Engine.Route
import Criteria.Engine.Store

/-!
# Engine state

All that changes while validators run: the templates of the definitions, which handles are settled,
the lists in progress, the calls, the handles that are kept for later, and the journal of what
happened.
-/

namespace Criteria
set_option autoImplicit false

/-- What has come of a call of a validator. -/
structure Call where
  /-- The tested value. -/
  value : Json
  /-- The failure that was seen before the call returned. -/
  failure : Option Failure
  /-- What the call returned. -/
  returned : Option Result
  /-- What its completion received. -/
  completed : Option Result

/-- Something that happened. -/
inductive Event where
  /-- A rule body was invoked. -/
  | invoked (place : Place) (rule : String) (scripted : Bool) (value : Json) (params : List Json)
  /-- The question of a place got its answer, which was judged. -/
  | judged (place : Place) (answer : Answer) (result : Result)
  /-- The one who settled the handle of a place first was told this. -/
  | told (place : Place) (report : Report)
  /-- A scripted body settled a handle and was told this. -/
  | settledBy (rule : String) (report : Report)
  /-- The completion of a call ran. -/
  | completed (call : Nat) (result : Result)
  /-- A call returned. -/
  | returned (call : Nat) (result : Result)
  /-- The settled handle of a place was settled again, without effect. -/
  | repeated (place : Place)
  /-- A rule was registered, in place of one of the same name or not. -/
  | registered (registry : Nat) (rule : String) (replaced : Bool)
  /-- A rule was removed. -/
  | removed (registry : Nat) (rule : String)
  /-- A validator with this many clauses was built. -/
  | built (checks : Nat)

/-- The state of all running validations. -/
structure Engine where
  /-- The templates of the definitions, by their numbers. -/
  templates : Store Templates
  /-- The places whose handles are settled. -/
  settled : List Place
  /-- The lists that were opened, each at its place. -/
  lists : Board Progress
  /-- The calls that were made. -/
  calls : Store Call
  /-- The number of loose places in use. -/
  loose : Nat
  /-- The handles that were parked or made, in that order; a dropped one leaves a gap. -/
  parked : List (Option Handle)
  /-- What happened, the latest first. -/
  journal : List Event

namespace Engine

/-- The engine before anything happened. -/
def empty : Engine := ⟨.empty, [], .empty, .empty, 0, [], []⟩

instance : Inhabited Engine := ⟨empty⟩

/-- Notes what happened. -/
def note (e : Engine) (event : Event) : Engine := { e with journal := event :: e.journal }

/-- The templates of a definition. -/
def templatesOf (e : Engine) (definition : Nat) : Templates :=
  (e.templates.get? definition).getD ⟨none, none⟩

/-- Adds the templates of a new definition, whose number is `e.templates.size`. -/
def define (e : Engine) (templates : Templates) : Engine :=
  { e with templates := e.templates.add templates }

/-- Replaces the template of one polarity. -/
def setTemplate (e : Engine) (definition : Nat) (negated : Bool) (template : Option String) :
    Engine :=
  { e with templates := e.templates.update definition fun t => t.set negated template }

/-- Whether the handle of a place is settled. -/
def isSettled (e : Engine) (place : Place) : Bool := e.settled.contains place

/-- Marks the handle of a place as settled. -/
def markSettled (e : Engine) (place : Place) : Engine := { e with settled := place :: e.settled }

/-- Puts the progress of the list at a place. -/
def putList (e : Engine) (place : Place) (progress : Progress) : Engine :=
  { e with lists := e.lists.put place progress }

/-- Whether a failure has decided the list at a place. -/
def isRejected (e : Engine) (place : Place) : Bool :=
  ((e.lists.get? place).map (·.isRejected)).getD false

/-- What the results of the list at a place have come to so far. -/
def passed (e : Engine) (place : Place) : Bool :=
  ((e.lists.get? place).map (·.passed)).getD false

/-- Whether the decision of the list at a place is still awaited. -/
def isAwaited (e : Engine) (place : Place) : Bool :=
  ((e.lists.get? place).map (·.awaited)).getD false

/-- The next loose place. -/
def loosePlace (e : Engine) : Place := ⟨.loose e.loose, []⟩

/-- Takes the next loose place. -/
def takeLoose (e : Engine) : Engine := { e with loose := e.loose + 1 }

/-- Changes what has come of a call. -/
def updateCall (e : Engine) (call : Nat) (change : Call → Call) : Engine :=
  { e with calls := e.calls.update call change }

/-- Keeps a handle for later. -/
def park (e : Engine) (handle : Handle) : Engine := { e with parked := e.parked ++ [some handle] }

/-- The parked handle of the given number. -/
def parked? (e : Engine) (index : Nat) : Option Handle := e.parked[index]?.join

/-- Forgets a parked handle. -/
def dropParked (e : Engine) (index : Nat) : Engine :=
  { e with parked := e.parked.set index none }

end Engine
end Criteria
