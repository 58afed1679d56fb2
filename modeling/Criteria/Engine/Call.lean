import Criteria.Engine.Evaluation

/-!
# Calls

A call of a validator runs its list with the call's own completion at the end of the route. What was
seen before the call returned is returned; what comes later goes to the completion. A call can still
complete as long as some unsettled handle that leads to it is kept.
-/

namespace Criteria
set_option autoImplicit false

/-- The failure of a call that can never complete. -/
def Failure.abandoned (value : Json) : Failure :=
  { message := "Validation was abandoned before every rule settled", value, rule := none
    negated := false, params := [], nested := [], cause := none }

namespace Engine

/-- Calls a validator. The number of the call is `e.calls.size`. -/
def call (validator : Validator) (value : Json) (e : Engine) : Result × Engine :=
  let id := e.calls.size
  let e := { e with calls := e.calls.add ⟨value, none, none, none⟩ }
  let place : Place := ⟨.call id, []⟩
  let (passed, e) :=
    runList .all validator.checks.length value place (.call id)
      (startAll value place 0 validator.checks) e
  let result : Result := match (e.calls.get? id).bind (·.failure) with
    | some f => .error f
    | none => .ok passed
  (result, (e.updateCall id fun c => { c with returned := some result }).note (.returned id result))

/-- Evaluates the body of a definition outside of any call, with the given handle, or with one that
nobody else has; tells how it replied and whether the handle is settled. -/
def evaluateLoose (d : Definition) (value : Json) (params : List Json) (handle : Option Handle)
    (e : Engine) : Reply × Bool × Engine :=
  let handle := handle.getD (.detached e.loosePlace)
  let (reply, e) := evaluate d.name value params e.loosePlace handle d.body e.takeLoose
  (reply, e.isSettled handle.place, e)

/-- Makes a handle that nobody asks for, and keeps it. -/
def parkDetached (e : Engine) : Engine := e.takeLoose.park (.detached e.loosePlace)

/-- Whether a result on this route reaches the completion of a call: every list on the way still
awaits its decision and no handle on the way is settled. -/
def leadsTo (e : Engine) (call : Nat) : Route → Bool
  | .call id => id == call
  | .list place _ _ onward => e.isAwaited place && e.leadsTo call onward
  | .detached _ => false
  | .answer place _ onward => !e.isSettled place && e.leadsTo call onward

/-- Whether some kept handle can still bring a call to completion. -/
def canComplete (e : Engine) (call : Nat) : Bool :=
  e.parked.any fun slot => slot.any fun handle => e.leadsTo call handle.route

/-- The outcome of a call: the failure that it returned, or what its completion received, or that it
was abandoned. There is none as long as the call can complete. -/
def outcome? (e : Engine) (call : Nat) : Option Result :=
  match e.calls.get? call with
  | none => none
  | some { returned := some (.error f), .. } => some (.error f)
  | some { completed := some result, .. } => some result
  | some { value, .. } => if e.canComplete call then none else some (.error (.abandoned value))

end Engine
end Criteria
