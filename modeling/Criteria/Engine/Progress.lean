import Criteria.Validator

/-!
# Lists in progress

While the checks of a list report their results one by one, the list keeps what they have come to so
far. A conjunction is decided by its first failure, after which it keeps nothing more; a disjunction
by its last check. `take` gives the new progress, the decision if there is one, and what the one who
brought the result is told when nobody waits for the decision.
-/

namespace Criteria
set_option autoImplicit false

/-- What the checks of a list have come to. -/
structure Progress where
  /-- The results so far, combined. -/
  passed : Bool
  /-- The number of checks without a result. -/
  pending : Nat
  /-- The first failure of a conjunction. -/
  rejection : Option Failure
  /-- The failures of a disjunction, in the order of their arrival. -/
  failures : List Failure
  /-- Whether the decision is still awaited. -/
  awaited : Bool
deriving Inhabited

/-- What a list makes of the result of one of its checks. -/
structure Intake where
  progress : Progress
  decision : Option Result
  report : Report

namespace Progress

/-- A list of `size` checks, none of which has a result. -/
def start (combinator : Combinator) (size : Nat) : Progress where
  passed := combinator.identity
  pending := size
  rejection := none
  failures := []
  awaited := true

/-- Whether a failure has decided the list. -/
def isRejected (p : Progress) : Bool := p.rejection.isSome

/-- A conjunction takes a result: the first failure rejects it, later results change nothing, but
the failures among them are still told. -/
def takeAll (p : Progress) (result : Result) : Intake :=
  match p.rejection, result with
  | some _, .ok _ => ⟨p, none, .ok ()⟩
  | some _, .error f => ⟨p, none, .error f⟩
  | none, .ok passed =>
    let p := { p with passed := p.passed && passed, pending := p.pending - 1 }
    if p.pending = 0 then ⟨p, some (.ok p.passed), .ok ()⟩ else ⟨p, none, .ok ()⟩
  | none, .error f =>
    ⟨{ p with passed := false, rejection := some f }, some (.error f), .error f⟩

/-- The outcome of a disjunction without pending checks. -/
def alternative (p : Progress) (value : Json) : Result :=
  if p.passed then .ok true else .error (.aggregate value p.failures)

/-- A disjunction takes a result: it collects failures and is decided by its last check. -/
def takeAny (p : Progress) (value : Json) (result : Result) : Intake :=
  let p := match result with
    | .ok passed => { p with passed := p.passed || passed, pending := p.pending - 1 }
    | .error f => { p with failures := p.failures ++ [f], pending := p.pending - 1 }
  if p.pending = 0 then ⟨p, some (p.alternative value), (p.alternative value).map fun _ => ()⟩
  else ⟨p, none, .ok ()⟩

/-- A list takes the result of one of its checks. -/
def take (p : Progress) (combinator : Combinator) (value : Json) (result : Result) : Intake :=
  match combinator with
  | .all => p.takeAll result
  | .any => p.takeAny value result

end Progress

/-- What the bringer of a decisive result is told, given what passing the decision on has raised: a
conjunction's own failure is told even if it went no further, a disjunction's only if it did. -/
def Combinator.tell (combinator : Combinator) (own raised : Report) : Report :=
  match combinator, raised with
  | .all, .error f => .error f
  | .all, .ok () => own
  | .any, raised => raised

end Criteria
