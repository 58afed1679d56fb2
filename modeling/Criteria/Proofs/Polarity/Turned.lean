import Criteria.Proofs.Run.Move
import Mathlib.Data.List.Infix

/-!
# Clauses of the other polarity

Choose some rule clauses by the places at which they are put to values: one clause of a validator is
chosen by the places that it gets in the calls and in the rules that use the validator. A run is turned
by negating these clauses, or no longer negating them, and by giving every answer that is meant for them
the other way round: those of their own bodies, those that other bodies give through a kept handle, and
those that come from outside. Rejections stay as they are. Everything else stays as it is as well.

A validator that serves as a rule has no answer of its own to turn, so a chosen clause must have another
rule, and its handle must not be lent to a validator (`Engine.Eligible`).
-/

namespace Criteria
set_option autoImplicit false

/-! ## Answers and questions -/

/-- The answer the other way round, if it is to be turned; a rejection stays. -/
def Answer.turn (turned : Bool) : Answer → Answer
  | .ok holds => .ok (holds ^^ turned)
  | .error cause => .error cause

/-- The reply with its answer turned. -/
def Reply.turn (turned : Bool) : Reply → Reply
  | .now holds => .now (holds ^^ turned)
  | .later => .later

/-- The question of the other polarity, if it is to be turned. -/
def Question.turn (turned : Bool) (q : Question) : Question :=
  { q with negated := q.negated ^^ turned }

/-! ## Bodies and checks -/

section

variable (chosen : Place → Bool) (marked : Nat → Bool)

/-- The action with its answer turned: one for the body's own handle if that is to be turned, one for a
kept handle if its number is marked. -/
def Action.turn (turned : Bool) : Action → Action
  | .park => .park
  | .settle answer => .settle (answer.turn turned)
  | .settleParked index answer => .settleParked index (answer.turn (marked index))

/-- The plan with all answers turned. -/
def Plan.turn (turned : Bool) (plan : Plan) : Plan :=
  ⟨plan.actions.map (Action.turn marked turned), plan.reply.turn turned⟩

mutual

/-- The body that stands at a place, with its answers turned. -/
def Body.turn (turned : Bool) (p : Place) : Body → Body
  | .test holds => .test fun value params => holds value params ^^ turned
  | .scripted plan => .scripted fun q value params => (plan q value params).turn marked turned
  | .validator age checks => .validator age (Check.turnAll p 0 checks)

/-- The check of a place, turned where a clause is chosen. -/
def Check.turn (p : Place) : Check → Check
  | .rule definition name body negated params =>
    .rule definition name (Body.turn (chosen p) p body) (negated ^^ chosen p) params
  | .group members => .group (Check.turnAll p 0 members)

/-- The checks of the list at a place, the first at `position`. -/
def Check.turnAll (p : Place) (position : Nat) : List Check → List Check
  | [] => []
  | check :: rest => Check.turn (p.member position) check :: Check.turnAll p (position + 1) rest

end

mutual

/-- Whether no answer of a validator is to be turned when the body stands at a place. -/
def Body.Eligible (turned : Bool) (p : Place) : Body → Prop
  | .test _ => True
  | .scripted _ => True
  | .validator _ checks => turned = false ∧ Check.AllEligible p 0 checks

/-- Whether no chosen clause of the check of a place has a validator as its rule. -/
def Check.Eligible (p : Place) : Check → Prop
  | .rule _ _ body _ _ => Body.Eligible (chosen p) p body
  | .group members => Check.AllEligible p 0 members

/-- Whether no chosen clause of the checks at a place has a validator as its rule. -/
def Check.AllEligible (p : Place) (position : Nat) : List Check → Prop
  | [] => True
  | check :: rest =>
    Check.Eligible (p.member position) check ∧ Check.AllEligible p (position + 1) rest

end

theorem Check.length_turnAll (p : Place) (checks : List Check) : ∀ position,
    (Check.turnAll chosen marked p position checks).length = checks.length := by
  induction checks with
  | nil =>
    intro position
    rw [turnAll]
  | cons check rest ih =>
    intro position
    rw [turnAll, List.length_cons, List.length_cons, ih]

/-! ## Handles -/

/-- Whether the handle belongs to a chosen clause. -/
def Handle.isChosen : Handle → Bool
  | .detached _ => false
  | .asked p _ _ => chosen p

/-- The handle of the turned clause. -/
def Handle.turn : Handle → Handle
  | .detached p => .detached p
  | .asked p question onward => .asked p (question.turn (chosen p)) onward

/-- Whether a route passes through no answer to a chosen clause. -/
def Route.Free : Route → Prop
  | .call _ => True
  | .list _ _ _ onward => onward.Free
  | .detached _ => True
  | .answer p _ onward => chosen p = false ∧ onward.Free

/-- Whether the judgement of the handle's answer goes along a free route. -/
def Handle.Free : Handle → Prop
  | .detached _ => True
  | .asked _ _ onward => onward.Free chosen

end

section

variable {chosen : Place → Bool}

theorem Question.turn_false (q : Question) : q.turn false = q := by
  simp only [Question.turn, Bool.xor_false]

theorem Answer.turn_false (answer : Answer) : answer.turn false = answer := by
  cases answer with
  | ok holds => simp only [Answer.turn, Bool.xor_false]
  | error cause => rfl

/-- A handle that is not chosen leads along a free route, in the turned run as well. -/
theorem Handle.Free.route {handle : Handle} (free : handle.Free chosen)
    (other : handle.isChosen chosen = false) : handle.route.Free chosen := by
  cases handle with
  | detached p => trivial
  | asked p question onward => exact ⟨other, free⟩

theorem Handle.route_turn {handle : Handle} (other : handle.isChosen chosen = false) :
    (handle.turn chosen).route = handle.route := by
  cases handle with
  | detached p => rfl
  | asked p question onward =>
    have other : chosen p = false := other
    rw [Handle.turn, other, Question.turn_false]

end

/-! ## Runs -/

section

variable (chosen : Place → Bool) (marked : Nat → Bool)

/-- The move in the turned run, where the engine has got to this. -/
def Move.turn (e : Engine) : Move → Move
  | .call v value =>
    .call { v with checks := Check.turnAll chosen marked (.ofCall e.calls.size) 0 v.checks } value
  | .settle index answer => .settle index (answer.turn (marked index))
  | .evaluate d value params handle =>
    .evaluate { d with body := Body.turn chosen marked (handle.any marked) e.loosePlace d.body }
      value params handle
  | m => m

/-- Whether a move turns no answer of a validator, and logs events of registries only. -/
def Move.Eligible (e : Engine) : Move → Prop
  | .call v _ => Check.AllEligible chosen (.ofCall e.calls.size) 0 v.checks
  | .evaluate d _ _ handle => Body.Eligible chosen (handle.any marked) e.loosePlace d.body
  | .log event => event.Logged
  | _ => True

namespace Engine

/-- The moves of the turned run, from an engine on. -/
def turnMoves (e : Engine) : List Move → List Move
  | [] => []
  | m :: moves => m.turn chosen marked e :: turnMoves (e.move m) moves

/-- Whether moves from an engine on turn no answer of a validator. -/
def Eligible (e : Engine) : List Move → Prop
  | [] => True
  | m :: moves => m.Eligible chosen marked e ∧ Eligible (e.move m) moves

/-- Whether the number of a kept handle is that of a chosen clause, at any time of a run. -/
def marks (e : Engine) (moves : List Move) (index : Nat) : Bool :=
  moves.inits.any fun before => ((e.run before).parked? index).any (Handle.isChosen chosen)

theorem turnMoves_append (moves more : List Move) : ∀ e : Engine,
    e.turnMoves chosen marked (moves ++ more) =
      e.turnMoves chosen marked moves ++ (e.run moves).turnMoves chosen marked more := by
  induction moves with
  | nil => exact fun _ => rfl
  | cons m moves ih =>
    intro e
    rw [List.cons_append, turnMoves, turnMoves, ih (e.move m)]
    rfl

theorem eligible_append {moves more : List Move} : ∀ {e : Engine},
    e.Eligible chosen marked (moves ++ more) ↔
      e.Eligible chosen marked moves ∧ (e.run moves).Eligible chosen marked more := by
  induction moves with
  | nil =>
    intro e
    rw [List.nil_append, Eligible, true_and]
    rfl
  | cons m moves ih =>
    intro e
    rw [List.cons_append, Eligible, Eligible, ih, and_assoc]
    rfl

end Engine

end
end Criteria
