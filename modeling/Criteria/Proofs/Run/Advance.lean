import Criteria.Proofs.Run.Move

/-!
# What evaluation never takes back

Evaluation changes an engine in few ways: it notes events, settles handles, puts lists, changes calls,
keeps handles, and begins calls and loose evaluations. A relation of engines that is a preorder and holds
across each of these changes advances (`Advances`), and so it holds across the delivery of results, the
evaluation of bodies and checks, and calls.
-/

namespace Criteria
set_option autoImplicit false

/-- A preorder of engines that holds across each change that evaluation can make. -/
structure Advances (R : Engine → Engine → Prop) : Prop where
  refl : ∀ e, R e e
  trans : ∀ {e e' e''}, R e e' → R e' e'' → R e e''
  note : ∀ e event, R e (e.note event)
  markSettled : ∀ e p, R e (e.markSettled p)
  putList : ∀ e p progress, R e (e.putList p progress)
  updateCall : ∀ e call change, R e (e.updateCall call change)
  park : ∀ e handle, R e (e.park handle)
  enter : ∀ e value, R e (e.enter value)
  takeLoose : ∀ e, R e e.takeLoose

/-- What follows the evaluation of the body of a rule clause: its handle is settled if it answered at
once. -/
def Engine.heed (handle : Handle) : Reply × Engine → Engine
  | (.now holds, e) => (settle handle (.ok holds) e).2
  | (.later, e) => e

theorem Engine.start_rule (e : Engine) (value : Json) (p : Place) (into : Route) (definition : Nat)
    (name : String) (body : Body) (negated : Bool) (params : List Json) :
    start value p into (.rule definition name body negated params) e =
      heed (.asked p ⟨definition, name, negated, params, value⟩ into)
        (evaluate name value params p (.asked p ⟨definition, name, negated, params, value⟩ into)
          body e) := by
  rw [start]
  rfl

namespace Advances

variable {R : Engine → Engine → Prop} (h : Advances R)
include h

/-! ## Delivering and settling -/

theorem complete (e : Engine) (call : Nat) (result : Result) : R e (e.complete call result).2 := by
  unfold Engine.complete
  split
  · exact h.refl e
  · exact h.updateCall e call _
  · exact h.trans (h.updateCall e call _) (h.note _ _)

theorem takeIn (e : Engine) (p : Place) (combinator : Combinator) (value : Json) (result : Result)
    {next : Result → Engine → Report × Engine} (further : ∀ result e, R e (next result e).2) :
    R e (e.takeIn p combinator value result next).2 := by
  unfold Engine.takeIn
  split
  · exact h.refl e
  · dsimp only
    split
    · split
      · exact h.trans (h.putList e p _) (further _ _)
      · exact h.putList e p _
    · exact h.putList e p _

theorem once (e : Engine) (p : Place) {act : Engine → Report × Engine} (acts : ∀ e, R e (act e).2) :
    R e (e.once p act).2 := by
  unfold Engine.once
  split
  · exact h.note e _
  · exact h.trans (h.markSettled e p) (acts _)

theorem answer (e : Engine) (p : Place) (question : Question) (answer : Answer)
    {next : Result → Engine → Report × Engine} (further : ∀ result e, R e (next result e).2) :
    R e (e.answer p question answer next).2 := by
  apply h.once
  intro e
  exact h.trans (h.trans (h.note e _) (further _ _)) (h.note _ _)

/-- Delivery advances, by induction on the route. -/
theorem deliver (route : Route) : ∀ (result : Result) (e : Engine),
    R e (Engine.deliver route result e).2 := by
  induction route with
  | call call => exact fun result e => h.complete e call result
  | list p combinator value onward ih => exact fun result e => h.takeIn e p combinator value result ih
  | detached p => exact fun _ e => h.once e p h.refl
  | answer p question onward ih => exact fun result e => h.answer e p question _ ih

theorem settle (handle : Handle) (answer : Answer) (e : Engine) :
    R e (Engine.settle handle answer e).2 := by
  cases handle with
  | detached p => exact h.once e p h.refl
  | asked p question onward => exact h.answer e p question answer (h.deliver onward)

/-! ## Evaluating -/

theorem heed {e : Engine} (handle : Handle) {evaluated : Reply × Engine} (before : R e evaluated.2) :
    R e (Engine.heed handle evaluated) := by
  obtain ⟨reply, e'⟩ := evaluated
  cases reply with
  | now holds => exact h.trans before (h.settle handle _ e')
  | later => exact before

theorem perform (rule : String) (own : Handle) (e : Engine) (action : Action) :
    R e (Engine.perform rule own e action) := by
  cases action with
  | park => exact h.park e own
  | settle answer => exact h.trans (h.settle own answer e) (h.note _ _)
  | settleParked index answer =>
    rw [Engine.perform]
    split
    · exact h.refl e
    · exact h.trans (h.settle _ answer e) (h.note _ _)

theorem performAll (rule : String) (own : Handle) (actions : List Action) : ∀ e : Engine,
    R e (actions.foldl (Engine.perform rule own) e) := by
  induction actions with
  | nil => exact h.refl
  | cons action actions ih => exact fun e => h.trans (h.perform rule own e action) (ih _)

theorem runList (combinator : Combinator) (size : Nat) (value : Json) (p : Place) (onward : Route)
    {start : Route → Engine → Engine} (starts : ∀ route e, R e (start route e)) (e : Engine) :
    R e (Engine.runList combinator size value p onward start e).2 := by
  unfold Engine.runList
  split
  · exact h.deliver onward _ e
  · exact h.trans (h.putList e p _) (starts _ _)

mutual

theorem evaluate (rule : String) (params : List Json) : (body : Body) →
    ∀ (value : Json) (p : Place) (handle : Handle) (e : Engine),
      R e (Engine.evaluate rule value params p handle body e).2
  | .test holds => by
    intro value p handle e
    rw [Engine.evaluate]
    exact h.note e _
  | .scripted plan => by
    intro value p handle e
    rw [Engine.evaluate]
    exact h.trans (h.note e _) (h.performAll rule handle _ _)
  | .validator age checks => by
    intro value p handle e
    rw [Engine.evaluate]
    exact h.trans (h.note e _)
      (h.runList _ _ _ _ _ (fun route e => Advances.startAll checks value p 0 route e) _)

theorem start : (check : Check) → ∀ (value : Json) (p : Place) (into : Route) (e : Engine),
    R e (Engine.start value p into check e)
  | .rule definition name body negated params => by
    intro value p into e
    rw [Engine.start_rule]
    exact h.heed _ (Advances.evaluate name params body value p _ e)
  | .group members => by
    intro value p into e
    rw [Engine.start]
    exact h.runList _ _ _ _ _ (fun route e => Advances.startAll members value p 0 route e) e

theorem startAll : (checks : List Check) → ∀ (value : Json) (p : Place) (position : Nat)
    (into : Route) (e : Engine), R e (Engine.startAll value p position checks into e)
  | [] => by
    intro value p position into e
    rw [Engine.startAll]
    exact h.refl e
  | check :: rest => by
    intro value p position into e
    rw [Engine.startAll]
    split
    · exact h.refl e
    · exact h.trans (Advances.start check value _ into e)
        (Advances.startAll rest value p _ into _)

end

/-! ## Moves -/

theorem conclude {e : Engine} (call : Nat) {started : Bool × Engine} (before : R e started.2) :
    R e (Engine.conclude call started).2 := by
  obtain ⟨passed, e'⟩ := started
  exact h.trans before (h.trans (h.updateCall e' call _) (h.note _ _))

theorem call (v : Validator) (value : Json) (e : Engine) : R e (e.call v value).2 := by
  rw [Engine.call_eq]
  apply h.conclude
  exact h.trans (h.enter e value) (h.runList _ _ _ _ _ (fun route e =>
    h.startAll v.checks value _ 0 route e) _)

theorem evaluateLoose (d : Definition) (value : Json) (params : List Json) (handle : Option Handle)
    (e : Engine) : R e (e.evaluateLoose d value params handle).2.2 :=
  h.trans (h.takeLoose e) (h.evaluate d.name params d.body value _ _ _)

/-- A move advances unless it forgets a handle or changes templates; what such a move keeps has to be
said for each relation. -/
theorem move (m : Move) (e : Engine) (drop : ∀ index, R e (e.dropParked index))
    (define : ∀ templates, R e (e.define templates))
    (setTemplate : ∀ definition negated template,
      R e (e.setTemplate definition negated template)) : R e (e.move m) := by
  cases m with
  | call validator value => exact h.call validator value e
  | settle index answer =>
    rw [Engine.move]
    split
    · exact h.settle _ answer e
    · exact h.refl e
  | drop index => exact drop index
  | make => exact h.trans (h.takeLoose e) (h.park _ _)
  | evaluate definition value params handle =>
    cases handle with
    | none => exact h.evaluateLoose definition value params none e
    | some index =>
      rw [Engine.move]
      split
      · exact h.evaluateLoose definition value params _ e
      · exact h.refl e
  | define templates => exact define templates
  | setTemplate definition negated template => exact setTemplate definition negated template
  | log event => exact h.note e event

end Advances
end Criteria
