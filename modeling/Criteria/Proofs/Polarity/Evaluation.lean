import Criteria.Proofs.Polarity.Delivery

/-!
# Evaluation in dual engines

Turned bodies and checks are evaluated in step with the ones that are not turned, by recursion on bodies
and checks: the same bodies are invoked in the same order, each body acts on the same handles with turned
answers, and the lists come to the same (`start_dual`). A call of a turned validator returns the
counterpart of what the call returns (`call_dual`).

What the engines come to is always foretold. Since evaluation only adds to what they have come to, so is
everything on the way, among it which kept handles belong to chosen clauses.
-/

namespace Criteria
set_option autoImplicit false

variable {t : Turning} {e s : Engine}

/-! ## Bodies -/

theorem perform_dual (h : Dual t e s) (rule : String) {own : Handle} (free : own.Free t.chosen)
    (action : Action) :
    InStep t (Engine.perform rule own e action)
      (Engine.perform rule (own.turn t.chosen) s
        (action.turn t.marked (own.isChosen t.chosen))) := by
  intro foretold
  cases action with
  | park => exact h.park free
  | settle answer =>
    obtain ⟨told, after⟩ := settle_dual h free answer
      (foretold.before (Onward.advances.note _ _) (Onward.advances.note _ _))
    exact after.note (.settledBy rule told)
  | settleParked index answer =>
    have marks := (foretold.before (Onward.advances.perform rule own e _)
      (Onward.advances.perform rule (own.turn t.chosen) s _)).marks index
    have kept := h.parked? index
    simp only [Engine.perform, Action.turn] at foretold ⊢
    cases held : e.parked? index with
    | none =>
      rw [held] at kept
      rw [kept]
      exact h
    | some handle =>
      rw [held] at kept
      rw [held, kept, marks handle held] at foretold
      rw [kept, marks handle held]
      obtain ⟨told, after⟩ := settle_dual h (h.free_of_parked? held) answer
        (foretold.before (Onward.advances.note _ _) (Onward.advances.note _ _))
      exact after.note (.settledBy rule told)

theorem performAll_dual (rule : String) {own : Handle} (free : own.Free t.chosen)
    (actions : List Action) : ∀ {e s : Engine}, Dual t e s →
      InStep t (actions.foldl (Engine.perform rule own) e)
        ((actions.map (Action.turn t.marked (own.isChosen t.chosen))).foldl
          (Engine.perform rule (own.turn t.chosen)) s) := by
  induction actions with
  | nil => exact fun h _ => h
  | cons action actions ih =>
    intro e s h foretold
    have first := foretold.before (Onward.advances.performAll rule own actions _)
      (Onward.advances.performAll rule (own.turn t.chosen) (actions.map _) _)
    exact ih (perform_dual h rule free action first) foretold

/-! ## Checks -/

/-- A body that has answered at once has its handle settled, with a turned answer in the second engine. -/
theorem heed_dual (handle : Handle) (free : handle.Free t.chosen) {x y : Reply × Engine}
    (h : Concurs t (fun reply reply' => reply' = reply.turn (handle.isChosen t.chosen)) x y) :
    InStep t (Engine.heed handle x) (Engine.heed (handle.turn t.chosen) y) := by
  intro foretold
  obtain ⟨reply, e⟩ := x
  obtain ⟨reply', s⟩ := y
  obtain ⟨same, after⟩ := h (foretold.before (Onward.advances.heed _ (Onward.advances.refl _))
    (Onward.advances.heed _ (Onward.advances.refl _)))
  obtain rfl : reply' = reply.turn (handle.isChosen t.chosen) := same
  cases reply with
  | now holds => exact (settle_dual after free (.ok holds) foretold).2
  | later => exact after

theorem runList_dual (h : Dual t e s) (combinator : Combinator) (size : Nat) (value : Json)
    (p : Place) (onward : Route) (free : onward.Free t.chosen) {start start' : Route → Engine → Engine}
    (starts : ∀ {route e s}, route.Free t.chosen → Dual t e s →
      InStep t (start route e) (start' route s)) :
    Concurs t Eq (Engine.runList combinator size value p onward start e)
      (Engine.runList combinator size value p onward start' s) := by
  unfold Engine.runList
  split
  · intro foretold
    exact ⟨rfl, (deliver_dual onward free (.ok combinator.identity) h foretold).2⟩
  · intro foretold
    have into : Route.Free t.chosen (.list p combinator value onward) := free
    have started := starts into (h.putList p (.start combinator size)) foretold
    exact ⟨started.passed p, started⟩

mutual

/-- Evaluating a body and the turned one. -/
theorem evaluate_dual (rule : String) (params : List Json) : (body : Body) →
    ∀ (value : Json) (p : Place) (handle : Handle) {e s : Engine},
      body.Eligible t.chosen (handle.isChosen t.chosen) p → handle.Free t.chosen → Dual t e s →
        Concurs t (fun reply reply' => reply' = reply.turn (handle.isChosen t.chosen))
          (Engine.evaluate rule value params p handle body e)
          (Engine.evaluate rule value params p (handle.turn t.chosen)
            (body.turn t.chosen t.marked (handle.isChosen t.chosen) p) s)
  | .test holds => by
    intro value p handle e s _ _ h _
    rw [Body.turn, Engine.evaluate, Engine.evaluate]
    exact ⟨rfl, h.note (.invoked p rule false value params)⟩
  | .scripted plan => by
    intro value p handle e s _ free h
    rw [Body.turn, Engine.evaluate, Engine.evaluate]
    intro foretold
    have invoked := h.note (.invoked p rule true value params)
    exact ⟨rfl, performAll_dual rule free _ invoked foretold⟩
  | .validator age checks => by
    intro value p handle e s eligible free h
    obtain ⟨other, eligible⟩ := eligible
    have invoked := h.note (.invoked p rule false value params)
    rw [Body.turn, Engine.evaluate, Engine.evaluate, Handle.route_turn other,
      Check.length_turnAll]
    intro foretold
    have started := runList_dual invoked .all checks.length value p handle.route (free.route other)
      (startAll_dual checks value p 0 eligible)
    exact ⟨rfl, started.inStep foretold⟩

/-- Starting the check of a place and the turned one. -/
theorem start_dual : (check : Check) → ∀ (value : Json) (p : Place) {into : Route} {e s : Engine},
    check.Eligible t.chosen p → into.Free t.chosen → Dual t e s →
      InStep t (Engine.start value p into check e)
        (Engine.start value p into (check.turn t.chosen t.marked p) s)
  | .rule definition name body negated params => by
    intro value p into e s eligible free h
    rw [Check.turn, Engine.start_rule, Engine.start_rule]
    exact heed_dual (.asked p ⟨definition, name, negated, params, value⟩ into) free
      (evaluate_dual name params body value p _ eligible free h)
  | .group members => by
    intro value p into e s eligible free h
    rw [Check.turn, Engine.start, Engine.start, Check.length_turnAll]
    exact (runList_dual h .any members.length value p into free
      (startAll_dual members value p 0 eligible)).inStep

/-- Starting the checks of the list at a place and the turned ones. -/
theorem startAll_dual : (checks : List Check) → ∀ (value : Json) (p : Place) (position : Nat),
    Check.AllEligible t.chosen p position checks → ∀ {into : Route} {e s : Engine},
      into.Free t.chosen → Dual t e s →
        InStep t (Engine.startAll value p position checks into e)
          (Engine.startAll value p position
            (Check.turnAll t.chosen t.marked p position checks) into s)
  | [] => by
    intro value p position _ into e s _ h
    rw [Check.turnAll, Engine.startAll, Engine.startAll]
    exact fun _ => h
  | check :: rest => by
    intro value p position eligible into e s free h
    obtain ⟨first, others⟩ := eligible
    rw [Check.turnAll, Engine.startAll, Engine.startAll, ← h.isRejected p]
    split
    · exact fun _ => h
    · intro foretold
      have before := foretold.before (Onward.advances.startAll rest value p (position + 1) into _)
        (Onward.advances.startAll _ value p (position + 1) into _)
      exact startAll_dual rest value p (position + 1) others free
        (start_dual check value (p.member position) first free h before) foretold

end

/-! ## Calls and loose evaluations -/

/-- The failures that a call keeps for its return correspond. -/
theorem Dual.failure (h : Dual t e s) (call : Nat) :
    Option.Rel t.pairing.pairs ((e.calls.get? call).bind (·.failure))
      ((s.calls.get? call).bind (·.failure)) := by
  have calls := h.calls call
  generalize e.calls.get? call = record at calls ⊢
  generalize s.calls.get? call = record' at calls ⊢
  cases calls with
  | none => exact .none
  | some paired => exact paired.failure

/-- Calls end with results that correspond. -/
theorem conclude_dual (call : Nat) {x y : Bool × Engine} (h : Concurs t Eq x y) :
    Concurs t t.pairing.Results (Engine.conclude call x) (Engine.conclude call y) := by
  intro foretold
  obtain ⟨passed, e⟩ := x
  obtain ⟨passed', s⟩ := y
  obtain ⟨same, after⟩ := h (foretold.before (Onward.advances.conclude _ (Onward.advances.refl _))
    (Onward.advances.conclude _ (Onward.advances.refl _)))
  obtain rfl : passed = passed' := same
  have after : Dual t e s := after
  have left : ∀ {result result' : Result}, t.pairing.Results result result' →
      Dual t (e.leave call result) (s.leave call result') := by
    intro result result' paired
    have updated : Dual t
        (e.updateCall call fun c => { c with returned := some result })
        (s.updateCall call fun c => { c with returned := some result' }) :=
      after.updateCall call fun before => { before with returned := .some paired }
    exact updated.note (.returned call paired)
  have failure := after.failure call
  unfold Engine.conclude
  dsimp only
  generalize (e.calls.get? call).bind (·.failure) = failed at failure ⊢
  generalize (s.calls.get? call).bind (·.failure) = failed' at failure ⊢
  cases failure with
  | none => exact ⟨.ok passed, left (.ok passed)⟩
  | some paired => exact ⟨.error paired, left (.error paired)⟩

/-- **A call of a turned validator** returns the counterpart of what the call returns. -/
theorem call_dual (h : Dual t e s) {v : Validator} (value : Json)
    (eligible : Check.AllEligible t.chosen (.ofCall e.calls.size) 0 v.checks) :
    Concurs t t.pairing.Results (e.call v value)
      (s.call { v with
        checks := Check.turnAll t.chosen t.marked (.ofCall e.calls.size) 0 v.checks } value) := by
  rw [Engine.call_eq, Engine.call_eq, ← h.size, Check.length_turnAll]
  exact conclude_dual e.calls.size (runList_dual (h.enter value) .all v.checks.length value
    (.ofCall e.calls.size) (.call e.calls.size) trivial
    (startAll_dual v.checks value (.ofCall e.calls.size) 0 eligible))

/-- A turned body that is evaluated by itself, with the handle of a turned clause or with one that nobody
asks for, replies with the turned answer. -/
theorem evaluateLoose_dual (h : Dual t e s) (d : Definition) (value : Json) (params : List Json)
    (handle : Option Handle) {turned : Bool} (owned : turned = handle.any (Handle.isChosen t.chosen))
    (eligible : d.body.Eligible t.chosen turned e.loosePlace)
    (free : ∀ kept, handle = some kept → kept.Free t.chosen) :
    let d' : Definition := { d with body := d.body.turn t.chosen t.marked turned e.loosePlace }
    let x := e.evaluateLoose d value params handle
    let y := s.evaluateLoose d' value params (handle.map (Handle.turn t.chosen))
    Concurs t (fun reply reply' => reply' = reply.turn turned) (x.1, x.2.2) (y.1, y.2.2) := by
  have taken := h.takeLoose
  have place := h.loosePlace
  cases handle with
  | none =>
    obtain rfl : turned = false := owned
    simp only [Engine.evaluateLoose, Option.map_none, Option.getD_none, ← place]
    exact evaluate_dual d.name params d.body value e.loosePlace (.detached e.loosePlace) eligible
      trivial taken
  | some kept =>
    obtain rfl : turned = kept.isChosen t.chosen := owned
    simp only [Engine.evaluateLoose, Option.map_some, Option.getD_some, ← place]
    exact evaluate_dual d.name params d.body value e.loosePlace kept eligible (free kept rfl) taken

end Criteria
