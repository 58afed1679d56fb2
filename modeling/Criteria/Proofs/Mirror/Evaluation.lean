import Criteria.Engine.Call
import Criteria.Proofs.Mirror.Delivery
import Mathlib.Data.List.Forall2

/-!
# Evaluation in mirrored engines

Two engines are attuned in a region if they mirror each other there and each kept handle either stays
inside the region and is kept by both, or stays outside. Then the evaluation of checks at a place inside
the region is mirrored: both engines invoke the same bodies in the same order. A body may settle handles
that lead outside; the second engine keeps none of these, and settling them spares the region. So a call
whose number is in the region returns alike results in both engines (`call_attuned`).
-/

namespace Criteria
set_option autoImplicit false

variable {view : View} {region : Root → Bool} {e s : Engine}

/-! ## Reading mirrored engines -/

namespace Mirrors

/-- What is read off a list that both have alike. -/
theorem read (h : Mirrors view region e s) {p : Place} (mine : region p.root = true)
    {field : Progress → Bool} (seen : ∀ progress, field (view.progress progress) = field progress) :
    ((e.lists.get? p).map field).getD false = ((s.lists.get? p).map field).getD false := by
  have through : ∀ progress? : Option Progress,
      progress?.map field = (progress?.map view.progress).map field := by
    intro progress?
    rw [Option.map_map]
    congr 1
    funext progress
    exact (seen progress).symm
  rw [through, h.lists p mine, ← through]

theorem isRejected (h : Mirrors view region e s) {p : Place} (mine : region p.root = true) :
    e.isRejected p = s.isRejected p :=
  h.read mine fun progress => by simp [Progress.isRejected, View.progress]

theorem passed (h : Mirrors view region e s) {p : Place} (mine : region p.root = true) :
    e.passed p = s.passed p :=
  h.read mine fun _ => rfl

theorem isAwaited (h : Mirrors view region e s) {p : Place} (mine : region p.root = true) :
    e.isAwaited p = s.isAwaited p :=
  h.read mine fun _ => rfl

/-- A route inside the region leads to a call in both engines or in none. -/
theorem leadsTo (h : Mirrors view region e s) (call : Nat) : (route : Route) →
    route.Within region → e.leadsTo call route = s.leadsTo call route
  | .call _, _ => rfl
  | .detached _, _ => rfl
  | .list p _ _ onward, ⟨mine, within⟩ => by
    rw [Engine.leadsTo, Engine.leadsTo, h.isAwaited mine, h.leadsTo call onward within]
  | .answer p _ onward, ⟨mine, inner, within⟩ => by
    rw [Engine.leadsTo, Engine.leadsTo, h.settled p mine inner, h.leadsTo call onward within]

end Mirrors

/-! ## Kept handles -/

/-- What a slot for a kept handle holds in two engines: a handle that stays in the region is kept by
both, and of the others, if the region is not everything, the second engine keeps none. -/
inductive Kept (region : Root → Bool) : Option Handle → Option Handle → Prop where
  | gone : Kept region none none
  | inside {handle : Handle} (within : handle.route.Within region) :
      Kept region (some handle) (some handle)
  | outside {root : Root} (other : region root = false) {handle : Handle}
      (without : handle.route.Within fun root => !region root) :
      Kept region (some handle) none

/-- The engines mirror each other and keep the same handles of the region. -/
structure Attuned (view : View) (region : Root → Bool) (e s : Engine) : Prop
    extends Mirrors view region e s where
  parked : List.Forall₂ (Kept region) e.parked s.parked

namespace Attuned

theorem parked? (h : Attuned view region e s) (index : Nat) :
    Kept region (e.parked? index) (s.parked? index) := by
  have slots : ∀ {slots slots' : List (Option Handle)}, List.Forall₂ (Kept region) slots slots' →
      ∀ index : Nat, Kept region slots[index]?.join slots'[index]?.join := by
    intro slots slots' kept
    induction kept with
    | nil => exact fun _ => .gone
    | cons first _ ih =>
      intro index
      cases index with
      | zero => exact first
      | succ index => exact ih index
  exact slots h.parked index

theorem note (h : Attuned view region e s) {event event' : Event}
    (alike : view.event event = view.event event') :
    Attuned view region (e.note event) (s.note event') :=
  ⟨h.toMirrors.note alike, h.parked⟩

theorem park (h : Attuned view region e s) {handle : Handle} (within : handle.route.Within region) :
    Attuned view region (e.park handle) (s.park handle) :=
  { h with parked := List.rel_append h.parked (.cons (.inside within) .nil) }

/-- Settling a handle of the region. -/
theorem settle (h : Attuned view region e s) {handle : Handle} (within : handle.route.Within region)
    (answer : Answer) :
    view.result (Engine.settle handle answer e).1 = view.result (Engine.settle handle answer s).1 ∧
      Attuned view region (Engine.settle handle answer e).2 (Engine.settle handle answer s).2 := by
  obtain ⟨told, after⟩ := settle_mirrors within answer h.toMirrors
  refine ⟨told, after, ?_⟩
  rw [settle_parked within, settle_parked within]
  exact h.parked

theorem putList (h : Attuned view region e s) (p : Place) (progress : Progress) :
    Attuned view region (e.putList p progress) (s.putList p progress) :=
  ⟨h.toMirrors.putList p rfl, h.parked⟩

/-- What leaves the region alone and keeps no handle. -/
theorem spares {e' : Engine} (h : Attuned view region e s) (spared : Spares region e e') :
    Attuned view region e' s :=
  ⟨h.toMirrors.spares spared (.refl region s), spared.parked ▸ h.parked⟩

theorem deliver (h : Attuned view region e s) {route : Route} (within : route.Within region)
    (result : Result) :
    Attuned view region (Engine.deliver route result e).2 (Engine.deliver route result s).2 := by
  refine ⟨(deliver_mirrors route within rfl h.toMirrors).engine, ?_⟩
  rw [deliver_parked within, deliver_parked within]
  exact h.parked

end Attuned

/-! ## Bodies -/

/-- An action of a body whose handle stays in the region. -/
theorem perform_attuned (rule : String) {own : Handle} (within : own.route.Within region)
    (h : Attuned view region e s) (action : Action) :
    Attuned view region (Engine.perform rule own e action) (Engine.perform rule own s action) := by
  have alike : ∀ {report report' : Report}, view.result report = view.result report' →
      view.event (.settledBy rule report) = view.event (.settledBy rule report') :=
    congrArg (Event.settledBy rule)
  cases action with
  | park => exact h.park within
  | settle answer =>
    obtain ⟨told, after⟩ := h.settle within answer
    exact after.note (alike told)
  | settleParked index answer =>
    have kept := h.parked? index
    simp only [Engine.perform]
    generalize e.parked? index = slot at kept ⊢
    generalize s.parked? index = slot' at kept ⊢
    cases kept with
    | gone => exact h
    | inside inner =>
      obtain ⟨told, after⟩ := h.settle inner answer
      exact after.note (alike told)
    | outside _ without =>
      have spared : ∀ report, Spares region e
          ((Engine.settle _ answer e).2.note (.settledBy rule report)) := fun report =>
        (settle_spares without answer e).trans (.note rfl)
      exact h.spares (spared _)

theorem performAll_attuned (rule : String) {own : Handle} (within : own.route.Within region) :
    ∀ (actions : List Action) {e s : Engine}, Attuned view region e s →
      Attuned view region (actions.foldl (Engine.perform rule own) e)
        (actions.foldl (Engine.perform rule own) s)
  | [], _, _, h => h
  | action :: actions, _, _, h =>
    performAll_attuned rule within actions (perform_attuned rule within h action)

/-! ## Checks -/

/-- A list inside the region whose checks are mirrored. -/
theorem runList_attuned (combinator : Combinator) (size : Nat) (value : Json) {p : Place}
    (mine : region p.root = true) {onward : Route} (within : onward.Within region)
    {start : Route → Engine → Engine}
    (starts : ∀ ⦃route : Route⦄ ⦃e s : Engine⦄, route.Within region → Attuned view region e s →
      Attuned view region (start route e) (start route s))
    (h : Attuned view region e s) :
    (Engine.runList combinator size value p onward start e).1 =
        (Engine.runList combinator size value p onward start s).1 ∧
      Attuned view region (Engine.runList combinator size value p onward start e).2
        (Engine.runList combinator size value p onward start s).2 := by
  unfold Engine.runList
  split
  · exact ⟨rfl, h.deliver within _⟩
  · have into : Route.Within region (.list p combinator value onward) := ⟨mine, within⟩
    have started := starts into (h.putList p (.start combinator size))
    exact ⟨started.passed mine, started⟩

mutual

/-- Evaluating a body at a place inside the region. -/
theorem evaluate_attuned (rule : String) (params : List Json) :
    (body : Body) → ∀ ⦃e s : Engine⦄ (value : Json) ⦃p : Place⦄ ⦃handle : Handle⦄,
      region p.root = true → handle.route.Within region → Attuned view region e s →
        (Engine.evaluate rule value params p handle body e).1 =
            (Engine.evaluate rule value params p handle body s).1 ∧
          Attuned view region (Engine.evaluate rule value params p handle body e).2
            (Engine.evaluate rule value params p handle body s).2
  | .test holds => by
    intro e s value p handle mine within h
    rw [Engine.evaluate, Engine.evaluate]
    exact ⟨rfl, h.note rfl⟩
  | .scripted plan => by
    intro e s value p handle mine within h
    rw [Engine.evaluate, Engine.evaluate]
    exact ⟨rfl, performAll_attuned rule within _ (h.note rfl)⟩
  | .validator age checks => by
    intro e s value p handle mine within h
    rw [Engine.evaluate, Engine.evaluate]
    exact ⟨rfl, (runList_attuned .all checks.length value mine within
      (startAll_attuned checks value 0 mine) (h.note rfl)).2⟩

/-- Starting the check at a place inside the region. -/
theorem start_attuned : (check : Check) → ∀ (value : Json) ⦃p : Place⦄, region p.root = true →
      p.path ≠ [] → ∀ ⦃into : Route⦄ ⦃e s : Engine⦄, into.Within region →
        Attuned view region e s →
          Attuned view region (Engine.start value p into check e) (Engine.start value p into check s)
  | .rule definition name body negated params => by
    intro value p mine inner into e s within h
    have asked : (Handle.asked p ⟨definition, name, negated, params, value⟩ into).route.Within region :=
      ⟨mine, inner, within⟩
    obtain ⟨replies, after⟩ := evaluate_attuned name params body value mine asked h
    simp only [Engine.start]
    generalize Engine.evaluate name value params p _ body e = evaluation at *
    generalize Engine.evaluate name value params p _ body s = evaluation' at *
    obtain ⟨reply, e'⟩ := evaluation
    obtain ⟨reply', s'⟩ := evaluation'
    obtain rfl : reply = reply' := replies
    cases reply with
    | now holds => exact (Attuned.settle after asked (.ok holds)).2
    | later => exact after
  | .group members => by
    intro value p mine inner into e s within h
    rw [Engine.start, Engine.start]
    exact (runList_attuned .any members.length value mine within
      (startAll_attuned members value 0 mine) h).2

/-- Starting the checks of the list at a place inside the region. -/
theorem startAll_attuned : (checks : List Check) → ∀ (value : Json) (position : Nat) ⦃p : Place⦄,
      region p.root = true → ∀ ⦃into : Route⦄ ⦃e s : Engine⦄, into.Within region →
        Attuned view region e s →
          Attuned view region (Engine.startAll value p position checks into e)
            (Engine.startAll value p position checks into s)
  | [] => by
    intro value position p mine into e s within h
    rw [Engine.startAll, Engine.startAll]
    exact h
  | check :: rest => by
    intro value position p mine into e s within h
    have inner : (p.member position).path ≠ [] := by simp [Place.member]
    rw [Engine.startAll, Engine.startAll, h.isRejected mine]
    split
    · exact h
    · exact startAll_attuned rest value (position + 1) mine within
        (start_attuned check value (p := p.member position) mine inner within h)

end

/-! ## Calls -/

/-- A call begins alike in both engines if it gets the same number. -/
theorem Attuned.enter (h : Attuned view region e s) (numbered : e.calls.size = s.calls.size)
    (value : Json) :
    Attuned view region { e with calls := e.calls.add ⟨value, none, none, none⟩ }
      { s with calls := s.calls.add ⟨value, none, none, none⟩ } :=
  { h with
    calls := by
      intro call mine
      simp only [Store.get?_add, numbered]
      split
      · rfl
      · exact h.calls call mine }

/-- The failure that a call has kept for its return is alike. -/
theorem Mirrors.failure (h : Mirrors view region e s) {call : Nat}
    (mine : region (.call call) = true) :
    ((e.calls.get? call).bind (·.failure)).map view.see =
      ((s.calls.get? call).bind (·.failure)).map view.see := by
  have through : ∀ call? : Option Call,
      (call?.bind (·.failure)).map view.see = (call?.map view.call).bind (·.failure) := by
    intro call?
    cases call? <;> rfl
  rw [through, through, h.calls call mine]

/-- A call returns alike results. -/
theorem Attuned.leave (h : Attuned view region e s) (call : Nat) {result result' : Result}
    (alike : view.result result = view.result result') :
    Attuned view region
      ((e.updateCall call fun c => { c with returned := some result }).note (.returned call result))
      ((s.updateCall call fun c => { c with returned := some result' }).note
        (.returned call result')) := by
  refine ⟨(h.updateCall call fun c c' same => ?_).note (congrArg (Event.returned call) alike),
    h.parked⟩
  obtain ⟨value, failure, -, completed⟩ := Call.mk.inj same
  exact Call.mk.injEq .. ▸ ⟨value, failure, congrArg some alike, completed⟩

/-- **A call is mirrored**, and what it returns is alike. -/
theorem call_attuned (h : Attuned view region e s) (numbered : e.calls.size = s.calls.size)
    (mine : region (.call e.calls.size) = true) (v : Validator) (value : Json) :
    view.result (e.call v value).1 = view.result (s.call v value).1 ∧
      Attuned view region (e.call v value).2 (s.call v value).2 := by
  have here : region (Place.root ⟨.call e.calls.size, []⟩) = true := mine
  have onward : Route.Within region (.call e.calls.size) := mine
  obtain ⟨passed, after⟩ := runList_attuned .all v.checks.length value here onward
    (startAll_attuned v.checks value 0 here) (h.enter numbered value)
  simp only [Engine.call, ← numbered]
  generalize Engine.runList _ _ _ _ _ _ { e with calls := _ } = run at *
  generalize Engine.runList _ _ _ _ _ _ { s with calls := _ } = run' at *
  obtain ⟨b, e'⟩ := run
  obtain ⟨b', s'⟩ := run'
  obtain rfl : b = b' := passed
  have after : Attuned view region e' s' := after
  have failed := after.failure mine
  dsimp only
  generalize (e'.calls.get? e.calls.size).bind (·.failure) = failure at *
  generalize (s'.calls.get? e.calls.size).bind (·.failure) = failure' at *
  cases failure with
  | none =>
    obtain rfl : failure' = none := Option.map_eq_none_iff.1 failed.symm
    exact ⟨rfl, after.leave _ rfl⟩
  | some f =>
    obtain ⟨f', rfl, seen⟩ := Option.map_eq_some_iff.1 failed.symm
    have alike : view.result (.error f : Result) = view.result (.error f' : Result) :=
      congrArg Except.error seen.symm
    exact ⟨alike, after.leave _ alike⟩

end Criteria
