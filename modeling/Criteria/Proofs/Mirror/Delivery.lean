import Criteria.Engine.Delivery
import Criteria.Proofs.Journal.Outcome
import Criteria.Proofs.Mirror.View

/-!
# Engines that mirror each other

A region is a set of calls and loose evaluations. One engine mirrors another in a region if both have
the same of it, as far as a view lets them be seen. Delivery along a route that stays inside keeps them so,
and what is told is alike (`deliver_mirrors`); delivery along a route that stays outside leaves the
region as it is (`deliver_spares`).
-/

namespace Criteria
set_option autoImplicit false

/-! ## Regions -/

/-- The call or the loose evaluation that an event belongs to. -/
def Event.root? : Event → Option Root
  | .invoked p _ _ _ _ => some p.root
  | .judged p _ _ => some p.root
  | .told p _ => some p.root
  | .completed call _ => some (.call call)
  | .returned call _ => some (.call call)
  | _ => none

/-- What happened in a region, the latest first. -/
def Engine.history (e : Engine) (region : Root → Bool) : Journal :=
  e.journal.filter fun event => event.root?.any region

/-- Whether a route stays in a region. -/
def Route.Within (region : Root → Bool) : Route → Prop
  | .call id => region (.call id) = true
  | .list p _ _ onward => region p.root = true ∧ onward.Within region
  | .detached p => p.path = []
  | .answer p _ onward => region p.root = true ∧ p.path ≠ [] ∧ onward.Within region

theorem Route.Within.mono {region wider : Root → Bool}
    (sub : ∀ root, region root = true → wider root = true) :
    (route : Route) → route.Within region → route.Within wider
  | .call _, mine => sub _ mine
  | .detached _, root => root
  | .list _ _ _ onward, ⟨mine, within⟩ => ⟨sub _ mine, mono sub onward within⟩
  | .answer _ _ onward, ⟨mine, inner, within⟩ => ⟨sub _ mine, inner, mono sub onward within⟩

variable {view : View} {region : Root → Bool} {e e' s : Engine}

/-! ## What stays outside a region -/

/-- An engine has the same of a region as before. -/
structure Spares (region : Root → Bool) (e e' : Engine) : Prop where
  templates : e'.templates = e.templates
  settled : ∀ p, region p.root = true → p.path ≠ [] → e'.isSettled p = e.isSettled p
  lists : ∀ p, region p.root = true → e'.lists.get? p = e.lists.get? p
  calls : ∀ call, region (.call call) = true → e'.calls.get? call = e.calls.get? call
  history : e'.history region = e.history region
  parked : e'.parked = e.parked
  loose : e'.loose = e.loose

namespace Spares

theorem refl (region : Root → Bool) (e : Engine) : Spares region e e :=
  ⟨rfl, fun _ _ _ => rfl, fun _ _ => rfl, fun _ _ => rfl, rfl, rfl, rfl⟩

theorem trans {e'' : Engine} (first : Spares region e e') (second : Spares region e' e'') :
    Spares region e e'' where
  templates := second.templates.trans first.templates
  settled p mine inner := (second.settled p mine inner).trans (first.settled p mine inner)
  lists p mine := (second.lists p mine).trans (first.lists p mine)
  calls call mine := (second.calls call mine).trans (first.calls call mine)
  history := second.history.trans first.history
  parked := second.parked.trans first.parked
  loose := second.loose.trans first.loose

/-- Noting an event that is none of the region. -/
theorem note {event : Event} (other : event.root?.any region = false) :
    Spares region e (e.note event) :=
  { refl region e with history := List.filter_cons_of_neg (by simp [other]) }

theorem isSettled_markSettled {p q : Place} :
    (e.markSettled p).isSettled q = (q == p || e.isSettled q) := by
  rw [Engine.isSettled, Engine.markSettled, List.contains_cons]
  rfl

/-- Settling a handle outside the region, or one that nobody asks for. -/
theorem markSettled {p : Place} (other : region p.root = false ∨ p.path = []) :
    Spares region e (e.markSettled p) :=
  { refl region e with
    settled := by
      intro q mine inner
      have differs : (q == p) = false := by
        rw [beq_eq_false_iff_ne]
        rintro rfl
        obtain other | root := other
        · rw [mine] at other
          cases other
        · exact inner root
      rw [isSettled_markSettled, differs, Bool.false_or] }

theorem putList {p : Place} (other : region p.root = false) (progress : Progress) :
    Spares region e (e.putList p progress) :=
  { refl region e with
    lists := by
      intro q mine
      have differs : q ≠ p := by
        rintro rfl
        rw [mine] at other
        cases other
      rw [Engine.putList, Board.get?_put, if_neg differs] }

theorem updateCall {call : Nat} (other : region (.call call) = false) (change : Call → Call) :
    Spares region e (e.updateCall call change) :=
  { refl region e with
    calls := by
      intro id mine
      have differs : call ≠ id := by
        rintro rfl
        rw [mine] at other
        cases other
      rw [Engine.updateCall, Store.get?_update, if_neg differs] }

theorem complete {call : Nat} (other : region (.call call) = false) (result : Result) :
    Spares region e (e.complete call result).2 := by
  unfold Engine.complete
  split
  · exact refl region e
  · exact updateCall other _
  · exact (updateCall other _).trans (note (by simp [Event.root?, other]))

theorem takeIn {p : Place} (other : region p.root = false) (combinator : Combinator) (value : Json)
    (result : Result) {next : Result → Engine → Report × Engine}
    (further : ∀ result e, Spares region e (next result e).2) :
    Spares region e (e.takeIn p combinator value result next).2 := by
  unfold Engine.takeIn
  split
  · exact refl region e
  · dsimp only
    split
    · split
      · exact (putList other _).trans (further _ _)
      · exact putList other _
    · exact putList other _

theorem answer {p : Place} (other : region p.root = false) (question : Question) (given : Answer)
    {next : Result → Engine → Report × Engine}
    (further : ∀ result e, Spares region e (next result e).2) :
    Spares region e (e.answer p question given next).2 := by
  have note_here : ∀ {e : Engine} {event : Event}, event.root? = some p.root →
      Spares region e (e.note event) := fun here => note (by rw [here]; exact other)
  unfold Engine.answer Engine.once
  split
  · exact note rfl
  · exact (((markSettled (.inl other)).trans (note_here rfl)).trans (further _ _)).trans
      (note_here rfl)

/-- A handle that nobody asks for is none of any region. -/
theorem detached {p : Place} (root : p.path = []) :
    Spares region e (e.once p fun e => (.ok (), e)).2 := by
  unfold Engine.once
  split
  · exact note rfl
  · exact markSettled (.inr root)

end Spares

/-- **Delivery along a route that stays outside a region leaves the region as it is.** -/
theorem deliver_spares (route : Route) : (route.Within fun root => !region root) →
    ∀ (result : Result) (e : Engine), Spares region e (Engine.deliver route result e).2 := by
  induction route with
  | call call => exact fun other result e => .complete (by simpa [Route.Within] using other) result
  | list p combinator value onward ih =>
    rintro ⟨other, further⟩ result e
    exact .takeIn (by simpa using other) combinator value result (ih further)
  | detached p => exact fun root result e => .detached root
  | answer p question onward ih =>
    rintro ⟨other, -, further⟩ result e
    exact .answer (by simpa using other) question _ (ih further)

theorem settle_spares {handle : Handle} (other : handle.route.Within fun root => !region root)
    (answer : Answer) (e : Engine) : Spares region e (Engine.settle handle answer e).2 := by
  cases handle with
  | detached p => exact .detached other
  | asked p question onward =>
    obtain ⟨elsewhere, -, further⟩ := other
    exact .answer (by simpa using elsewhere) question answer (deliver_spares onward further)

/-- Delivery along a route of any region keeps no handle and forgets none. -/
theorem deliver_parked {route : Route} (within : route.Within region) (result : Result) (e : Engine) :
    (Engine.deliver route result e).2.parked = e.parked := by
  have nowhere : route.Within fun root => !(fun _ : Root => false) root :=
    within.mono (fun _ _ => rfl) _
  exact (deliver_spares route nowhere result e).parked

theorem settle_parked {handle : Handle} (within : handle.route.Within region) (answer : Answer)
    (e : Engine) : (Engine.settle handle answer e).2.parked = e.parked := by
  have nowhere : handle.route.Within fun root => !(fun _ : Root => false) root :=
    within.mono (fun _ _ => rfl) _
  exact (settle_spares nowhere answer e).parked

/-! ## Engines that mirror each other -/

/-- Both engines have the same of a region, as far as is seen, and judge alike. -/
structure Mirrors (view : View) (region : Root → Bool) (e s : Engine) : Prop where
  judges : ∀ (question : Question) (answer : Answer),
    view.result (question.judge (e.templatesOf question.definition) answer) =
      view.result (question.judge (s.templatesOf question.definition) answer)
  settled : ∀ p, region p.root = true → p.path ≠ [] → e.isSettled p = s.isSettled p
  lists : ∀ p, region p.root = true →
    (e.lists.get? p).map view.progress = (s.lists.get? p).map view.progress
  calls : ∀ call, region (.call call) = true →
    (e.calls.get? call).map view.call = (s.calls.get? call).map view.call
  history : (e.history region).map view.event = (s.history region).map view.event
  loose : ∀ n, region (.loose n) = true → (n < e.loose ↔ n < s.loose)

/-- What is told is alike, and the engines mirror each other afterwards. -/
structure Echoes (view : View) (region : Root → Bool) (x y : Report × Engine) : Prop where
  report : view.result x.1 = view.result y.1
  engine : Mirrors view region x.2 y.2

theorem View.root?_event (event : Event) : (view.event event).root? = event.root? := by
  cases event <;> rfl

namespace Mirrors

/-- What leaves the region alone on both sides leaves the mirror image as it is. -/
theorem spares {s' : Engine} (h : Mirrors view region e s) (left : Spares region e e')
    (right : Spares region s s') : Mirrors view region e' s' where
  judges question answer := by
    rw [Engine.templatesOf, Engine.templatesOf, left.templates, right.templates]
    exact h.judges question answer
  settled p mine inner :=
    ((left.settled p mine inner).trans (h.settled p mine inner)).trans (right.settled p mine inner).symm
  lists p mine := by rw [left.lists p mine, right.lists p mine, h.lists p mine]
  calls call mine := by rw [left.calls call mine, right.calls call mine, h.calls call mine]
  history := by rw [left.history, right.history, h.history]
  loose := by
    rw [left.loose, right.loose]
    exact h.loose

/-- The same event as far as is seen. -/
theorem note (h : Mirrors view region e s) {event event' : Event}
    (alike : view.event event = view.event event') :
    Mirrors view region (e.note event) (s.note event') :=
  { h with
    history := by
      have root : event.root? = event'.root? := by
        rw [← view.root?_event event, alike, view.root?_event]
      simp only [Engine.history, Engine.note, List.filter_cons, root]
      split
      · rw [List.map_cons, List.map_cons, alike]
        exact congrArg _ h.history
      · exact h.history }

theorem markSettled (h : Mirrors view region e s) (p : Place) :
    Mirrors view region (e.markSettled p) (s.markSettled p) :=
  { h with
    settled := by
      intro q mine inner
      rw [Spares.isSettled_markSettled, Spares.isSettled_markSettled, h.settled q mine inner] }

theorem putList (h : Mirrors view region e s) (p : Place) {progress progress' : Progress}
    (alike : view.progress progress = view.progress progress') :
    Mirrors view region (e.putList p progress) (s.putList p progress') :=
  { h with
    lists := by
      intro q mine
      simp only [Engine.putList, Board.get?_put]
      split
      · exact congrArg some alike
      · exact h.lists q mine }

theorem updateCall (h : Mirrors view region e s) (call : Nat) {change change' : Call → Call}
    (alike : ∀ c c', view.call c = view.call c' → view.call (change c) = view.call (change' c')) :
    Mirrors view region (e.updateCall call change) (s.updateCall call change') :=
  { h with
    calls := by
      intro id mine
      have before := h.calls id mine
      simp only [Engine.updateCall, Store.get?_update]
      split
      · cases held : e.calls.get? id with
        | none =>
          rw [held, Option.map_none, eq_comm, Option.map_eq_none_iff] at before
          rw [before]
          rfl
        | some c =>
          rw [held, Option.map_some, eq_comm, Option.map_eq_some_iff] at before
          obtain ⟨c', held', same⟩ := before
          rw [held']
          exact congrArg some (alike c c' same.symm)
      · exact before }

theorem complete (h : Mirrors view region e s) {call : Nat} (mine : region (.call call) = true)
    {result result' : Result} (alike : view.result result = view.result result') :
    Echoes view region (e.complete call result) (s.complete call result') := by
  have keeps : ∀ {f f'}, view.see f = view.see f' →
      Mirrors view region (e.updateCall call fun c => { c with failure := some f })
        (s.updateCall call fun c => { c with failure := some f' }) := fun seen =>
    h.updateCall call fun c c' same => by
      obtain ⟨value, -, returned, completed⟩ := Call.mk.inj same
      exact Call.mk.injEq .. ▸ ⟨value, congrArg some seen, returned, completed⟩
  have completes : Mirrors view region
      ((e.updateCall call fun c => { c with completed := some result }).note
        (.completed call result))
      ((s.updateCall call fun c => { c with completed := some result' }).note
        (.completed call result')) := by
    refine (h.updateCall call fun c c' same => ?_).note (congrArg (Event.completed call) alike)
    obtain ⟨value, failure, returned, -⟩ := Call.mk.inj same
    exact Call.mk.injEq .. ▸ ⟨value, failure, returned, congrArg some alike⟩
  have paired := View.results_iff.2 alike
  have calls : Option.Rel view.pairing.Calls (e.calls.get? call) (s.calls.get? call) :=
    (View.rel_iff_map_eq View.calls_iff).2 (h.calls call mine)
  apply Pairing.complete paired calls
  · exact ⟨rfl, h⟩
  · exact fun seen => ⟨congrArg Except.error seen, keeps seen⟩
  · exact ⟨View.results_iff.1 paired.raise, completes⟩

theorem takeIn (h : Mirrors view region e s) {p : Place} (mine : region p.root = true)
    (combinator : Combinator) (value : Json) {result result' : Result}
    (alike : view.result result = view.result result') {next : Result → Engine → Report × Engine}
    (further : ∀ {result result' : Result} {e s : Engine},
      view.result result = view.result result' → Mirrors view region e s →
        Echoes view region (next result e) (next result' s)) :
    Echoes view region (e.takeIn p combinator value result next)
      (s.takeIn p combinator value result' next) := by
  have lists : Option.Rel view.pairing.Lists (e.lists.get? p) (s.lists.get? p) :=
    (View.rel_iff_map_eq View.lists_iff).2 (h.lists p mine)
  apply Pairing.takeIn (View.results_iff.2 alike) lists
  · exact ⟨rfl, h⟩
  · exact fun took told => ⟨View.results_iff.1 told, h.putList p ((View.lists_iff _ _).1 took)⟩
  · intro _ _ _ _ _ _ decided took told
    obtain ⟨raised, onward⟩ :=
      further (View.results_iff.1 decided) (h.putList p ((View.lists_iff _ _).1 took))
    exact ⟨View.results_iff.1 (told.tell (View.results_iff.2 raised) combinator), onward⟩

theorem answer (h : Mirrors view region e s) {p : Place} (mine : region p.root = true)
    (inner : p.path ≠ []) (question : Question) (given : Answer)
    {next : Result → Engine → Report × Engine}
    (further : ∀ {result result' : Result} {e s : Engine},
      view.result result = view.result result' → Mirrors view region e s →
        Echoes view region (next result e) (next result' s)) :
    Echoes view region (e.answer p question given next) (s.answer p question given next) := by
  unfold Engine.answer Engine.once
  rw [h.settled p mine inner]
  split
  · exact ⟨rfl, h.note rfl⟩
  · have judged := h.judges question given
    have noted : ∀ {result result' : Result}, view.result result = view.result result' →
        Mirrors view region ((e.markSettled p).note (.judged p given result))
          ((s.markSettled p).note (.judged p given result')) := fun alike =>
      (h.markSettled p).note (congrArg (Event.judged p given) alike)
    obtain ⟨told, after⟩ := further judged (noted judged)
    have alike : ∀ {report report' : Report}, view.result report = view.result report' →
        view.event (.told p report) = view.event (.told p report') := congrArg (Event.told p)
    exact ⟨told, after.note (alike told)⟩

/-- A handle that nobody asks for answers nothing. -/
theorem detached (h : Mirrors view region e s) {p : Place} (root : p.path = []) :
    Echoes view region (e.once p fun e => (.ok (), e)) (s.once p fun e => (.ok (), e)) := by
  have silent : ∀ e : Engine, (e.once p fun e => (.ok (), e)).1 = .ok () := by
    intro e
    unfold Engine.once
    split <;> rfl
  exact ⟨by rw [silent e, silent s], h.spares (.detached root) (.detached root)⟩

end Mirrors

/-- **Delivery along a route that stays in a region is mirrored.** -/
theorem deliver_mirrors (route : Route) : route.Within region →
    ∀ {result result' : Result} {e s : Engine}, view.result result = view.result result' →
      Mirrors view region e s →
        Echoes view region (Engine.deliver route result e) (Engine.deliver route result' s) := by
  induction route with
  | call call => exact fun mine _ _ _ _ alike h => h.complete mine alike
  | list p combinator value onward ih =>
    exact fun ⟨mine, within⟩ _ _ _ _ alike h => h.takeIn mine combinator value alike (ih within)
  | detached p => exact fun root _ _ _ _ _ h => h.detached root
  | answer p question onward ih =>
    rintro ⟨mine, inner, within⟩ result result' e s alike h
    rw [Engine.deliver, Engine.deliver, (View.results_iff.2 alike).holds]
    exact h.answer mine inner question _ (ih within)

theorem settle_mirrors {handle : Handle} (within : handle.route.Within region) (answer : Answer)
    (h : Mirrors view region e s) :
    Echoes view region (Engine.settle handle answer e) (Engine.settle handle answer s) := by
  cases handle with
  | detached p => exact h.detached within
  | asked p question onward =>
    obtain ⟨mine, inner, within⟩ := within
    exact h.answer mine inner question answer (deliver_mirrors onward within)

end Criteria
