import Criteria.Proofs.Engine.Growth
import Criteria.Proofs.Engine.Delivery

/-!
# What a settlement cannot reach

A route that a layout lays out stays in that layout, so settling a handle of an older call judges
nothing in a call that is new. `Worded` says of two engines that what happened between them judged
nothing but questions of a layout, in the words of the templates as they were; `Confined` adds that no
handle was kept.
-/

namespace Criteria
set_option autoImplicit false

variable {layout : Layout} {e e' e'' : Engine}

/-- Whether a route is laid out by a layout. -/
def Layout.Carries (layout : Layout) : Route → Prop
  | .call _ => True
  | .list p combinator value onward =>
    ∃ o, layout.opening? p = some o ∧ o.route p = .list p combinator value onward
  | .detached _ => True
  | .answer p question onward => layout.handle? p = some (.asked p question onward)

theorem Layout.Owns.carries {journal : Journal} {handle : Handle}
    (owns : layout.Owns journal handle) : layout.Carries handle.route := by
  cases handle with
  | detached p => trivial
  | asked p question onward => exact owns.1

/-- A laid out list passes its decision on along a laid out route. -/
theorem Placed.carries_onward (h : Placed layout e) {p : Place} {o : Opening}
    (found : layout.opening? p = some o) : layout.Carries o.onward := by
  obtain root | ⟨w, k, rfl⟩ := p.root_or_member
  · rw [root] at found
    cases owner : p.root with
    | call call =>
      rw [owner] at found
      obtain ⟨-, onward, -⟩ := h.calls call o found
      rw [onward]
      trivial
    | loose n =>
      rw [owner] at found
      obtain ⟨-, -, handle, lends, onward⟩ := h.loose n o found
      rw [onward]
      exact lends.owns.carries
  · obtain ⟨outer, above, member⟩ := Layout.opening?_member_eq_some found
    obtain ⟨members, -, rfl⟩ | ⟨_, _, _, _, _, _, -, handed, rfl⟩ := Opening.member?_eq_some member
    · exact ⟨outer, above, rfl⟩
    · exact Layout.handle?_of_opening? above handed

theorem Layout.carries_onward_of_handle? {p : Place} {question : Question} {onward : Route}
    (handed : layout.handle? p = some (.asked p question onward)) : layout.Carries onward := by
  obtain ⟨w, i, o, -, found, member⟩ := Layout.handle?_eq_some handed
  obtain ⟨_, _, _, _, _, -, equal⟩ := Opening.handle?_eq_some member
  obtain ⟨-, -, rfl⟩ : _ ∧ _ ∧ onward = o.route w := by simpa using equal
  exact ⟨o, found, rfl⟩

/-- All that was judged between two states of a journal stands at places of a region. -/
def Judges (region : Place → Prop) (first last : Journal) : Prop :=
  ∃ news, last = news ++ first ∧ ∀ p answer result,
    Event.judged p answer result ∈ news → region p

namespace Judges

variable {region wider : Place → Prop} {first middle last : Journal}

theorem refl (region : Place → Prop) (journal : Journal) : Judges region journal journal :=
  ⟨[], rfl, fun _ _ _ mem => by cases mem⟩

theorem trans (earlier : Judges region first middle) (later : Judges region middle last) :
    Judges region first last := by
  obtain ⟨news, rfl, inside⟩ := earlier
  obtain ⟨more, rfl, inside'⟩ := later
  refine ⟨more ++ news, by rw [List.append_assoc], fun p answer result mem => ?_⟩
  exact (List.mem_append.1 mem).elim (inside' p answer result) (inside p answer result)

theorem mono (h : Judges region first last) (sub : ∀ p, region p → wider p) :
    Judges wider first last := by
  obtain ⟨news, grows, inside⟩ := h
  exact ⟨news, grows, fun p answer result mem => sub p (inside p answer result mem)⟩

/-- One event. -/
theorem cons {event : Event} (asks : ∀ p answer result, event = .judged p answer result → region p)
    (journal : Journal) : Judges region journal (event :: journal) :=
  ⟨[event], rfl, fun p answer result mem => asks p answer result (List.mem_singleton.1 mem).symm⟩

end Judges

/-- Only questions of a layout were judged, by the templates as they were. -/
structure Worded (layout : Layout) (e e' : Engine) : Prop where
  templates : e'.templates = e.templates
  journal : ∃ news, e'.journal = news ++ e.journal ∧ ∀ p answer result,
    Event.judged p answer result ∈ news → ∃ question onward,
      layout.handle? p = some (.asked p question onward) ∧
        result = question.judge (e.templatesOf question.definition) answer

/-- Nothing was judged outside a layout and no handle was kept. -/
structure Confined (layout : Layout) (e e' : Engine) : Prop extends Worded layout e e' where
  parked : e'.parked = e.parked

theorem Engine.templatesOf_congr (same : e'.templates = e.templates) (definition : Nat) :
    e'.templatesOf definition = e.templatesOf definition := by
  rw [templatesOf, templatesOf, same]

namespace Worded

theorem refl (layout : Layout) (e : Engine) : Worded layout e e :=
  ⟨rfl, [], rfl, fun _ _ _ mem => by cases mem⟩

theorem trans (first : Worded layout e e') (second : Worded layout e' e'') : Worded layout e e'' := by
  obtain ⟨same, news, grows, inside⟩ := first
  obtain ⟨same', more, grows', inside'⟩ := second
  refine ⟨same'.trans same, more ++ news, by rw [grows', grows, List.append_assoc], ?_⟩
  intro p answer result mem
  rcases List.mem_append.1 mem with late | early
  · obtain ⟨question, onward, handed, judged⟩ := inside' p answer result late
    rw [Engine.templatesOf_congr same] at judged
    exact ⟨question, onward, handed, judged⟩
  · exact inside p answer result early

theorem mono {later : Layout} (h : Worded layout e e') (ext : layout.Extends later) :
    Worded later e e' := by
  obtain ⟨same, news, grows, inside⟩ := h
  refine ⟨same, news, grows, fun p answer result mem => ?_⟩
  obtain ⟨question, onward, handed, judged⟩ := inside p answer result mem
  exact ⟨question, onward, ext.handle? handed, judged⟩

/-- Noting an event that judges nothing. -/
theorem note (e : Engine) (event : Event) (untouched : ∀ p, ¬ event.Touches p) :
    Worded layout e (e.note event) := by
  refine ⟨rfl, [event], rfl, fun p answer result mem => ?_⟩
  obtain rfl := List.mem_singleton.1 mem
  exact absurd (Place.Encloses.refl p) (untouched p)

end Worded

namespace Confined

theorem refl (layout : Layout) (e : Engine) : Confined layout e e := ⟨.refl layout e, rfl⟩

theorem trans (first : Confined layout e e') (second : Confined layout e' e'') :
    Confined layout e e'' :=
  ⟨first.toWorded.trans second.toWorded, second.parked.trans first.parked⟩

/-- Noting an event that judges nothing. -/
theorem note (event : Event) (untouched : ∀ p, ¬ event.Touches p) :
    Confined layout e (e.note event) :=
  ⟨.note e event untouched, rfl⟩

/-- A judgement of a question of the layout. -/
theorem judge {p : Place} {question : Question} {onward : Route}
    (handed : layout.handle? p = some (.asked p question onward)) (answer : Answer) :
    Confined layout e ((e.markSettled p).note (.judged p answer
      (question.judge (e.templatesOf question.definition) answer))) := by
  refine ⟨⟨rfl, [.judged p answer _], rfl, fun q given judgement mem => ?_⟩, rfl⟩
  cases List.mem_singleton.1 mem
  exact ⟨question, onward, handed, rfl⟩

theorem complete (e : Engine) (call : Nat) (result : Result) :
    Confined layout e (e.complete call result).2 := by
  unfold Engine.complete
  split
  · exact refl layout e
  · exact ⟨⟨rfl, [], rfl, fun _ _ _ mem => by cases mem⟩, rfl⟩
  · exact ⟨⟨rfl, [.completed call _], rfl, fun p answer judgement mem => by
      cases List.mem_singleton.1 mem⟩, rfl⟩

theorem takeIn (e : Engine) (p : Place) (combinator : Combinator) (value : Json) (result : Result)
    {next : Result → Engine → Report × Engine}
    (further : ∀ result e, Confined layout e (next result e).2) :
    Confined layout e (e.takeIn p combinator value result next).2 := by
  have put : ∀ progress, Confined layout e (e.putList p progress) := fun progress =>
    ⟨⟨rfl, [], rfl, fun _ _ _ mem => by cases mem⟩, rfl⟩
  unfold Engine.takeIn
  split
  · exact refl layout e
  · dsimp only
    split
    · split
      · exact (put _).trans (further _ _)
      · exact put _
    · exact put _

theorem answer {p : Place} {question : Question} {onward : Route} (e : Engine)
    (handed : layout.handle? p = some (.asked p question onward)) (given : Answer)
    {next : Result → Engine → Report × Engine}
    (further : ∀ result e, Confined layout e (next result e).2) :
    Confined layout e (e.answer p question given next).2 := by
  unfold Engine.answer Engine.once
  split
  · exact note (.repeated _) fun _ => id
  · exact ((judge handed given).trans (further _ _)).trans (note (.told p _) fun _ => id)

theorem once (e : Engine) (p : Place) :
    Confined layout e (e.once p fun e => (.ok (), e)).2 := by
  unfold Engine.once
  split
  · exact note (.repeated _) fun _ => id
  · exact ⟨⟨rfl, [], rfl, fun _ _ _ mem => by cases mem⟩, rfl⟩

end Confined

/-- **Delivery along a laid out route stays in the layout.** -/
theorem deliver_confined {placed : Engine} (h : Placed layout placed) (route : Route) :
    layout.Carries route → ∀ (result : Result) (e : Engine),
      Confined layout e (Engine.deliver route result e).2 := by
  induction route with
  | call call => exact fun _ result e => .complete e call result
  | list p combinator value onward ih =>
    rintro ⟨o, found, same⟩ result e
    obtain ⟨-, -, rfl⟩ : o.combinator = combinator ∧ o.value = value ∧ o.onward = onward := by
      simpa [Opening.route] using same
    exact .takeIn e p combinator value result (ih (h.carries_onward found))
  | detached p => exact fun _ _ e => .once e p
  | answer p question onward ih =>
    exact fun handed result e =>
      .answer e handed _ (ih (Layout.carries_onward_of_handle? handed))

theorem settle_confined {placed : Engine} (h : Placed layout placed) {handle : Handle}
    (carried : layout.Carries handle.route) (answer : Answer) (e : Engine) :
    Confined layout e (Engine.settle handle answer e).2 := by
  cases handle with
  | detached p => exact .once e p
  | asked p question onward =>
    have handed : layout.handle? p = some (.asked p question onward) := carried
    exact .answer e handed answer
      (deliver_confined h onward (Layout.carries_onward_of_handle? handed))

end Criteria
