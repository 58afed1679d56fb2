import Criteria.Proofs.Engine.Confined
import Criteria.Proofs.Mirror.Delivery

/-!
# Where routes lead

A route that a layout lays out stays among the calls and loose evaluations that the layout knows
(`Placed.within`). So no handle that was handed out before a call leads into it, and the handles of the
call stay in it.
-/

namespace Criteria
set_option autoImplicit false

variable {layout : Layout} {e : Engine} {region : Root → Bool}

/-- Whether a route starts in what a layout lays out. -/
def Layout.Laid (layout : Layout) : Route → Prop
  | .call call => layout (.call call) ≠ none
  | .list p combinator value onward => layout.Carries (.list p combinator value onward)
  | .detached p => p.path = []
  | .answer p question onward => layout.Carries (.answer p question onward)

theorem Layout.Owns.laid {journal : Journal} {handle : Handle} (owns : layout.Owns journal handle) :
    layout.Laid handle.route := by
  cases handle with
  | detached p => exact owns
  | asked p question onward => exact owns.1

/-- The list at a root passes its decision on along a laid out route. -/
theorem Placed.laid_root (h : Placed layout e) {root : Root} {first : Opening}
    (found : layout root = some first) : layout.Laid first.onward := by
  cases root with
  | call call =>
    obtain ⟨-, onward, -⟩ := h.calls call first found
    rw [onward, Layout.Laid, found]
    exact Option.some_ne_none first
  | loose n =>
    obtain ⟨-, -, handle, lends, onward⟩ := h.loose n first found
    rw [onward]
    exact lends.owns.laid

/-- A laid out list passes its decision on along a laid out route. -/
theorem Placed.laid_onward (h : Placed layout e) {p : Place} {o : Opening}
    (found : layout.opening? p = some o) : layout.Laid o.onward := by
  obtain root | ⟨w, k, rfl⟩ := p.root_or_member
  · rw [root] at found
    exact h.laid_root found
  · obtain ⟨outer, above, member⟩ := Layout.opening?_member_eq_some found
    obtain ⟨members, -, rfl⟩ | ⟨_, _, _, _, _, _, -, handed, rfl⟩ := Opening.member?_eq_some member
    · exact ⟨outer, above, rfl⟩
    · exact Layout.handle?_of_opening? above handed

/-- **A laid out route stays in a region that contains all that the layout knows.** -/
theorem Placed.within (h : Placed layout e)
    (known : ∀ root, layout root ≠ none → region root = true) :
    (route : Route) → layout.Laid route → route.Within region
  | .call _, laid => known _ laid
  | .detached _, root => root
  | .list p combinator value onward, ⟨o, found, same⟩ => by
    obtain ⟨-, -, rfl⟩ : o.combinator = combinator ∧ o.value = value ∧ o.onward = onward := by
      simpa [Opening.route] using same
    obtain ⟨first, here⟩ := Layout.root_of_opening? found
    have mine : region p.root = true := known _ (here ▸ Option.some_ne_none first)
    exact ⟨mine, h.within known o.onward (h.laid_onward found)⟩
  | .answer p question onward, handed => by
    have handed : layout.handle? p = some (.asked p question onward) := handed
    obtain ⟨w, i, o, rfl, found, member⟩ := Layout.handle?_eq_some handed
    obtain ⟨_, _, _, _, _, -, equal⟩ := Opening.handle?_eq_some member
    obtain ⟨-, rfl⟩ : _ ∧ onward = o.route w := by simpa using equal
    obtain ⟨first, here⟩ := Layout.root_of_opening? found
    have mine : region w.root = true := known _ (here ▸ Option.some_ne_none first)
    exact ⟨mine, by simp [Place.member], h.within known (o.route w) ⟨o, found, rfl⟩⟩

/-! ## Handles on the way -/

/-- Whether a route passes the handle of a place. -/
def Route.Passes : Route → Place → Prop
  | .call _, _ => False
  | .detached _, _ => False
  | .list _ _ _ onward, x => onward.Passes x
  | .answer p _ onward, x => p = x ∨ onward.Passes x

/-- On the way from a list to the completion of its call only validators answer. -/
theorem Placed.opening?_of_passes (h : Placed layout e) {call : Nat} {x : Place} :
    ∀ {path : List Nat} {o : Opening}, layout.opening? ⟨.call call, path⟩ = some o →
      o.onward.Passes x → layout.opening? x ≠ none
  | [], o, found, passes => by
    obtain ⟨-, onward, -⟩ := h.calls call o found
    rw [onward] at passes
    exact passes.elim
  | k :: path, o, found, passes => by
    obtain ⟨outer, above, member⟩ := Option.bind_eq_some_iff.1 found
    have above : layout.opening? ⟨.call call, path⟩ = some outer := above
    have further : outer.onward.Passes x → layout.opening? x ≠ none := h.opening?_of_passes above
    obtain ⟨members, -, rfl⟩ | ⟨_, _, _, _, _, _, -, -, rfl⟩ := Opening.member?_eq_some member
    · exact further passes
    · obtain rfl | passes := passes
      · exact found ▸ Option.some_ne_none _
      · exact further passes

theorem judges_complete (region : Place → Prop) (e : Engine) (call : Nat) (result : Result) :
    Judges region e.journal (e.complete call result).2.journal := by
  unfold Engine.complete
  split
  · exact .refl region e.journal
  · exact .refl region e.journal
  · exact .cons (by simp) _

/-- **What is judged on delivery is asked on the way.** -/
theorem deliver_judges (route : Route) : ∀ (result : Result) (e : Engine),
    Judges route.Passes e.journal (Engine.deliver route result e).2.journal := by
  induction route with
  | call call => exact fun result e => judges_complete _ e call result
  | list p combinator value onward ih =>
    intro result e
    unfold Engine.deliver Engine.takeIn
    split
    · exact .refl _ e.journal
    · dsimp only
      split
      · split
        · exact ih _ _
        · exact .refl _ e.journal
      · exact .refl _ e.journal
  | detached p =>
    intro result e
    unfold Engine.deliver Engine.once
    split
    · exact .cons (by simp) _
    · exact .refl _ e.journal
  | answer p question onward ih =>
    intro result e
    unfold Engine.deliver Engine.answer Engine.once
    split
    · exact .cons (by simp) _
    · have here : ∀ judgement, Judges (Route.answer p question onward).Passes e.journal
          (.judged p (.ok result.holds) judgement :: e.journal) := by
        intro judgement
        refine .cons (fun q answer result same => ?_) _
        obtain ⟨rfl, -, -⟩ := Event.judged.inj same
        exact .inl rfl
      have further : ∀ judgement e, Judges (Route.answer p question onward).Passes e.journal
          (Engine.deliver onward judgement e).2.journal := fun judgement e =>
        (ih judgement e).mono fun _ => Or.inr
      exact ((here _).trans (further _ _)).trans (.cons (by simp) _)

/-- The first answer to a question is judged, then its judgement is passed on, and then it is told what
has come of it. -/
theorem answer_journal {p : Place} (question : Question) (onward : Route) (given : Answer)
    (unsettled : ¬ e.isSettled p = true) : ∃ result report more,
      (e.answer p question given (Engine.deliver onward)).2.journal =
        .told p report :: (more ++ .judged p given result :: e.journal) ∧
      ∀ x answer judgement, Event.judged x answer judgement ∈ more → onward.Passes x := by
  obtain ⟨more, grows, asked⟩ := deliver_judges onward
    (question.judge (e.templatesOf question.definition) given)
    ((e.markSettled p).note (.judged p given
      (question.judge (e.templatesOf question.definition) given)))
  refine ⟨question.judge (e.templatesOf question.definition) given,
    (e.answer p question given (Engine.deliver onward)).1, more, ?_, asked⟩
  rw [Engine.answer, Engine.once, if_neg unsettled]
  exact congrArg (List.cons _) grows

end Criteria
