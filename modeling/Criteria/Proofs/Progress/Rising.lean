import Criteria.Proofs.Progress.Timely

/-!
# A result on its way up

A result goes along a route from the place that has just come to it (`Rising`), and each list on the way takes it
in as the result of one of its members. The lists on the way have not heard of the latest judgement yet, so what
delivery submits is counted from what each list has heard of (`Route.view`). `deliver_climbs` is an induction on
the route: a list that passes on its decision has come to it just now (`Lagging.handover`), so what it belongs to
is a member that submits in time.
-/

namespace Criteria
set_option autoImplicit false

variable {layout : Layout} {e : Engine}

/-! ## What a list takes in -/

namespace Submission

variable {p source : Place} {combinator : Combinator} {size : Nat} {value : Json} {results : List Result}

/-- The list takes in a result that does not decide it, or that comes after the decision. -/
theorem takeIn_kept (held : e.lists.get? p = some (combinator.progress size value results))
    (room : results.length < size) {result : Result}
    (kept : combinator.passesOn size value results result = none)
    (next : Result → Engine → List Submission) :
    takeIn p combinator value source result next e =
      [⟨source, p, result, combinator.progress size value results⟩] := by
  simp only [takeIn, held, combinator.take_progress room, kept]

/-- The list takes in the result that decides it, and passes on the decision. -/
theorem takeIn_passed (held : e.lists.get? p = some (combinator.progress size value results))
    (room : results.length < size) {result decision : Result}
    (passed : combinator.passesOn size value results result = some decision)
    (next : Result → Engine → List Submission) :
    takeIn p combinator value source result next e =
      ⟨source, p, result, combinator.progress size value results⟩ ::
        next decision (e.putList p (combinator.progress size value (results ++ [result]))) := by
  obtain ⟨undecided, decides⟩ := Combinator.passesOn_eq_some.1 passed
  simp only [takeIn, held, combinator.take_progress room, passed, Combinator.progress_unawaited decides,
    Combinator.progress_awaited, undecided, Option.isNone_none, if_true]

end Submission

/-! ## What has not heard yet -/

/-- What a list has heard of when a result is about to go along a route: the lists on the way have not heard of
what has happened since the earlier moment. -/
def Route.view (earlier now : Journal) : Route → Place → Journal
  | .list p _ _ _, x => if x.Encloses p then earlier else now
  | _, _ => now

/-- A result that a place has just come to is about to go along a route. -/
def Rising (layout : Layout) (e : Engine) (earlier : Journal) (source : Place) (result : Result) : Route → Prop
  | .list p _ _ _ => (∃ i, source = p.member i) ∧ (∃ event, e.journal = event :: earlier) ∧
      layout.outcome? source earlier = none ∧ layout.outcome? source e.journal = some result
  | _ => earlier = e.journal

/-- The list at a place has just come to a decision and hands it over to the rest of its route. All lists have heard
of the same as when it was to take in its last result, but for this list. -/
structure Handover (layout : Layout) (e : Engine) (earlier since : Journal) (p : Place) (decision : Result)
    (onward : Route) : Prop where
  ahead : earlier <:+ since
  rising : Rising layout e since p decision onward
  here : onward.view since e.journal p = e.journal
  others : ∀ x own, x ≠ p → layout.opening? x = some own → own.results x (onward.view since e.journal x) =
    own.results x (if x.Encloses p then earlier else e.journal)

/-- What delivery submits: first by the source of the result, and then only by members that enclose it or have had
no result before. -/
structure Climbs (layout : Layout) (e : Engine) (earlier : Journal) (source : Place) (route : Route)
    (last : Journal) (log : List Submission) : Prop
    extends Submits layout (route.view earlier e.journal) earlier last log where
  above : ∀ s ∈ log, s.member.Encloses source ∨ layout.outcome? s.member e.journal = none

/-- Delivery by a call or a handle, before which every list has heard of everything. -/
theorem Hands.climbs {last : Journal} {log : List Submission} (h : Hands layout e.journal last log) (source : Place)
    {route : Route} (ends : route.view e.journal e.journal = fun _ => e.journal) :
    Climbs layout e e.journal source route last log where
  toSubmits := by rwa [ends]
  above s mem := .inr (h.timely s mem).undecided

/-- A list takes in what a member has just come to, and then `more` is submitted. -/
theorem Lagging.submits {earlier : Journal} {p : Place} {result : Result} {o : Opening}
    (h : Lagging layout e earlier p result) (found : layout.opening? p = some o) {i : Nat}
    (before : layout.outcome? (p.member i) earlier = none)
    (after : layout.outcome? (p.member i) e.journal = some result) {since last : Journal}
    {view : Place → Journal} {more : List Submission} (ahead : earlier <:+ since)
    (next : Submits layout view since last more)
    (above : ∀ s ∈ more, s.member.Encloses p ∨ layout.outcome? s.member e.journal = none)
    (behind : e.journal <:+ last) (here : o.results p (view p) = o.results p e.journal)
    (others : ∀ x own, x ≠ p → layout.opening? x = some own →
      own.results x (view x) = own.results x (if x.Encloses p then earlier else e.journal)) :
    Climbs layout e earlier (p.member i) (o.route p) last
      (⟨p.member i, p, result, o.combinator.progress o.checks.length o.value (o.results p earlier)⟩ ::
        more) where
  suffix := ahead.trans next.suffix
  timely := by
    obtain ⟨q, answer, judgement, -, latest, -⟩ := h.latest
    rw [Layout.outcome?_member, found, Option.bind_some] at before after
    obtain ⟨check, checked, after⟩ := Option.bind_eq_some_iff.1 after
    rw [checked, Option.bind_some] at before
    refine List.forall_mem_cons.2 ⟨?_, fun s mem => (next.timely s mem).mono ahead List.suffix_rfl⟩
    exact ⟨o, i, check, _, earlier, ⟨found, rfl, checked, before, latest ▸ after, rfl, (h.list found).2⟩,
      List.suffix_rfl, latest ▸ behind⟩
  distinct := by
    refine List.nodup_cons.2 ⟨fun again => ?_, next.distinct⟩
    obtain ⟨s, mem, same⟩ := List.mem_map.1 again
    rcases above s mem with encloses | undecided
    · rw [same] at encloses
      exact Place.not_member_encloses p i encloses
    · rw [same, after] at undecided
      cases undecided
  counted x own opened := by
    rw [next.counted x own opened, submittedTo_cons, ← List.append_assoc]
    refine congrArg (· ++ _) ?_
    by_cases same : p = x
    · subst same
      obtain rfl := Option.some.inj (found.symm.trans opened)
      rw [here, h.news o found, if_pos rfl]
      simp [Opening.route, Route.view, Place.Encloses.refl]
    · rw [others x own (Ne.symm same) opened, if_neg same, List.append_nil]
      rfl
  above := by
    refine List.forall_mem_cons.2 ⟨.inl (.refl _), fun s mem => (above s mem).imp_left fun encloses => ?_⟩
    exact encloses.trans (p.encloses_member i)

/-! ## Passing on a decision -/

namespace Lagging

variable {earlier : Journal} {p : Place} {result : Result} {o : Opening}

/-- Where the check of a list is as before, so are the lists above it. -/
theorem unchanged (h : Lagging layout e earlier p result) (found : layout.opening? p = some o)
    (same : layout.outcome? p e.journal = layout.outcome? p earlier) (x : Place) (own : Opening) (other : x ≠ p)
    (opened : layout.opening? x = some own) :
    own.results x e.journal = own.results x (if x.Encloses p then earlier else e.journal) := by
  by_cases above : x.Encloses p
  · rw [if_pos above, h.results_above found same above other opened]
  · rw [if_neg above]

/-- A list that a call or a handle waits for hands its decision over when the check that it belongs to is as
before: a call and a handle have nothing to catch up with. -/
theorem handover_ends (h : Lagging layout e earlier p result) (found : layout.opening? p = some o)
    (same : layout.outcome? p e.journal = layout.outcome? p earlier) (decision : Result)
    (unlisted : ∀ q combinator value onward, o.onward ≠ .list q combinator value onward) :
    Handover layout (taken e p o) earlier e.journal p decision o.onward := by
  obtain ⟨q, answer, judgement, -, latest, -⟩ := h.latest
  have ahead : earlier <:+ e.journal := latest ▸ List.suffix_cons _ _
  have unchanged := h.unchanged found same
  cases onward : o.onward with
  | list q combinator value onward' => exact absurd onward (unlisted _ _ _ _)
  | call | detached | answer => exact ⟨ahead, rfl, rfl, unchanged⟩

/-- **A list hands over what it has just come to.** -/
theorem handover (h : Lagging layout e earlier p result) (found : layout.opening? p = some o) {decision : Result}
    (before : o.decision? p earlier = none) (after : o.decision? p e.journal = some decision) :
    ∃ since, Handover layout (taken e p o) earlier since p decision o.onward := by
  have ends := h.handover_ends found
  obtain root | ⟨w, k, rfl⟩ := p.root_or_member
  · cases owner : p.root with
    | call call =>
      rw [owner] at root
      subst root
      rw [(h.calls call o found).2.1] at ends ⊢
      exact ⟨_, ends rfl decision nofun⟩
    | loose n =>
      rw [owner] at root
      subst root
      obtain ⟨-, -, handle, -, onward⟩ := h.loose n o found
      rw [onward] at ends ⊢
      exact ⟨_, ends rfl decision (by cases handle <;> nofun)⟩
  · obtain ⟨first, outer, member⟩ := Layout.opening?_member_eq_some found
    obtain ⟨members, group, rfl⟩ | ⟨_, _, _, _, _, _, rule, -, rfl⟩ := Opening.member?_eq_some member
    · have outcome : ∀ journal, layout.outcome? (w.member k) journal =
          Opening.decision? ⟨.any, members, first.value, first.route w⟩ (w.member k) journal := fun journal => by
        rw [Layout.outcome?_member, outer, Option.bind_some, group, Option.bind_some,
          (h.wellFormed.opening found).outcome?_group]
      obtain ⟨q, answer, judgement, -, latest, -⟩ := h.latest
      refine ⟨earlier, List.suffix_rfl, ⟨⟨k, rfl⟩, ⟨_, latest⟩, (outcome _).trans before, (outcome _).trans after⟩,
        if_neg (Place.not_member_encloses w k), fun x own other _ => ?_⟩
      have above : x.Encloses (w.member k) ↔ x.Encloses w := Place.encloses_member_iff.trans (or_iff_right other)
      simp only [above]
      rfl
    · exact ⟨_, ends (h.outcome?_rule rfl outer rule) decision nofun⟩

end Lagging

/-! ## Delivery -/

/-- A call that completes submits nothing. -/
theorem complete_hands (call : Nat) (result : Result) (e : Engine) :
    Hands layout e.journal (e.complete call result).2.journal [] := by
  unfold Engine.complete
  split
  · exact .refl layout e.journal
  · exact .refl layout e.journal
  · exact .note (fun _ => id) e.journal

/-- A handle that nobody asks for submits nothing. -/
theorem detached_hands (p : Place) (e : Engine) :
    Hands layout e.journal (e.once p fun e => (.ok (), e)).2.journal [] := by
  unfold Engine.once
  split
  · exact .note (fun _ => id) e.journal
  · exact .refl layout e.journal

/-- The first answer to a question is what its place has just come to. -/
theorem Sound.rising (h : Sound layout e) {p : Place} {question : Question} {onward : Route}
    (owns : layout.Owns e.journal (.asked p question onward)) (first : p ∉ e.settled) (answer : Answer)
    (result : Result) :
    ∃ w i o, p = w.member i ∧ layout.opening? w = some o ∧ onward = o.route w ∧
      Rising layout ((e.markSettled p).note (.judged p answer result)) e.journal p result onward := by
  obtain ⟨w, i, o, rfl, found, rfl, outcome⟩ := Layout.asked owns.1
  have unjudged : judgement? (w.member i) e.journal = none := by
    simpa [first] using h.settled _ _ owns.1
  exact ⟨w, i, o, rfl, found, rfl, ⟨i, rfl⟩, ⟨_, rfl⟩, (outcome _).trans unjudged,
    (outcome _).trans (judgement?_cons_self unjudged)⟩

/-- Answering a question, if delivery climbs along the route of its answer. -/
theorem answer_hands (h : Sound layout e) {p : Place} {question : Question} {onward : Route}
    (owns : layout.Owns e.journal (.asked p question onward)) (answer : Answer)
    (climbs : ∀ {e : Engine} {result : Result} {source : Place} {earlier : Journal},
      Ready layout e onward result → Rising layout e earlier source result onward →
        Climbs layout e earlier source onward (Engine.deliver onward result e).2.journal
          (Submission.deliver onward source result e)) :
    Hands layout e.journal (e.answer p question answer (Engine.deliver onward)).2.journal
      (Submission.answer p question answer (Submission.deliver onward p) e) := by
  unfold Engine.answer Engine.once Submission.answer
  by_cases settled : e.isSettled p = true
  · rw [if_pos settled, if_pos settled]
    exact .note (fun _ => id) e.journal
  · rw [if_neg settled, if_neg settled]
    have first : p ∉ e.settled := by simpa [Engine.isSettled] using settled
    obtain ⟨w, i, o, rfl, found, rfl, rising⟩ := h.rising owns first answer
      (question.judge (e.templatesOf question.definition) answer)
    have climbed := climbs (h.judge owns first (e.templatesOf question.definition) answer) rising
    refine (climbed.toSubmits.congr List.suffix_rfl fun x own _ => ?_).noted fun _ => id
    by_cases above : x.Encloses w
    · exact congrArg _ (if_pos above)
    · refine (congrArg _ (if_neg above)).trans ?_
      by_cases here : x = w.member i
      · subst here
        exact Opening.results_cons_judged_self
      · exact Opening.results_cons_of_untouched fun touches =>
          above ((Place.encloses_member_iff.1 touches).resolve_left here)

/-- **Delivery submits in time.** -/
theorem deliver_climbs (route : Route) : ∀ {e : Engine} {result : Result} {source : Place} {earlier : Journal},
    Ready layout e route result → Rising layout e earlier source result route →
      Climbs layout e earlier source route (Engine.deliver route result e).2.journal
        (Submission.deliver route source result e) := by
  induction route with
  | call call =>
    intro e result source earlier _ rising
    obtain rfl : earlier = e.journal := rising
    exact Hands.climbs (complete_hands call result e) source rfl
  | list p combinator value onward ih =>
    intro e result source earlier ready rising
    obtain ⟨before, checks, lag, found⟩ := ready
    obtain ⟨⟨i, rfl⟩, ⟨event, now⟩, undecided, decided⟩ := rising
    obtain rfl : before = earlier := by
      obtain ⟨_, _, _, _, latest, -⟩ := lag.latest
      exact (List.cons.inj (latest.symm.trans now)).2
    obtain ⟨held, room⟩ := lag.list found
    rw [Engine.deliver, Submission.deliver]
    cases passes : combinator.passesOn checks.length value
        (Opening.results ⟨combinator, checks, value, onward⟩ p before) result with
    | none =>
      rw [Engine.takeIn_kept held room passes, Submission.takeIn_kept held room passes]
      have unchanged := lag.outcome?_same found (lag.decision?_kept found passes)
      exact lag.submits found undecided decided (now ▸ List.suffix_cons _ _) (.refl layout e.journal)
        (fun _ mem => absurd mem List.not_mem_nil) List.suffix_rfl rfl (lag.unchanged found unchanged)
    | some decision =>
      rw [Engine.takeIn_passed held room passes, Submission.takeIn_passed held room passes]
      obtain ⟨untold, told⟩ := lag.decision?_passed found passes
      obtain ⟨since, handover⟩ := lag.handover found untold told
      have climbed := ih (lag.ready_passed found untold told) handover.rising
      rw [lag.taken_eq found] at climbed
      have rests := deliver_rests onward decision (e.putList p (combinator.progress checks.length value
        (Opening.results ⟨combinator, checks, value, onward⟩ p before ++ [result])))
      exact lag.submits found undecided decided handover.ahead climbed.toSubmits climbed.above
        rests.journal.suffix (congrArg _ handover.here) handover.others
  | detached p =>
    intro e result source earlier _ rising
    obtain rfl : earlier = e.journal := rising
    exact Hands.climbs (detached_hands p e) source rfl
  | answer p question onward ih =>
    intro e result source earlier ready rising
    obtain rfl : earlier = e.journal := rising
    exact Hands.climbs (answer_hands ready.1 ready.2 (.ok result.holds) ih) source rfl

/-- **Settling a handle submits in time.** -/
theorem settle_hands (h : Sound layout e) {handle : Handle} (owns : layout.Owns e.journal handle)
    (answer : Answer) :
    Hands layout e.journal (Engine.settle handle answer e).2.journal (Submission.settle handle answer e) := by
  cases handle with
  | detached p => exact detached_hands p e
  | asked p question onward => exact answer_hands h owns answer (deliver_climbs onward)

end Criteria
