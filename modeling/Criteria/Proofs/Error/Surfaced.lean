import Criteria.Proofs.Error.Reached
import Criteria.Proofs.Nested.Report

/-!
# What settlers are told

A failure that is told to the one who settled a handle is that of a clause of a validator's own list,
also if it has travelled through the lists of validators that serve as rules (`deliver_surfaces`): each
list on the way either tells the failure of its clause itself or hands on what was told further up.
-/

namespace Criteria
set_option autoImplicit false

variable {layout later : Layout} {active : Option Root} {e e' : Engine}

/-- Whether a failure is what a clause of a conjunction has come to. -/
def Layout.Surfaces (layout : Layout) (journal : Journal) (f : Failure) : Prop :=
  ∃ w o k, ∃ check : Check, layout.opening? w = some o ∧ o.combinator = .all ∧ o.checks[k]? = some check ∧
    check.outcome? o.value (w.member k) journal = some (.error f)

/-- Whether all failures that were told are those of clauses of conjunctions. -/
def Layout.Truthful (layout : Layout) (journal : Journal) : Prop :=
  ∀ p f, .told p (.error f) ∈ journal → layout.Surfaces journal f

namespace Layout

variable {journal journal' : Journal}

theorem Surfaces.mono {f : Failure} (h : layout.Surfaces journal f) (ext : layout.Extends later)
    (sub : journal <:+ journal') : later.Surfaces journal' f := by
  obtain ⟨w, o, k, check, found, conjunction, here, failed⟩ := h
  exact ⟨w, o, k, check, ext.opening? found, conjunction, here,
    (Check.lasting_outcome o.value (w.member k) check).mono sub failed⟩

/-- As long as no failure is told, those that were are true. -/
theorem Truthful.since (h : layout.Truthful e.journal) (ext : layout.Extends later)
    (since : Since (fun event => ∀ p f, event ≠ .told p (.error f)) e e') :
    later.Truthful e'.journal := by
  obtain ⟨news, grows, untold⟩ := since
  intro p f mem
  rw [grows] at mem ⊢
  have before := (List.mem_append.1 mem).resolve_left fun new => untold _ new p f rfl
  exact (h p f before).mono ext (List.suffix_append _ _)

theorem Truthful.note (h : layout.Truthful e.journal) {event : Event}
    (untold : ∀ p f, event ≠ .told p (.error f)) : layout.Truthful (e.note event).journal :=
  h.since (.refl layout) (.note untold e)

end Layout

/-- The failure of a conjunction is that of one of its clauses. -/
theorem Placed.surfaces_of_failed (h : Placed layout e) {p : Place} {o : Opening}
    (found : layout.opening? p = some o) (conjunction : o.combinator = .all) {f : Failure}
    (arrived : .error f ∈ o.results p e.journal) : layout.Surfaces e.journal f := by
  obtain ⟨k, check, here, failed⟩ := (h.wellFormed.opening found).mem_results.1 arrived
  exact ⟨p, o, k, check, found, conjunction, here, failed⟩

/-- A failure that a conjunction takes in is that of one of its clauses. -/
theorem Lagging.surfaces {earlier : Journal} {p : Place} {result : Result} {f : Failure} {o : Opening}
    (h : Lagging layout e earlier p result) (found : layout.opening? p = some o)
    (tells : o.combinator.tells result = .error f) : layout.Surfaces e.journal f := by
  cases conjunction : o.combinator with
  | any =>
    rw [conjunction] at tells
    cases tells
  | all =>
    rw [conjunction] at tells
    cases result with
    | ok passed => cases tells
    | error g =>
      cases tells
      refine h.toPlaced.surfaces_of_failed found conjunction ?_
      rw [h.news o found]
      exact List.mem_append_right _ List.mem_cons_self

/-- Settling a handle that nobody asks for tells nothing. -/
theorem detached_truthful (truthful : layout.Truthful e.journal) (p : Place) :
    (e.once p fun e => (.ok (), e)).1 = .ok () ∧
      layout.Truthful (e.once p fun e => (.ok (), e)).2.journal := by
  rw [Engine.once]
  split
  · exact ⟨rfl, truthful.note fun _ _ impossible => by cases impossible⟩
  · exact ⟨rfl, truthful⟩

/-- Answering a question tells what comes of the judgement. -/
theorem answer_surfaces (h : Sound layout e) {p : Place} {question : Question} {onward : Route}
    (owns : layout.Owns e.journal (.asked p question onward)) (truthful : layout.Truthful e.journal)
    (answer : Answer) {next : Result → Engine → Report × Engine}
    (further : ∀ {e : Engine} {result : Result}, Ready layout e onward result →
      layout.Truthful e.journal →
        (∀ f, (next result e).1 = .error f → layout.Surfaces (next result e).2.journal f) ∧
          layout.Truthful (next result e).2.journal) :
    (∀ f, (e.answer p question answer next).1 = .error f →
      layout.Surfaces (e.answer p question answer next).2.journal f) ∧
      layout.Truthful (e.answer p question answer next).2.journal := by
  rw [Engine.answer, Engine.once]
  split
  · exact ⟨fun _ impossible => (by cases impossible),
      truthful.note fun _ _ impossible => (by cases impossible)⟩
  next fresh =>
    have first : p ∉ e.settled := by simpa [Engine.isSettled] using fresh
    have judged : layout.Truthful ((e.markSettled p).note
        (.judged p answer (question.judge (e.templatesOf question.definition) answer))).journal :=
      Layout.Truthful.note (e := e.markSettled p) truthful fun _ _ impossible => by cases impossible
    obtain ⟨raises, kept⟩ := further (h.judge owns first _ answer) judged
    dsimp only
    have surfaces := fun f fails => (raises f fails).mono (.refl layout) (List.suffix_cons (.told p
      (next (question.judge (e.templatesOf question.definition) answer) ((e.markSettled p).note
        (.judged p answer (question.judge (e.templatesOf question.definition) answer)))).1) _)
    refine ⟨surfaces, fun q f mem => ?_⟩
    rcases List.mem_cons.1 mem with same | mem
    · exact surfaces f (Event.told.inj same).2.symm
    · exact (kept q f mem).mono (.refl layout) (List.suffix_cons _ _)

/-- **What is told of a result** is the failure of a clause of a conjunction. -/
theorem deliver_surfaces (route : Route) : ∀ {e : Engine} {result : Result},
    Ready layout e route result → layout.Truthful e.journal →
      (∀ f, (Engine.deliver route result e).1 = .error f →
        layout.Surfaces (Engine.deliver route result e).2.journal f) ∧
      layout.Truthful (Engine.deliver route result e).2.journal := by
  induction route with
  | call call =>
    rintro e result ⟨placed, -, o, root, decided, stands, -⟩ truthful
    obtain ⟨c, recorded, -⟩ := stands.record
    obtain ⟨tells, grows⟩ := complete_eq recorded result
    have sub : e.journal <:+ (e.complete call result).2.journal := grows ▸ List.suffix_append _ _
    rw [Engine.deliver, tells]
    refine ⟨fun f fails => ?_, truthful.since (.refl layout)
      (complete_since e call result fun _ _ impossible => by cases impossible)⟩
    cases result with
    | ok passed => cases fails
    | error g =>
      cases fails
      have conjunction := (placed.calls call o root).1
      have found : layout.opening? (.ofCall call) = some o := root
      rw [Opening.decision?, conjunction, Combinator.decision?_all_eq_error] at decided
      exact (placed.surfaces_of_failed found conjunction (mem_of_firstFailure? decided)).mono
        (.refl layout) sub
  | list p combinator value onward ih =>
    rintro e result ⟨earlier, checks, h, found⟩ truthful
    obtain ⟨held, room⟩ := h.list found
    rw [Engine.deliver]
    cases passes : combinator.passesOn checks.length value
        (Opening.results ⟨combinator, checks, value, onward⟩ p earlier) result with
    | none =>
      rw [Engine.takeIn_kept held room passes]
      refine ⟨fun f fails => h.surfaces found ?_, truthful⟩
      rw [← fails]
      exact (Combinator.ownReport_of_kept room passes).symm
    | some decision =>
      rw [Engine.takeIn_passed held room passes, ← h.taken_eq found]
      obtain ⟨undecided, decided⟩ := h.decision?_passed found passes
      obtain ⟨raises, kept⟩ := ih (h.ready_passed found undecided decided) truthful
      refine ⟨fun f fails => ?_, kept⟩
      dsimp only at fails
      rw [Combinator.tell_passed] at fails
      cases raised : (Engine.deliver onward decision (Lagging.taken e p
          ⟨combinator, checks, value, onward⟩)).1 with
      | error g =>
        rw [raised] at fails
        cases fails
        exact raises f raised
      | ok =>
        rw [raised] at fails
        exact (h.surfaces found fails).mono (.refl layout)
          (deliver_rests onward decision (Lagging.taken e p _)).journal.suffix
  | detached p =>
    intro e result _ truthful
    obtain ⟨nothing, kept⟩ := detached_truthful truthful p
    exact ⟨fun f told => (by cases nothing.symm.trans told), kept⟩
  | answer p question onward ih =>
    rintro e result ⟨sound, owns⟩ truthful
    exact answer_surfaces sound owns truthful (.ok result.holds) ih

/-! ## Steps and runs -/

theorem EvalStep.truthful (step : EvalStep layout active e e') (h : Sound layout e)
    (truthful : layout.Truthful e.journal) : layout.Truthful e'.journal := by
  cases step with
  | invoke => exact truthful.note fun _ _ impossible => by cases impossible
  | @settle handle lends _ answer =>
    cases handle with
    | detached p => exact (detached_truthful truthful p).2
    | asked p question onward =>
      exact (answer_surfaces h lends.owns truthful answer (deliver_surfaces onward)).2
  | @pass p _ handle rule value params _ _ above root _ _ _ owns =>
    have invoked := h.invoke rule false value params above root
    have begun : layout.Truthful (e.note (.invoked p rule false value params)).journal :=
      truthful.note fun _ _ impossible => by cases impossible
    cases handle with
    | detached q => exact (detached_truthful begun q).2
    | asked q question onward =>
      exact (answer_surfaces invoked owns begun (.ok true) (deliver_surfaces onward)).2
  | told => exact truthful.note fun _ _ impossible => by cases impossible
  | openList | park => exact truthful

theorem RunStep.truthful (step : RunStep (layout, e) (later, e')) (h : Sound layout e)
    (truthful : layout.Truthful e.journal) : later.Truthful e'.journal := by
  have ext := (step.follows h).layout
  have still : later.Truthful e.journal := fun p f mem => (truthful p f mem).mono ext (List.suffix_refl _)
  cases step with
  | eval _ step => exact step.truthful h truthful
  | accept value =>
    exact still.since (e := e.enter value) (.refl _) (complete_since (e.enter value) e.calls.size _
      fun _ _ impossible => by cases impossible)
  | @leave _ _ call =>
    exact still.since (e := e.updateCall call _) (.refl _)
      (.note (fun _ _ impossible => by cases impossible) _)
  | log logged =>
    refine still.note fun p f same => ?_
    subst same
    exact logged
  | enter | loosen | lend | drop | define | setTemplate => exact still

/-- **In every run** whoever settles a handle is told the failure of a clause of a conjunction, or
none. -/
theorem Trace.truthful {finish : Layout × Engine} (trace : Trace (.empty, .empty) finish) :
    finish.1.Truthful finish.2.journal := by
  induction trace with
  | refl =>
    intro p f mem
    cases mem
  | @tail middle finish steps step ih => exact step.truthful (Trace.sound steps sound_empty) ih

end Criteria
