import Criteria.Engine.Evaluation
import Criteria.Proofs.Engine.Sound

/-!
# What evaluation leaves alone

`Grows` bounds the effects of evaluating checks and of settling handles: the journal only grows, and
by no event of a session or of a call's return; lists stay open and handles stay kept; nothing is
started outside a given region; and whoever judges a question tells what came of it. Settling a handle
starts nothing at all.
-/

namespace Criteria
set_option autoImplicit false

/-- An event of an evaluation, as opposed to the return of a call or a change of a registry. -/
def Event.Inner : Event → Prop
  | .returned _ _ => False
  | .registered _ _ _ => False
  | .removed _ _ => False
  | .built _ => False
  | _ => True

/-- An event that neither judges an answer nor tells what came of it. -/
def Event.Quiet : Event → Prop
  | .judged _ _ _ => False
  | .told _ _ => False
  | _ => True

/-- Whether those who settled handles first were told something, and nobody else was. -/
def Answered (events : Journal) : Prop :=
  ∀ p, (∃ answer result, Event.judged p answer result ∈ events) ↔
    ∃ report, Event.told p report ∈ events

/-- The journal has grown by events of evaluation. -/
def Prolongs (earlier later : Journal) : Prop :=
  ∃ news, later = news ++ earlier ∧ (∀ event ∈ news, event.Inner) ∧ Answered news

/-- What happened between two states of an engine was evaluation, which started nothing outside a
region. -/
structure Grows (region : Place → Prop) (e e' : Engine) : Prop where
  templates : e'.templates = e.templates
  loose : e'.loose = e.loose
  calls : e'.calls.size = e.calls.size
  parked : e.parked <+: e'.parked
  opened : ∀ p, e.Opened p → e'.Opened p
  journal : Prolongs e.journal e'.journal
  known : ∀ p, e'.Known p → e.Known p ∨ region p

namespace Answered

variable {news earlier : Journal}

theorem append (first : Answered earlier) (second : Answered news) : Answered (news ++ earlier) := by
  intro p
  simp only [List.mem_append, exists_or, first p, second p]

theorem cons {event : Event} (quiet : event.Quiet) (h : Answered earlier) :
    Answered (event :: earlier) := by
  intro p
  have unjudged : ∀ answer result, Event.judged p answer result ≠ event := by
    rintro answer result rfl
    exact quiet
  have untold : ∀ report, Event.told p report ≠ event := by
    rintro report rfl
    exact quiet
  simp only [List.mem_cons, unjudged, untold, false_or]
  exact h p

theorem nil : Answered [] := by
  intro p
  simp

end Answered

namespace Prolongs

variable {first middle last : Journal}

theorem refl (journal : Journal) : Prolongs journal journal := ⟨[], rfl, by simp, .nil⟩

theorem trans (earlier : Prolongs first middle) (later : Prolongs middle last) :
    Prolongs first last := by
  obtain ⟨news, rfl, inner, answered⟩ := earlier
  obtain ⟨more, rfl, inner', answered'⟩ := later
  refine ⟨more ++ news, by simp, ?_, answered.append answered'⟩
  intro event mem
  exact (List.mem_append.1 mem).elim (inner' event) (inner event)

theorem suffix (h : Prolongs first last) : first <:+ last := by
  obtain ⟨news, rfl, -, -⟩ := h
  exact List.suffix_append _ _

theorem answered (h : Prolongs first last) (before : Answered first) : Answered last := by
  obtain ⟨news, rfl, -, answered⟩ := h
  exact before.append answered

/-- One event that has to do with no judgement. -/
theorem cons {event : Event} (inner : event.Inner) (quiet : event.Quiet) (journal : Journal) :
    Prolongs journal (event :: journal) := by
  refine ⟨[event], rfl, ?_, Answered.nil.cons quiet⟩
  simpa using inner

/-- A judgement, what follows from it, and what its settler is told. -/
theorem judgement {p : Place} {answer : Answer} {result : Result} {report : Report}
    (h : Prolongs (.judged p answer result :: first) last) :
    Prolongs first (.told p report :: last) := by
  obtain ⟨news, rfl, inner, answered⟩ := h
  refine ⟨.told p report :: (news ++ [.judged p answer result]), by simp, ?_, ?_⟩
  · intro event mem
    simp only [List.mem_cons, List.mem_append, List.not_mem_nil, or_false] at mem
    obtain rfl | mem | rfl := mem
    · trivial
    · exact inner event mem
    · trivial
  · intro q
    have here := answered q
    simp only [List.mem_cons, List.mem_append, List.not_mem_nil, or_false, reduceCtorEq, false_or,
      exists_or, Event.judged.injEq, Event.told.injEq] at here ⊢
    rw [here, or_comm]
    refine or_congr ?_ Iff.rfl
    exact ⟨fun ⟨_, _, same, _⟩ => ⟨report, same, rfl⟩, fun ⟨_, same, _⟩ => ⟨answer, result, same, rfl, rfl⟩⟩

theorem returned? (h : Prolongs first last) (call : Nat) :
    returned? call last = returned? call first := by
  obtain ⟨news, rfl, inner, -⟩ := h
  induction news with
  | nil => rfl
  | cons event news ih =>
    have rest := ih fun event mem => inner event (List.mem_cons_of_mem _ mem)
    have here := inner event List.mem_cons_self
    cases event <;> first | exact rest | exact here.elim

end Prolongs

namespace Grows

variable {region wider : Place → Prop} {e e' e'' : Engine}

theorem refl (region : Place → Prop) (e : Engine) : Grows region e e :=
  ⟨rfl, rfl, rfl, List.prefix_refl _, fun _ => id, .refl _, fun _ => .inl⟩

theorem trans (first : Grows region e e') (second : Grows region e' e'') : Grows region e e'' where
  templates := second.templates.trans first.templates
  loose := second.loose.trans first.loose
  calls := second.calls.trans first.calls
  parked := first.parked.trans second.parked
  opened p opened := second.opened p (first.opened p opened)
  journal := first.journal.trans second.journal
  known p known := (second.known p known).elim (first.known p) .inr

theorem mono (h : Grows region e e') (sub : ∀ p, region p → wider p) : Grows wider e e' :=
  { h with known := fun p known => (h.known p known).imp_right (sub p) }

end Grows

/-- Evaluation that starts nothing. -/
abbrev Rests : Engine → Engine → Prop := Grows fun _ => False

theorem Rests.grows {e e' : Engine} (h : Rests e e') (region : Place → Prop) : Grows region e e' :=
  h.mono fun _ => False.elim

theorem Rests.note {e : Engine} {event : Event} (inner : event.Inner) (plain : event.Plain)
    (quiet : event.Quiet) : Rests e (e.note event) where
  templates := rfl
  loose := rfl
  calls := rfl
  parked := List.prefix_refl _
  opened _ := id
  journal := .cons inner quiet _
  known _ known := .inl (known.imp_right (issued_cons_of_plain plain).1)

theorem Rests.updateCall (e : Engine) (call : Nat) (change : Call → Call) :
    Rests e (e.updateCall call change) :=
  { Grows.refl _ e with calls := by rw [Engine.updateCall, Store.size_update] }

theorem Rests.park (e : Engine) (handle : Handle) : Rests e (e.park handle) :=
  { Grows.refl _ e with parked := List.prefix_append _ _ }

theorem Rests.markSettled (e : Engine) (p : Place) : Rests e (e.markSettled p) :=
  { Grows.refl _ e with }

theorem Rests.putList {e : Engine} {p : Place} (here : e.Opened p) (progress : Progress) :
    Rests e (e.putList p progress) :=
  have opened : ∀ q, (e.putList p progress).Opened q ↔ e.Opened q := fun q => by
    rw [Engine.Opened, Engine.putList, Board.get?_put]
    by_cases same : q = p
    · subst same
      simpa using here
    · simp [same, Engine.Opened]
  { Grows.refl (fun _ => False) e with
    opened := fun q => (opened q).2
    known := fun q known => .inl (known.imp_left (opened q).1) }

theorem complete_rests (e : Engine) (call : Nat) (result : Result) :
    Rests e (e.complete call result).2 := by
  have told : ∀ change, Rests e ((e.updateCall call change).note (.completed call result)) :=
    fun change => (Rests.updateCall e call change).trans (Rests.note trivial trivial trivial)
  unfold Engine.complete
  split
  · exact Grows.refl _ e
  · exact .updateCall e call _
  · exact told _

theorem takeIn_rests (e : Engine) (p : Place) (combinator : Combinator) (value : Json)
    (result : Result) {next : Result → Engine → Report × Engine}
    (further : ∀ result e, Rests e (next result e).2) :
    Rests e (e.takeIn p combinator value result next).2 := by
  unfold Engine.takeIn
  split
  · exact Grows.refl _ e
  next progress held =>
    have here : e.Opened p := by simp [Engine.Opened, held]
    dsimp only
    split
    · split
      · exact (Rests.putList here _).trans (further _ _)
      · exact .putList here _
    · exact .putList here _

theorem answer_rests (e : Engine) (p : Place) (question : Question) (answer : Answer)
    {next : Result → Engine → Report × Engine} (further : ∀ result e, Rests e (next result e).2) :
    Rests e (e.answer p question answer next).2 := by
  unfold Engine.answer Engine.once
  split
  · exact .note trivial trivial trivial
  · have plain : ∀ report, (Event.told p report).Plain := fun _ => trivial
    have after := further (question.judge (e.templatesOf question.definition) answer)
      ((e.markSettled p).note
        (.judged p answer (question.judge (e.templatesOf question.definition) answer)))
    exact { after with
      journal := after.journal.judgement
      known := fun q known => by
        obtain known | impossible := after.known q
          (known.imp_right (issued_cons_of_plain (plain _)).1)
        · exact .inl (known.imp_right issued_cons_judged.1)
        · exact impossible.elim }

theorem detached_rests (e : Engine) (p : Place) :
    Rests e (e.once p fun e => (.ok (), e)).2 := by
  unfold Engine.once
  split
  · exact .note trivial trivial trivial
  · exact .markSettled e p

/-- Delivery starts nothing. -/
theorem deliver_rests (route : Route) : ∀ (result : Result) (e : Engine),
    Rests e (Engine.deliver route result e).2 := by
  induction route with
  | call call => exact fun result e => complete_rests e call result
  | list p combinator value onward ih =>
    exact fun result e => takeIn_rests e p combinator value result ih
  | detached p => exact fun _ e => detached_rests e p
  | answer p question onward ih =>
    exact fun result e => answer_rests e p question (.ok result.holds) ih

/-- Settling starts nothing. -/
theorem settle_rests (handle : Handle) (answer : Answer) (e : Engine) :
    Rests e (Engine.settle handle answer e).2 := by
  cases handle with
  | detached p => exact detached_rests e p
  | asked p question onward => exact answer_rests e p question answer (deliver_rests onward)

end Criteria
