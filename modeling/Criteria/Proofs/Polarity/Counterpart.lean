import Criteria.Proofs.Mirror.Pairing
import Criteria.Proofs.Polarity.Turned
import Criteria.Proofs.Run.Advance

/-!
# Engines of opposite polarity

Two engines are dual if the second could be the first one with some clauses turned: they have come to the
same, but for the handles of these clauses, their answers, and the failures of their questions. Such a
failure has the other flag, and its message is in the words for the other polarity; nothing else in an
error differs (`Failure.Counterpart`). Which failures these are is read off the journal of a whole run,
where each judgement is noted with its place.
-/

namespace Criteria
set_option autoImplicit false

/-! ## Failures -/

/-- The failure of the same clause, which has the other polarity if it is turned: the flag differs then,
and the message may. -/
structure Failure.Turned (turned : Bool) (f f' : Failure) : Prop where
  message : turned = false → f'.message = f.message
  value : f'.value = f.value
  rule : f'.rule = f.rule
  negated : f'.negated = (f.negated ^^ turned)
  params : f'.params = f.params
  nested : f'.nested = f.nested
  cause : f'.cause = f.cause

/-- A run and the turned run: which clauses are chosen, which numbers of kept handles are those of chosen
clauses, and what happens in the course of both. -/
structure Turning where
  chosen : Place → Bool
  marked : Nat → Bool
  plain : Journal
  turned : Journal

/-- Failures that correspond: those of the same question in both runs, which is turned if its clause is
chosen, or aggregates of failures that correspond. -/
inductive Failure.Counterpart (t : Turning) : Failure → Failure → Prop where
  | leaf {p : Place} {answer answer' : Answer} {f f' : Failure}
      (judged : .judged p answer (.error f) ∈ t.plain)
      (judged' : .judged p answer' (.error f') ∈ t.turned) (turned : f.Turned (t.chosen p) f') :
      Counterpart t f f'
  | group {value : Json} {fs gs : List Failure} (nested : List.Forall₂ (Counterpart t) fs gs) :
      Counterpart t (.aggregate value fs) (.aggregate value gs)

/-- The pairing of the failures that correspond. -/
def Turning.pairing (t : Turning) : Pairing where
  pairs := Failure.Counterpart t
  aggregate _ _ _ nested := .group nested

namespace Question

variable (q : Question) (turned : Bool) (templates : Templates)

theorem failure_turn :
    (q.failure templates).Turned turned ((q.turn turned).failure templates) where
  message := by
    rintro rfl
    rw [turn_false]
  value := rfl
  rule := rfl
  negated := rfl
  params := rfl
  nested := rfl
  cause := rfl

/-- **A turned question judges a turned answer as the question judges the answer**: both are accepted,
or both are refused with failures that correspond. A rejection is refused with the same cause. -/
theorem judge_turn (answer : Answer) :
    (q.judge templates answer = .ok true ∧
      (q.turn turned).judge templates (answer.turn turned) = .ok true) ∨
    ∃ f f', q.judge templates answer = .error f ∧
      (q.turn turned).judge templates (answer.turn turned) = .error f' ∧ f.Turned turned f' ∧
      ∀ cause, answer = .error cause → f.cause = some cause ∧ f'.cause = some cause := by
  have failed := q.failure_turn turned templates
  cases answer with
  | ok holds =>
    have same : ((holds ^^ turned) = (q.negated ^^ turned)) = (holds = q.negated) := by simp
    simp only [judge, Answer.turn, turn, same]
    split
    · exact .inr ⟨_, _, rfl, rfl, failed, fun cause impossible => by cases impossible⟩
    · exact .inl ⟨rfl, rfl⟩
  | error cause =>
    refine .inr ⟨_, _, rfl, rfl, { failed with cause := rfl }, fun cause' same => ?_⟩
    cases same
    exact ⟨rfl, rfl⟩

/-- Judgements of a question and of the turned question correspond if both runs note them. -/
theorem judge_paired {t : Turning} {p : Place} {answer : Answer}
    (judged : .judged p answer (q.judge templates answer) ∈ t.plain)
    (judged' : .judged p (answer.turn (t.chosen p))
      ((q.turn (t.chosen p)).judge templates (answer.turn (t.chosen p))) ∈ t.turned) :
    t.pairing.Results (q.judge templates answer)
      ((q.turn (t.chosen p)).judge templates (answer.turn (t.chosen p))) := by
  obtain ⟨accepts, accepts'⟩ | ⟨f, f', refuses, refuses', turned, -⟩ :=
    q.judge_turn (t.chosen p) templates answer
  · rw [accepts, accepts']
    exact .ok true
  · rw [refuses] at judged
    rw [refuses'] at judged'
    rw [refuses, refuses']
    exact .error (.leaf judged judged' turned)

end Question

/-! ## Engines -/

variable {t : Turning}

/-- What two dual engines note at the same moment. -/
inductive Event.Dual (t : Turning) : Event → Event → Prop where
  | invoked (p : Place) (rule : String) (scripted : Bool) (value : Json) (params : List Json) :
      Dual t (.invoked p rule scripted value params) (.invoked p rule scripted value params)
  | judged (p : Place) (question : Question) (templates : Templates) (answer : Answer) :
      Dual t (.judged p answer (question.judge templates answer))
        (.judged p (answer.turn (t.chosen p))
          ((question.turn (t.chosen p)).judge templates (answer.turn (t.chosen p))))
  | told (p : Place) {report report' : Report} (paired : t.pairing.Results report report') :
      Dual t (.told p report) (.told p report')
  | settledBy (rule : String) {report report' : Report}
      (paired : t.pairing.Results report report') :
      Dual t (.settledBy rule report) (.settledBy rule report')
  | completed (call : Nat) {result result' : Result} (paired : t.pairing.Results result result') :
      Dual t (.completed call result) (.completed call result')
  | returned (call : Nat) {result result' : Result} (paired : t.pairing.Results result result') :
      Dual t (.returned call result) (.returned call result')
  | repeated (p : Place) : Dual t (.repeated p) (.repeated p)
  | logged {event : Event} (logged : event.Logged) : Dual t event event

/-- Engines that have come to the same, but for the polarity of the chosen clauses. -/
structure Dual (t : Turning) (e s : Engine) : Prop where
  templates : e.templates = s.templates
  settled : e.settled = s.settled
  loose : e.loose = s.loose
  size : e.calls.size = s.calls.size
  lists : ∀ p, Option.Rel t.pairing.Lists (e.lists.get? p) (s.lists.get? p)
  calls : ∀ call, Option.Rel t.pairing.Calls (e.calls.get? call) (s.calls.get? call)
  parked : s.parked = e.parked.map (Option.map (Handle.turn t.chosen))
  free : ∀ handle, some handle ∈ e.parked → handle.Free t.chosen
  journal : List.Forall₂ (Event.Dual t) e.journal s.journal

namespace Dual

variable {e s : Engine}

/-- Before anything has happened. -/
theorem empty (t : Turning) : Dual t .empty .empty where
  templates := rfl
  settled := rfl
  loose := rfl
  size := rfl
  lists _ := .none
  calls _ := .none
  parked := rfl
  free _ mem := by cases mem
  journal := .nil

/-! ### What is read off dual engines -/

theorem isSettled (h : Dual t e s) (p : Place) : e.isSettled p = s.isSettled p := by
  rw [Engine.isSettled, Engine.isSettled, h.settled]

theorem templatesOf (h : Dual t e s) (definition : Nat) :
    e.templatesOf definition = s.templatesOf definition := by
  rw [Engine.templatesOf, Engine.templatesOf, h.templates]

theorem loosePlace (h : Dual t e s) : e.loosePlace = s.loosePlace := by
  rw [Engine.loosePlace, Engine.loosePlace, h.loose]

/-- What both have of a list that agrees on paired lists. -/
theorem read (h : Dual t e s) (p : Place) {field : Progress → Bool}
    (agrees : ∀ {progress progress'}, t.pairing.Lists progress progress' →
      field progress = field progress') :
    ((e.lists.get? p).map field).getD false = ((s.lists.get? p).map field).getD false := by
  have lists := h.lists p
  generalize e.lists.get? p = list at lists ⊢
  generalize s.lists.get? p = list' at lists ⊢
  cases lists with
  | none => rfl
  | some paired => exact agrees paired

theorem isRejected (h : Dual t e s) (p : Place) : e.isRejected p = s.isRejected p :=
  h.read p Pairing.Lists.isRejected

theorem passed (h : Dual t e s) (p : Place) : e.passed p = s.passed p :=
  h.read p Pairing.Lists.passed

theorem isAwaited (h : Dual t e s) (p : Place) : e.isAwaited p = s.isAwaited p :=
  h.read p Pairing.Lists.awaited

theorem parked? (h : Dual t e s) (index : Nat) :
    s.parked? index = (e.parked? index).map (Handle.turn t.chosen) := by
  rw [Engine.parked?, Engine.parked?, h.parked, List.getElem?_map]
  cases e.parked[index]? <;> rfl

theorem free_of_parked? (h : Dual t e s) {index : Nat} {handle : Handle}
    (kept : e.parked? index = some handle) : handle.Free t.chosen :=
  h.free handle (Engine.mem_of_parked? kept)

/-- A route leads to a call in both engines or in none. -/
theorem leadsTo (h : Dual t e s) (call : Nat) (route : Route) :
    e.leadsTo call route = s.leadsTo call route := by
  induction route with
  | call id => rfl
  | detached p => rfl
  | list p combinator value onward ih => rw [Engine.leadsTo, Engine.leadsTo, h.isAwaited p, ih]
  | answer p question onward ih => rw [Engine.leadsTo, Engine.leadsTo, h.isSettled p, ih]

/-! ### What keeps engines dual -/

theorem note (h : Dual t e s) {event event' : Event}
    (dual : event.Dual t event') :
    Dual t (e.note event) (s.note event') :=
  { h with journal := .cons dual h.journal }

theorem markSettled (h : Dual t e s) (p : Place) :
    Dual t (e.markSettled p) (s.markSettled p) :=
  { h with settled := congrArg (p :: ·) h.settled }

theorem putList (h : Dual t e s) (p : Place) {progress progress' : Progress}
    (paired : t.pairing.Lists progress progress') :
    Dual t (e.putList p progress) (s.putList p progress') :=
  { h with
    lists := by
      intro q
      simp only [Engine.putList, Board.get?_put]
      split
      · exact .some paired
      · exact h.lists q }

theorem updateCall (h : Dual t e s) (call : Nat) {change change' : Call → Call}
    (paired : ∀ {c d}, t.pairing.Calls c d →
      t.pairing.Calls (change c) (change' d)) :
    Dual t (e.updateCall call change) (s.updateCall call change') :=
  { h with
    size := by
      simp only [Engine.updateCall, Store.size_update]
      exact h.size
    calls := by
      intro id
      have before := h.calls id
      simp only [Engine.updateCall, Store.get?_update]
      split
      · generalize e.calls.get? id = record at before ⊢
        generalize s.calls.get? id = record' at before ⊢
        cases before with
        | none => exact .none
        | some before => exact .some (paired before)
      · exact before }

theorem park (h : Dual t e s) {handle : Handle} (free : handle.Free t.chosen) :
    Dual t (e.park handle) (s.park (handle.turn t.chosen)) :=
  { h with
    parked := by
      simp only [Engine.park, h.parked, List.map_append]
      rfl
    free := by
      intro kept mem
      simp only [Engine.park, List.mem_append, List.mem_singleton, Option.some.injEq] at mem
      obtain mem | rfl := mem
      · exact h.free kept mem
      · exact free }

theorem dropParked (h : Dual t e s) (index : Nat) :
    Dual t (e.dropParked index) (s.dropParked index) :=
  { h with
    parked := by
      simp only [Engine.dropParked, h.parked, List.map_set]
      rfl
    free := by
      intro kept mem
      obtain before | gone := List.mem_or_eq_of_mem_set mem
      · exact h.free kept before
      · cases gone }

theorem enter (h : Dual t e s) (value : Json) :
    Dual t (e.enter value) (s.enter value) :=
  { h with
    size := by
      simp only [Engine.enter, Store.size_add]
      exact congrArg (· + 1) h.size
    calls := by
      intro id
      simp only [Engine.enter, Store.get?_add, h.size]
      split
      · exact .some ⟨rfl, .none, .none, .none⟩
      · exact h.calls id }

theorem takeLoose (h : Dual t e s) : Dual t e.takeLoose s.takeLoose :=
  { h with loose := congrArg (· + 1) h.loose }

theorem parkDetached (h : Dual t e s) :
    Dual t e.parkDetached s.parkDetached := by
  rw [Engine.parkDetached, Engine.parkDetached, ← h.loosePlace]
  have free : Handle.Free t.chosen (.detached e.loosePlace) := trivial
  exact h.takeLoose.park free

theorem define (h : Dual t e s) (templates : Templates) :
    Dual t (e.define templates) (s.define templates) :=
  { h with templates := congrArg (·.add templates) h.templates }

theorem setTemplate (h : Dual t e s) (definition : Nat) (negated : Bool)
    (template : Option String) :
    Dual t (e.setTemplate definition negated template)
      (s.setTemplate definition negated template) :=
  { h with
    templates := congrArg (·.update definition fun t => t.set negated template) h.templates }

end Dual

/-! ## What is foretold -/

/-- The journal has grown and handles were kept, if anything, since an engine was in the first state. -/
structure Onward (e e' : Engine) : Prop where
  journal : e.journal <:+ e'.journal
  parked : e.parked <+: e'.parked

/-- Evaluation only adds to the journal and to the kept handles. -/
theorem Onward.advances : Advances Onward where
  refl _ := ⟨List.suffix_refl _, List.prefix_refl _⟩
  trans first second := ⟨first.journal.trans second.journal, first.parked.trans second.parked⟩
  note _ event := ⟨List.suffix_cons event _, List.prefix_refl _⟩
  markSettled _ _ := ⟨List.suffix_refl _, List.prefix_refl _⟩
  putList _ _ _ := ⟨List.suffix_refl _, List.prefix_refl _⟩
  updateCall _ _ _ := ⟨List.suffix_refl _, List.prefix_refl _⟩
  park _ _ := ⟨List.suffix_refl _, List.prefix_append _ _⟩
  enter _ _ := ⟨List.suffix_refl _, List.prefix_refl _⟩
  takeLoose _ := ⟨List.suffix_refl _, List.prefix_refl _⟩

theorem Engine.lt_of_parked? {e : Engine} {index : Nat} {handle : Handle}
    (kept : e.parked? index = some handle) : index < e.parked.length := by
  apply Classical.byContradiction
  intro outside
  rw [parked?, List.getElem?_eq_none (by omega)] at kept
  cases kept

/-- Whatever numbers were given out belong to the same handles. -/
theorem Onward.parked? {e e' : Engine} (h : Onward e e') {index : Nat}
    (inside : index < e.parked.length) : e'.parked? index = e.parked? index := by
  obtain ⟨more, grown⟩ := h.parked
  rw [Engine.parked?, ← grown, List.getElem?_append_left inside]
  rfl

/-- The numbers of the kept handles of chosen clauses are the marked ones, and what has happened is part
of what happens in both runs. -/
structure Foretold (t : Turning) (e s : Engine) : Prop where
  marks : ∀ index handle, e.parked? index = some handle →
    t.marked index = handle.isChosen t.chosen
  plain : ∀ event ∈ e.journal, event ∈ t.plain
  turned : ∀ event ∈ s.journal, event ∈ t.turned

/-- What is foretold of engines was so before. -/
theorem Foretold.before {e e' s s' : Engine} (h : Foretold t e' s') (later : Onward e e')
    (later' : Onward s s') : Foretold t e s where
  marks index handle kept := by
    apply h.marks
    rw [later.parked? (Engine.lt_of_parked? kept)]
    exact kept
  plain event mem := h.plain event (later.journal.subset mem)
  turned event mem := h.turned event (later'.journal.subset mem)

end Criteria
