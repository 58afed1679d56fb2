import Criteria.Proofs.Run.Move

/-!
# Calls as steps

`call_trace` takes a call apart: its beginning, the evaluation of its checks, and its return with the
failure that its list has come to by then, or else with acceptance. With the other moves taken apart
in the same way, every run of moves is a sequence of steps (`run_course`).
-/

namespace Criteria
set_option autoImplicit false

variable {layout later : Layout} {e : Engine}

/-! ## What a judgement can be -/

/-- A result is a failure or acceptance: a list never comes to a plain no. -/
def Result.Clear (result : Result) : Prop := result = .ok true ∨ ∃ f, result = .error f

theorem Question.clear_judge (q : Question) (templates : Templates) (answer : Answer) :
    (q.judge templates answer).Clear := by
  cases answer with
  | ok holds =>
    rw [Question.judge]
    split
    · exact .inr ⟨_, rfl⟩
    · exact .inl rfl
  | error cause => exact .inr ⟨_, rfl⟩

theorem clear_alternative (value : Json) (results : List Result) :
    (alternative value results).Clear := by
  rw [alternative]
  split
  · exact .inl rfl
  · exact .inr ⟨_, rfl⟩

/-- Whether all judgements in a journal are clear. -/
def Clearly (journal : Journal) : Prop :=
  ∀ p answer result, Event.judged p answer result ∈ journal → result.Clear

theorem Clearly.mono {journal earlier : Journal} (h : Clearly journal) (sub : earlier <:+ journal) :
    Clearly earlier :=
  fun p answer result mem => h p answer result (sub.subset mem)

theorem Clearly.outcome {journal : Journal} (h : Clearly journal) {value : Json} {p : Place}
    {check : Check} {result : Result} (found : check.outcome? value p journal = some result) :
    result.Clear := by
  cases check with
  | rule definition name body negated params =>
    obtain ⟨answer, mem⟩ := mem_of_judgement? found
    exact h p answer result mem
  | group members =>
    rw [Check.outcome?, disjunction?] at found
    split at found
    · cases found
      exact clear_alternative value _
    · cases found

theorem Placed.clearly (h : Placed layout e) : Clearly e.journal := by
  intro p answer result mem
  obtain ⟨-, question, onward, templates, -, rfl⟩ := h.judged p answer result mem
  exact question.clear_judge templates answer

theorem Placed.clear_results (h : Placed layout e) {o : Opening} (wf : o.WellFormed) {p : Place}
    {result : Result} (mem : result ∈ o.results p e.journal) : result.Clear := by
  obtain ⟨i, check, -, found⟩ := wf.mem_results.1 mem
  exact h.clearly.outcome found

/-- Without a failure, clear results all hold. -/
theorem all_holds_of_clear {results : List Result} (clear : ∀ result ∈ results, result.Clear)
    (clean : firstFailure? results = none) : results.all Result.holds = true := by
  rw [List.all_eq_true]
  intro result mem
  obtain rfl | ⟨f, rfl⟩ := clear result mem
  · rfl
  · have := firstFailure?_eq_none_iff.1 clean _ mem
    simp [Except.isOk, Except.toBool] at this

/-! ## Conjunctions -/

/-- Whether all checks of the list at a place have passed. -/
def Check.AllPassed (value : Json) (place : Place) (checks : List Check) (journal : Journal) : Prop :=
  ∀ part ∈ Check.outcomes value place 0 checks, part journal = some (.ok true)

/-- The failure of the check of the list at a place that failed first. -/
def Check.failure? (value : Json) (place : Place) (checks : List Check) (journal : Journal) :
    Option Failure :=
  firstFailure? (arrivals (Check.outcomes value place 0 checks) journal)

/-- What has passed stays passed. -/
theorem Check.AllPassed.mono {value : Json} {place : Place} {checks : List Check}
    {earlier journal : Journal} (passed : Check.AllPassed value place checks earlier)
    (sub : earlier <:+ journal) : Check.AllPassed value place checks journal :=
  fun part mem => (Check.lasting_outcomes value place 0 checks part mem).mono sub (passed part mem)

/-- No check has failed where all have passed. -/
theorem Check.AllPassed.clean {value : Json} {place : Place} {checks : List Check} {journal : Journal}
    (passed : Check.AllPassed value place checks journal) (wf : Check.allWellFormed checks = true) :
    Check.failure? value place checks journal = none := by
  have wfAll : Opening.WellFormed ⟨.all, checks, value, .call 0⟩ := wf
  refine firstFailure?_eq_none_iff.2 fun result mem => ?_
  obtain ⟨i, check, found, outcome⟩ := wfAll.mem_results.1 mem
  have passes : check.outcome? value (place.member i) journal = some (.ok true) :=
    (Opening.forall_mem_parts (o := ⟨.all, checks, value, .call 0⟩)).1 passed i check found
  obtain rfl : .ok true = result := Option.some.inj (passes.symm.trans outcome)
  rfl

namespace Opening

variable {call : Nat} {checks : List Check} {value : Json} {p : Place} {journal : Journal}

/-- Whether all clauses of a list have passed. -/
abbrev Passed (o : Opening) (p : Place) : Journal → Prop := Check.AllPassed o.value p o.checks

/-- The failure of the clause that failed first. -/
abbrev failure? (o : Opening) (p : Place) : Journal → Option Failure :=
  Check.failure? o.value p o.checks

/-- Where no clause has failed, those that have come to something have passed. -/
theorem WellFormed.passed_of_clean {o : Opening} (wf : o.WellFormed) (clear : Clearly journal)
    (clean : o.failure? p journal = none) (come : ∀ part ∈ o.parts p, (part journal).isSome = true) :
    o.Passed p journal := by
  intro part mem
  obtain ⟨i, check, found, rfl⟩ := Check.mem_outcomes mem
  obtain ⟨result, outcome⟩ := Option.isSome_iff_exists.1 (come _ mem)
  obtain rfl | ⟨f, rfl⟩ := clear.outcome outcome
  · exact outcome
  · have ok := firstFailure?_eq_none_iff.1 clean _ (wf.mem_results.2 ⟨i, check, found, outcome⟩)
    simp [Except.isOk, Except.toBool] at ok

/-- **A conjunction accepts** when all its clauses have passed, and fails with its first failure. -/
theorem WellFormed.decision?_all {o : Opening} (wf : o.WellFormed)
    (conjunction : o.combinator = .all) (clear : Clearly journal) {decision : Result} :
    o.decision? p journal = some decision ↔
      (decision = .ok true ∧ o.Passed p journal) ∨
        ∃ f, decision = .error f ∧ o.failure? p journal = some f := by
  cases failed : o.failure? p journal with
  | some f =>
    have unpassed : ¬ o.Passed p journal := fun passed => by
      cases failed.symm.trans (passed.clean wf)
    have fails : firstFailure? (o.results p journal) = some f := failed
    rw [decision?, conjunction, Combinator.decision?_all_of_failure fails]
    simp [unpassed, eq_comm]
  | none =>
    have sized := wf.length_results_eq_iff p journal
    have clears : ∀ result ∈ o.results p journal, result.Clear := by
      intro result mem
      obtain ⟨i, check, -, found⟩ := wf.mem_results.1 mem
      exact clear.outcome found
    have clean : firstFailure? (o.results p journal) = none := failed
    have decides : o.decision? p journal =
        if (o.results p journal).length = o.checks.length then some (.ok true) else none := by
      rw [decision?, conjunction, Combinator.decision?, clean, all_holds_of_clear clears clean]
    have passes : o.Passed p journal ↔ (o.results p journal).length = o.checks.length := by
      rw [sized]
      refine ⟨fun passed part mem => ?_, wf.passed_of_clean clear failed⟩
      rw [passed part mem]
      rfl
    rw [decides, passes]
    split
    next full => simp [full, eq_comm]
    next short => simp [short]

/-- What a conjunction comes to is clear. -/
theorem WellFormed.clear_decision?_all {o : Opening} (wf : o.WellFormed)
    (conjunction : o.combinator = .all) (clear : Clearly journal) {decision : Result}
    (decided : o.decision? p journal = some decision) : decision.Clear :=
  ((wf.decision?_all conjunction clear).1 decided).imp And.left
    fun ⟨f, fails, _⟩ => ⟨f, fails⟩

/-- The list of a call fails with its first failure. -/
theorem decision?_ofCall_eq_error {f : Failure} :
    (ofCall call checks value).decision? p journal = some (.error f) ↔
      firstFailure? ((ofCall call checks value).results p journal) = some f :=
  Combinator.decision?_all_eq_error

theorem answerNow_eq_error {f : Failure} :
    answerNow ((ofCall call checks value).decision? p journal) = .error f ↔
      firstFailure? ((ofCall call checks value).results p journal) = some f := by
  rw [← decision?_ofCall_eq_error]
  rcases (ofCall call checks value).decision? p journal with _ | _ | _ <;> simp [answerNow]

end Opening

theorem clear_answerNow (decision : Option Result) : (answerNow decision).Clear := by
  rcases decision with _ | f | passed
  · exact .inl rfl
  · exact .inr ⟨f, rfl⟩
  · exact .inl rfl

/-- As long as a call has not returned, its result is that of its list. -/
theorem Sound.call_result (h : Sound layout e) {call : Nat} {checks : List Check} {value : Json}
    (found : layout (.call call) = some (.ofCall call checks value))
    (pending : returned? call e.journal = none) {passed : Bool}
    (passes : firstFailure? ((Opening.ofCall call checks value).results (.ofCall call) e.journal) =
      none → passed = true) :
    (match (e.calls.get? call).bind (·.failure) with
      | some f => .error f
      | none => .ok passed : Result) =
      answerNow ((Opening.ofCall call checks value).decision? (.ofCall call) e.journal) := by
  obtain ⟨⟨c, held, -, returned, failure, -⟩, -⟩ := h.reported call _ found
  have unanswered : c.returned = none := by rw [returned, pending, Option.map_none]
  rw [held, Option.bind_some, failure unanswered]
  cases clean : firstFailure? ((Opening.ofCall call checks value).results (.ofCall call) e.journal)
    with
  | some f =>
    rw [Opening.decision?_ofCall_eq_error.2 clean]
    rfl
  | none =>
    cases decided : (Opening.ofCall call checks value).decision? (.ofCall call) e.journal with
    | none => simp [passes clean, answerNow]
    | some decision =>
      cases decision with
      | ok b => simp [passes clean, Result.failure?, answerNow]
      | error f =>
        rw [Opening.decision?_ofCall_eq_error, clean] at decided
        cases decided

/-- A call that has accepted had no failure by then, and its completion has received what its list has
come to. -/
theorem Sound.delivered_of_accepted (h : Sound layout e) {call : Nat} {checks : List Check}
    {value : Json} {before : Journal}
    (found : layout (.call call) = some (.ofCall call checks value))
    (returned : returned? call e.journal = some (.ok true, before)) :
    firstFailure? ((Opening.ofCall call checks value).results (.ofCall call) before) = none ∧
      completions call e.journal =
        ((Opening.ofCall call checks value).decision? (.ofCall call) e.journal).toList := by
  have delivered := (h.reported call _ found).delivered
  rw [Delivered, returned] at delivered
  obtain ⟨-, clean, received⟩ | ⟨f, impossible, -⟩ := delivered
  · refine ⟨?_, received⟩
    rw [Option.eq_none_iff_forall_ne_some]
    exact fun f failed => clean f (Opening.decision?_ofCall_eq_error.2 failed)
  · cases impossible

/-! ## Calls -/

namespace Engine

/-- The engine in which a call has opened its list. -/
def opened (e : Engine) (checks : List Check) (value : Json) : Engine :=
  (e.enter value).putList (.ofCall e.calls.size) (.start .all checks.length)

/-- The engine in which a call has started its checks. -/
def started (e : Engine) (checks : List Check) (value : Json) : Engine :=
  startAll value (.ofCall e.calls.size) 0 checks
    (.list (.ofCall e.calls.size) .all value (.call e.calls.size)) (e.opened checks value)

theorem call_of_empty {v : Validator} (empty : v.checks = []) (value : Json) :
    e.call v value =
      let after := ((e.enter value).complete e.calls.size (.ok true)).2
      let result : Result := match (after.calls.get? e.calls.size).bind (·.failure) with
        | some f => .error f
        | none => .ok true
      (result, after.leave e.calls.size result) := by
  rw [call, runList, if_pos (by simp [empty])]
  rfl

theorem call_of_inhabited {v : Validator} (inhabited : v.checks ≠ []) (value : Json) :
    e.call v value =
      let after := e.started v.checks value
      let result : Result := match (after.calls.get? e.calls.size).bind (·.failure) with
        | some f => .error f
        | none => .ok (after.passed (.ofCall e.calls.size))
      (result, after.leave e.calls.size result) := by
  rw [call, runList, if_neg (by simpa using inhabited)]
  rfl

end Engine

/-- What is new to an engine is fresh at every place below. -/
theorem Sound.fresh_call (h : Sound layout e) (value : Json) :
    (e.enter value).Fresh (.ofCall e.calls.size) := by
  intro x inside known
  exact h.toPlaced.unknown h.new_call (h.unissued_call _) inside.1.symm known

/-- A call opens its list. -/
theorem opened_runs (h : Sound layout e) {checks : List Check} (inhabited : checks ≠ [])
    (value : Json) :
    Runs (layout.withCall e.calls.size checks value) (some (.call e.calls.size))
        (· = Place.ofCall e.calls.size) (e.enter value) (e.opened checks value) ∧
      (e.opened checks value).Opened (.ofCall e.calls.size) ∧
      ∀ i, (e.opened checks value).Fresh ((Place.ofCall e.calls.size).member i) := by
  have here : (layout.withCall e.calls.size checks value).opening? (.ofCall e.calls.size) =
    some (.ofCall e.calls.size checks value) := Layout.extend_self _ _ _
  have fresh := h.fresh_call value
  have opens : Runs (layout.withCall e.calls.size checks value) (some (.call e.calls.size)) _
      (e.enter value) (e.opened checks value) := openList_runs here rfl inhabited
    (fun opened => fresh _ (.refl _) (.inl opened))
    (fun w i impossible => by simp [Place.member] at impossible)
    (fun _ impossible => by cases impossible)
  exact ⟨opens, Engine.opened_putList.2 (.inl rfl), fun i => (fresh.member i).grows opens.grows⟩

theorem started_runs (h : Sound layout e) {checks : List Check}
    (wf : Check.allWellFormed checks = true) (inhabited : checks ≠ []) (value : Json) :
    Runs (layout.withCall e.calls.size checks value) (some (.call e.calls.size))
        (Place.ofCall e.calls.size).Encloses (e.enter value) (e.started checks value) ∧
      (e.started checks value).Opened (.ofCall e.calls.size) ∧
      ((e.started checks value).isRejected (.ofCall e.calls.size) = true ∨
        Check.AllStarted value (.ofCall e.calls.size) (e.started checks value).journal 0
          checks) := by
  have here : (layout.withCall e.calls.size checks value).opening? (.ofCall e.calls.size) =
    some (.ofCall e.calls.size checks value) := Layout.extend_self _ _ _
  obtain ⟨opens, opened, fresh⟩ := opened_runs h inhabited value
  obtain ⟨runs, begun⟩ := startAll_runs checks (k := 0) here
    (fun j check found => by rwa [Nat.zero_add]) rfl (opens.sound (h.enter wf inhabited value)) opened
    fun j _ => fresh j
  refine ⟨(opens.mono fun q equal => equal ▸ .refl _).trans (runs.mono ?_),
    runs.grows.opened _ opened, begun⟩
  exact fun x ⟨j, _, inside⟩ => (Place.encloses_member _ j).trans inside

/-- **A call as steps**: it begins, evaluates its checks and returns. Before it returns, every rule
clause was invoked, or a failure has rejected the list. -/
theorem call_trace (h : Sound layout e) {v : Validator} (wf : v.wellFormed = true) (value : Json) :
    ∃ during : Engine,
      Steady (layout, e) (layout.withCall e.calls.size v.checks value, during) ∧
      Prolongs e.journal during.journal ∧ during.calls.size = e.calls.size + 1 ∧
      (firstFailure? ((Opening.ofCall e.calls.size v.checks value).results
          (.ofCall e.calls.size) during.journal) = none →
        Check.AllStarted value (.ofCall e.calls.size) during.journal 0 v.checks) ∧
      e.call v value =
        let result := answerNow ((Opening.ofCall e.calls.size v.checks value).decision?
          (.ofCall e.calls.size) during.journal)
        (result, during.leave e.calls.size result) := by
  have here := layout.withCall_self e.calls.size v.checks value
  have entered : (e.enter value).calls.size = e.calls.size + 1 := by
    rw [Engine.enter, Store.size_add]
  have unheard := (h.unheard e.calls.size (Nat.le_refl _)).1
  by_cases empty : v.checks = []
  · -- Without clauses the completion runs at once.
    have rests := complete_rests (e.enter value) e.calls.size (.ok true)
    refine ⟨((e.enter value).complete e.calls.size (.ok true)).2, ?_, rests.journal,
      rests.calls.trans entered, ?_, ?_⟩
    · rw [empty]
      exact .single ⟨.accept value, rests.templates⟩
    · rw [empty]
      exact fun _ => trivial
    · have accepted := h.accept value
      rw [← empty] at accepted
      have pending := (rests.journal.returned? e.calls.size).trans unheard
      rw [Engine.call_of_empty empty]
      simp only [accepted.call_result here pending fun _ => (rfl : true = true)]
  · obtain ⟨runs, opened, begun⟩ := started_runs h wf empty value
    have sound := runs.sound (h.enter wf empty value)
    have pending := (runs.grows.journal.returned? e.calls.size).trans unheard
    have there : (layout.withCall e.calls.size v.checks value).opening? (.ofCall e.calls.size) =
      some (.ofCall e.calls.size v.checks value) := here
    have held := sound.progress_at there opened
    have live : ∀ call, some (Root.call e.calls.size) = some (.call call) →
        returned? call (e.enter value).journal = none := by
      intro call same
      cases same
      exact unheard
    refine ⟨e.started v.checks value, .trans (.single ⟨.enter wf empty value, rfl⟩) (runs.steady live),
      runs.grows.journal, runs.grows.calls.trans entered, ?_, ?_⟩
    · intro clean
      refine begun.resolve_left ?_
      rw [sound.isRejected_all there rfl opened, clean]
      exact Bool.false_ne_true
    · rw [Engine.call_of_inhabited empty]
      have passes : firstFailure? ((Opening.ofCall e.calls.size v.checks value).results
          (.ofCall e.calls.size) (e.started v.checks value).journal) = none →
          (e.started v.checks value).passed (.ofCall e.calls.size) = true := by
        intro clean
        have wfAll : (Opening.ofCall e.calls.size v.checks value).WellFormed := wf
        rw [Engine.passed, held]
        exact all_holds_of_clear (fun result mem => sound.toPlaced.clear_results wfAll mem) clean
      simp only [sound.call_result here pending passes]

end Criteria
