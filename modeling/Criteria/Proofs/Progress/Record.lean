import Criteria.Proofs.Run.Reach

/-!
# The record of a list in progress

A list keeps a record of what its members have come to. `Opening.Records` says what this record holds, counted on
the members themselves: a conjunction that no failure has rejected waits for the members that have not passed, a
rejected one has its first failure, and a disjunction waits for the members that have no result. The record of
every list is so in all that a run reaches (`Sound.records`), and a rejected conjunction changes no more
(`Trace.record_of_rejected`).
-/

namespace Criteria
set_option autoImplicit false

variable {layout later : Layout} {e e' : Engine}

namespace Opening

/-- The number of members of a list that have come to a result. -/
def decidedCount (o : Opening) (p : Place) (journal : Journal) : Nat :=
  (o.parts p).countP fun part => (part journal).isSome

/-- The number of members of a list that have passed. -/
def passedCount (o : Opening) (p : Place) (journal : Journal) : Nat :=
  (o.parts p).countP fun part => (part journal).any Result.holds

/-- What the record of the list at a place holds as of a journal. -/
structure Records (o : Opening) (p : Place) (journal : Journal) (r : Progress) : Prop where
  /-- A conjunction is rejected by its first failure, and then it holds nothing else. -/
  conjunction : o.combinator = .all → r.rejection = o.failure? p journal ∧
    (r.rejection = none → r.pending + o.passedCount p journal = o.checks.length ∧ r.passed = true ∧
      (r.awaited = true ↔ 0 < r.pending)) ∧
    ∀ f, r.rejection = some f → r.passed = false ∧ r.awaited = false
  /-- A disjunction collects failures in the order in which its members come to them. -/
  disjunction : o.combinator = .any → r.rejection = none ∧
    r.pending + o.decidedCount p journal = o.checks.length ∧ (r.passed = true ↔ 0 < o.passedCount p journal) ∧
    (0 < r.pending → r.failures = failures (o.results p journal)) ∧ (r.awaited = true ↔ 0 < r.pending)

variable {o : Opening} {p : Place} {journal : Journal}

/-- A member has passed if one of the results says so. -/
theorem WellFormed.passedCount_pos (wf : o.WellFormed) :
    0 < o.passedCount p journal ↔ (o.results p journal).any Result.holds = true := by
  rw [passedCount, List.countP_pos_iff, List.any_eq_true]
  constructor
  · rintro ⟨part, mem, passes⟩
    obtain ⟨result, here, holds⟩ := (Option.any_eq_true _ _).1 passes
    exact ⟨result, (wf.results_perm p journal).mem_iff.2 (List.mem_filterMap.2 ⟨part, mem, here⟩), holds⟩
  · rintro ⟨result, mem, holds⟩
    obtain ⟨part, mem, here⟩ := List.mem_filterMap.1 ((wf.results_perm p journal).mem_iff.1 mem)
    exact ⟨part, mem, by rw [here]; exact holds⟩

/-- Where no member has failed, those that have come to a result have passed. -/
theorem WellFormed.passedCount_of_clean (wf : o.WellFormed) (clear : Clearly journal)
    (clean : o.failure? p journal = none) : o.passedCount p journal = o.decidedCount p journal := by
  refine List.countP_congr fun part mem => ?_
  obtain ⟨i, check, found, rfl⟩ := Check.mem_outcomes mem
  cases outcome : check.outcome? o.value (p.member i) journal with
  | none => simp
  | some result =>
    have ok := firstFailure?_eq_none_iff.1 clean _ (wf.mem_results.2 ⟨i, check, found, outcome⟩)
    obtain rfl | ⟨f, rfl⟩ := clear.outcome outcome
    · simp [Result.holds]
    · cases ok

theorem WellFormed.decidedCount_eq (wf : o.WellFormed) :
    o.decidedCount p journal = (o.results p journal).length :=
  (wf.length_results p journal).symm

/-- **What results make of a list is what its record says.** -/
theorem WellFormed.records (wf : o.WellFormed) (clear : Clearly journal) :
    o.Records p journal (o.combinator.progress o.checks.length o.value (o.results p journal)) := by
  have bound := wf.length_results_le p journal
  refine ⟨fun conjunction => ?_, fun disjunction => ?_⟩
  · rw [conjunction]
    refine ⟨rfl, fun clean => ?_, fun f rejected => ?_⟩
    · have clean : firstFailure? (o.results p journal) = none := clean
      have clears : ∀ result ∈ o.results p journal, result.Clear := by
        intro result mem
        obtain ⟨i, check, -, found⟩ := wf.mem_results.1 mem
        exact clear.outcome found
      have all : (o.results p journal).takeWhile Except.isOk = o.results p journal := by
        simpa using @List.takeWhile_append_of_pos _ _ (o.results p journal) [] (firstFailure?_eq_none_iff.1 clean)
      have count := (wf.passedCount_of_clean clear clean).trans wf.decidedCount_eq
      have pending : (Combinator.all.progress o.checks.length o.value (o.results p journal)).pending =
          o.checks.length - (o.results p journal).length := by rw [Combinator.progress, all]
      rw [pending, count, Combinator.progress_awaited, Option.isNone_iff_eq_none, Combinator.decision?, clean]
      refine ⟨by omega, all_holds_of_clear clears clean, ?_⟩
      simp
      omega
    · have rejected : firstFailure? (o.results p journal) = some f := rejected
      refine ⟨all_holds_of_firstFailure? rejected, ?_⟩
      rw [Combinator.progress_awaited, Combinator.decision?_all_of_failure rejected]
      rfl
  · rw [disjunction]
    have pending : (Combinator.any.progress o.checks.length o.value (o.results p journal)).pending =
        o.checks.length - (o.results p journal).length := rfl
    rw [pending, wf.decidedCount_eq, wf.passedCount_pos, Combinator.progress_awaited, Option.isNone_iff_eq_none,
      Combinator.decision?]
    refine ⟨rfl, by omega, Iff.rfl, fun _ => rfl, ?_⟩
    simp
    omega

end Opening

/-- **In a sound engine every list has the record that its members make.** -/
theorem Sound.records (h : Sound layout e) {p : Place} {r : Progress} (held : e.lists.get? p = some r) :
    ∃ o, layout.opening? p = some o ∧ o.Records p e.journal r := by
  obtain ⟨o, found, rfl⟩ := h.lists p r held
  exact ⟨o, found, (h.wellFormed.opening found).records h.toPlaced.clearly⟩

/-! ## Rejected lists -/

/-- What comes after a failure changes nothing in the record of a conjunction. -/
theorem Combinator.progress_of_rejected {size : Nat} {value : Json} {results more : List Result}
    (sub : results <+: more) {f : Failure} (rejected : firstFailure? results = some f) :
    Combinator.all.progress size value more = Combinator.all.progress size value results := by
  have later := firstFailure?_mono sub rejected
  have first : more.takeWhile Except.isOk = results.takeWhile Except.isOk := by
    obtain ⟨rest, rfl⟩ := sub
    rw [List.takeWhile_append, if_neg]
    intro full
    have same := (List.takeWhile_prefix Except.isOk).eq_of_length full
    have clean : results.all Except.isOk = true := same ▸ List.all_takeWhile
    cases List.all_eq_true.1 clean _ (mem_of_firstFailure? rejected)
  simp only [progress, first, later, rejected, all_holds_of_firstFailure? later,
    all_holds_of_firstFailure? rejected, decision?]

theorem RunStep.opened (step : RunStep (layout, e) (later, e')) {p : Place} (opened : e.Opened p) :
    e'.Opened p := by
  cases step with
  | eval _ step => exact step.grows.opened p opened
  | accept value => exact (complete_rests (e.enter value) _ _).opened p opened
  | _ => exact opened

/-- Lists stay open. -/
theorem Trace.opened {start finish : Layout × Engine} (trace : Trace start finish) {p : Place}
    (opened : start.2.Opened p) : finish.2.Opened p := by
  induction trace with
  | refl => exact opened
  | tail _ step ih => exact step.opened ih

/-- **A rejected list keeps its record for good.** -/
theorem Trace.record_of_rejected (trace : Trace (layout, e) (later, e')) (h : Sound layout e) {p : Place}
    {r : Progress} (held : e.lists.get? p = some r) {f : Failure} (rejected : r.rejection = some f) :
    e'.lists.get? p = some r := by
  have follows := Trace.follows trace h
  obtain ⟨o, found, rfl⟩ := h.lists p r held
  have opened : e'.Opened p := Trace.opened trace (Option.ne_none_iff_exists'.2 ⟨_, held⟩)
  rw [(Trace.sound trace h).progress_at (follows.layout.opening? found) opened]
  cases conjunction : o.combinator with
  | all =>
    rw [conjunction] at rejected
    exact congrArg some (Combinator.progress_of_rejected (arrivals_mono follows.journal) rejected)
  | any =>
    rw [conjunction] at rejected
    cases rejected

end Criteria
