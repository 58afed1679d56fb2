import Criteria.Proofs.Call.Settlement

/-!
# The verdict is a formula

In a plain validator the answers to the rule clauses decide the verdict alone. A rule clause holds if
its answer is a truth value other than its polarity, a group holds if one of its members does, and the
validator if all its clauses do. When and in which order the handles are settled, inside the call or
after it, does not matter: once all of them are settled, this is what the call comes to.
-/

namespace Criteria
set_option autoImplicit false

/-! ## The formula -/

/-- Whether a rule clause of the given polarity holds with an answer. -/
def Answer.meets (negated : Bool) : Answer → Bool
  | .ok holds => holds != negated
  | .error _ => false

mutual

/-- Whether a check holds with the answers that the rule clauses have at their paths. -/
def Check.holds (answers : List Nat → Answer) (path : List Nat) : Check → Bool
  | .rule _ _ _ negated _ => (answers path).meets negated
  | .group members => Check.someHolds answers path 0 members

/-- Whether one of the checks of the list at a path holds. -/
def Check.someHolds (answers : List Nat → Answer) (path : List Nat) (position : Nat) :
    List Check → Bool
  | [] => false
  | check :: rest =>
    check.holds answers (position :: path) || Check.someHolds answers path (position + 1) rest

end

/-- Whether all clauses of a validator hold. -/
def Validator.holds (v : Validator) (answers : List Nat → Answer) : Bool :=
  (v.checks.zipIdx).all fun (check, i) => check.holds answers [i]

theorem Question.holds_judge (q : Question) (templates : Templates) (answer : Answer) :
    (q.judge templates answer).holds = answer.meets q.negated := by
  cases answer with
  | ok holds =>
    rw [Question.judge]
    split
    next same => simp [Result.holds, Answer.meets, same]
    next other => simp [Result.holds, Answer.meets, other]
  | error cause => rfl

theorem Check.someHolds_iff {answers : List Nat → Answer} {path : List Nat} {checks : List Check} :
    ∀ {position : Nat}, Check.someHolds answers path position checks = true ↔
      ∃ k check, checks[k]? = some check ∧
        Check.holds answers ((position + k) :: path) check = true := by
  induction checks with
  | nil => simp [Check.someHolds]
  | cons check rest ih =>
    intro position
    rw [Check.someHolds, Bool.or_eq_true, ih]
    constructor
    · rintro (here | ⟨k, later, found, holds⟩)
      · exact ⟨0, check, rfl, here⟩
      · refine ⟨k + 1, later, found, ?_⟩
        rwa [show position + (k + 1) = position + 1 + k by omega]
    · rintro ⟨_ | k, later, found, holds⟩
      · cases found
        exact .inl holds
      · refine .inr ⟨k, later, found, ?_⟩
        rwa [show position + 1 + k = position + (k + 1) by omega]

theorem Validator.holds_iff {v : Validator} {answers : List Nat → Answer} :
    v.holds answers = true ↔
      ∀ i (check : Check), v.checks[i]? = some check → check.holds answers [i] = true := by
  rw [Validator.holds, List.all_eq_true]
  constructor
  · intro all i check found
    exact all (check, i) (List.mk_mem_zipIdx_iff_getElem?.2 found)
  · rintro all ⟨check, i⟩ mem
    exact all i check (List.mk_mem_zipIdx_iff_getElem?.1 mem)

/-! ## What the journal says about it -/

/-- Whether the rule clauses of a call have the given answers as far as they were judged. -/
def Answering (v : Validator) (call : Nat) (answers : List Nat → Answer) (journal : Journal) : Prop :=
  ∀ path outer k definition name body negated params, v.list? path = some outer →
    outer[k]? = some (.rule definition name body negated params) → ∀ result,
      judgement? (Place.member ⟨.call call, path⟩ k) journal = some result →
        result.holds = (answers (k :: path)).meets negated

variable {v : Validator} {call : Nat} {value : Json} {journal : Journal}
  {answers : List Nat → Answer}

/-- A group comes to a success when one of its members holds, if what its members come to says which
of them hold. -/
theorem Check.holds_group {members : List Check} {p : Place} (holds : Nat → Check → Bool)
    (wf : Check.allWellFormed members = true)
    (inner : ∀ j (m : Check) result, members[j]? = some m →
      m.outcome? value (p.member j) journal = some result → result.holds = holds j m)
    {result : Result} (decided : (Check.group members).outcome? value p journal = some result) :
    result.holds = true ↔ ∃ j m, members[j]? = some m ∧ holds j m = true := by
  have wfAll : Opening.WellFormed ⟨.any, members, value, .call 0⟩ := wf
  rw [wfAll.outcome?_group, Opening.decision?, Combinator.decision?] at decided
  split at decided
  next full =>
    cases decided
    have all := ((wfAll.length_results_eq_iff _ _).trans Opening.forall_mem_parts).1 full
    have passes : (Opening.results ⟨.any, members, value, .call 0⟩ p journal).any Result.holds = true ↔
        ∃ j m, members[j]? = some m ∧ holds j m = true := by
      rw [List.any_eq_true]
      constructor
      · rintro ⟨arrival, arrived, success⟩
        obtain ⟨j, m, found, outcome⟩ := wfAll.mem_results.1 arrived
        exact ⟨j, m, found, inner j m arrival found outcome ▸ success⟩
      · rintro ⟨j, m, found, success⟩
        obtain ⟨arrival, outcome⟩ := Option.isSome_iff_exists.1 (all j m found)
        refine ⟨arrival, wfAll.mem_results.2 ⟨j, m, found, outcome⟩, ?_⟩
        rw [inner j m arrival found outcome, success]
    rw [← passes, alternative]
    split
    next some_pass => simp [Result.holds, some_pass]
    next none_pass => simp [Result.holds, none_pass]
  · cases decided

mutual

/-- What a check has come to is what it holds with the answers. -/
theorem Check.holds_of_outcome (wf : v.wellFormed = true) (answering : Answering v call answers journal) :
    (check : Check) → ∀ ⦃path : List Nat⦄ ⦃outer : List Check⦄ ⦃k : Nat⦄ ⦃result : Result⦄,
      v.list? path = some outer → outer[k]? = some check →
      check.outcome? value (Place.member ⟨.call call, path⟩ k) journal = some result →
        result.holds = check.holds answers (k :: path)
  | .rule definition name body negated params => fun path outer k result above here judged =>
    answering path outer k definition name body negated params above here result judged
  | .group members => by
    intro path outer k result above here decided
    have list : v.list? (k :: path) = some members := by
      rw [Validator.list?, above, Option.bind_some, here]
    have inner := Check.holds_of_outcomes wf answering members 0 list
      fun j check found => by rwa [Nat.zero_add]
    rw [Check.holds, Bool.eq_iff_iff, Check.someHolds_iff]
    exact Check.holds_group _ (Validator.wellFormed_list? wf list)
      (fun j m result found outcome => inner j m result found (by rwa [Nat.zero_add])) decided

theorem Check.holds_of_outcomes (wf : v.wellFormed = true)
    (answering : Answering v call answers journal) :
    (checks : List Check) → ∀ ⦃path : List Nat⦄ ⦃outer : List Check⦄ (position : Nat),
      v.list? path = some outer →
      (∀ j (check : Check), checks[j]? = some check → outer[position + j]? = some check) →
      ∀ j (check : Check) result, checks[j]? = some check →
        check.outcome? value (Place.member ⟨.call call, path⟩ (position + j)) journal = some result →
          result.holds = check.holds answers ((position + j) :: path)
  | [] => fun _ _ _ _ _ _ _ _ found => by simp at found
  | first :: rest => by
    intro path outer position above here j check result found decided
    cases j with
    | zero =>
      obtain rfl : first = check := by simpa using found
      exact Check.holds_of_outcome wf answering first above (here 0 first rfl) decided
    | succ j =>
      have shift : position + (j + 1) = position + 1 + j := by omega
      rw [shift] at decided ⊢
      refine Check.holds_of_outcomes wf answering rest (position + 1) above ?_ j check
        result (by simpa using found) decided
      intro i later at_i
      rw [show position + 1 + i = position + (i + 1) by omega]
      exact here (i + 1) later at_i

end

mutual

/-- A check comes to something once all handles below it are settled. -/
theorem Check.outcome?_of_started {place : Place} (settled : ∀ p, place.Encloses p →
    Issued p journal → (judgement? p journal).isSome = true) :
    (check : Check) → check.Started value place journal →
      (check.outcome? value place journal).isSome = true
  | .rule _ _ _ _ _ => fun started => settled place (.refl place) started.1
  | .group members => fun started => by
    have all := Check.outcomes_of_started settled members started
    rw [Check.outcome?, disjunction?, if_pos (List.all_eq_true.2 all)]
    rfl

theorem Check.outcomes_of_started {place : Place} (settled : ∀ p, place.Encloses p →
    Issued p journal → (judgement? p journal).isSome = true) :
    (checks : List Check) → ∀ {position : Nat},
      Check.AllStarted value place journal position checks →
      ∀ part ∈ Check.outcomes value place position checks, (part journal).isSome = true
  | [] => fun _ => by simp [Check.outcomes]
  | check :: rest => fun started => by
    simp only [Check.outcomes, List.forall_mem_cons]
    refine ⟨Check.outcome?_of_started (fun p below => ?_) check started.1,
      Check.outcomes_of_started settled rest started.2⟩
    exact settled p ((Place.encloses_member _ _).trans below)

end

/-- The answers of a run decide what its rule clauses come to. -/
theorem answering_of_judged {layout : Layout} {e : Engine} (h : Placed layout e)
    (root : layout (.call call) = some (.ofCall call v.checks value)) (plain : v.Plain)
    (answered : ∀ path answer result, .judged ⟨.call call, path⟩ answer result ∈ e.journal →
      answer = answers path) : Answering v call answers e.journal := by
  intro path outer k definition name body negated params above rule result judged
  obtain ⟨answer, mem⟩ := mem_of_judgement? judged
  obtain ⟨-, question, onward, templates, handed, rfl⟩ := h.judged _ answer result mem
  obtain ⟨path', k', outer', _, _, _, negated', _, _, same, above', rule', equal⟩ :=
    Validator.rule_of_handle root plain rfl handed
  cases same
  obtain rfl : outer = outer' := Option.some.inj (above.symm.trans above')
  cases equal
  cases rule.symm.trans rule'
  rw [Question.holds_judge, answered (k :: path) answer _ mem]

/-- What a call has come to: the failure that it returned, or else what its completion received. -/
def overall? (returned : Result) (received : List Result) : Option Result :=
  match returned with
  | .error f => some (.error f)
  | .ok _ => received.head?

namespace Validator

/-- A clause that has passed holds, and one that has failed does not. -/
theorem holds_of_outcome (wf : v.wellFormed = true) (answering : Answering v call answers journal)
    {i : Nat} {result : Result} (found : v.outcome? call value i journal = some result) :
    ∃ check, v.checks[i]? = some check ∧ check.holds answers [i] = result.holds := by
  obtain ⟨check, here, outcome⟩ := Option.bind_eq_some_iff.1 found
  have list : v.list? [] = some v.checks := rfl
  exact ⟨check, here, (Check.holds_of_outcome wf answering check list here outcome).symm⟩

theorem not_holds_of_failed (wf : v.wellFormed = true)
    (answering : Answering v call answers journal) {i : Nat} {f : Failure}
    (failed : v.outcome? call value i journal = some (.error f)) : v.holds answers ≠ true := by
  obtain ⟨check, here, fails⟩ := holds_of_outcome wf answering failed
  intro holds
  rw [holds_iff.1 holds i check here] at fails
  cases fails

theorem holds_of_passed (wf : v.wellFormed = true) (answering : Answering v call answers journal)
    (passed : ∀ i, i < v.checks.length → v.outcome? call value i journal = some (.ok true)) :
    v.holds answers = true := by
  rw [holds_iff]
  intro i check here
  obtain ⟨same, found, holds⟩ :=
    holds_of_outcome wf answering (passed i (List.getElem?_eq_some_iff.1 here).1)
  obtain rfl : check = same := Option.some.inj (here.symm.trans found)
  exact holds

/-- Once all clauses have come to something, the list of the call is decided. -/
theorem decided_of_started (wf : v.wellFormed = true)
    (started : Check.AllStarted value (.ofCall call) journal 0 v.checks)
    (settled : ∀ p, p.root = .call call → Issued p journal →
      ∃ answer result, .judged p answer result ∈ journal) :
    ∃ decision, (Opening.ofCall call v.checks value).decision? (.ofCall call) journal =
      some decision := by
  have wfAll : (Opening.ofCall call v.checks value).WellFormed := wf
  have all : ∀ part ∈ Check.outcomes value (.ofCall call) 0 v.checks, (part journal).isSome = true := by
    refine Check.outcomes_of_started (fun p below issued => ?_) v.checks started
    obtain ⟨answer, result, mem⟩ := settled p below.1.symm issued
    exact judgement?_of_mem mem
  exact Option.isSome_iff_exists.1 (wfAll.decided_of_full all)

/-- Whoever was told a failure in a plain call made a clause fail, and that lasts. -/
theorem failed_of_told (recounts : Recounts call (.ofCall call v.checks value) [] journal) {p : Place}
    {f : Failure} (below : p.root = .call call) (told : .told p (.error f) ∈ journal) :
    v.outcome? call value p.first journal = some (.error f) := by
  obtain ⟨events, before, rfl⟩ := List.append_of_mem told
  have behind : .told p (.error f) :: before <:+ events ++ .told p (.error f) :: before :=
    List.suffix_append _ _
  obtain ⟨answer, result, first, -, account⟩ :=
    recounts.told p _ before below behind List.nil_suffix
  obtain ⟨report, rest⟩ := List.cons.inj account
  obtain ⟨-, failed⟩ := toldOf_eq_error.1 (Event.told.inj report).2.symm
  have sub : .judged p answer result :: first <:+ before := rest ▸ List.suffix_append _ _
  exact outcome?_mono (sub.trans ((List.suffix_cons _ _).trans behind)) failed

/-- A call that has returned has come to what its list has come to, whether it returned that or its
completion received it. -/
theorem overall_of_decided {layout : Layout} {e : Engine} (h : Sound layout e)
    (root : layout (.call call) = some (.ofCall call v.checks value)) {result : Result}
    {before : Journal} (returned : returned? call e.journal = some (result, before))
    (decided : firstFailure? ((Opening.ofCall call v.checks value).results (.ofCall call) before) =
      none → ∃ decision,
        (Opening.ofCall call v.checks value).decision? (.ofCall call) e.journal = some decision) :
    ∃ outcome : Result, overall? result (completions call e.journal) = some outcome ∧
      (Opening.ofCall call v.checks value).decision? (.ofCall call) e.journal = some outcome := by
  have delivered := (h.reported call _ root).delivered
  rw [Delivered, returned] at delivered
  obtain ⟨accepts, clean, received⟩ | ⟨f, fails, -, failed, -⟩ := delivered
  · obtain ⟨decision, decided⟩ := decided (by
      rw [Option.eq_none_iff_forall_ne_some]
      exact fun f failed => clean f (Opening.decision?_ofCall_eq_error.2 failed))
    refine ⟨decision, ?_, decided⟩
    rw [accepts, overall?, received, decided]
    rfl
  · exact ⟨.error f, by rw [fails, overall?], failed⟩

/-- Once all handles of a call are settled, the call has come to what its clauses have come to,
whether it returned that or its completion received it. -/
theorem overall_of_settled {layout : Layout} {e : Engine} (h : Sound layout e)
    (wf : v.wellFormed = true)
    (root : layout (.call call) = some (.ofCall call v.checks value)) {result : Result}
    {before : Journal} (returned : returned? call e.journal = some (result, before))
    (onward : before <:+ e.journal)
    (started : firstFailure? ((Opening.ofCall call v.checks value).results (.ofCall call) before) =
      none → Check.AllStarted value (.ofCall call) before 0 v.checks)
    (settled : ∀ p, p.root = .call call → Issued p e.journal →
      ∃ answer result, .judged p answer result ∈ e.journal) :
    ∃ outcome : Result, overall? result (completions call e.journal) = some outcome ∧
      outcome.Clear ∧
      (outcome = .ok true →
        ∀ i, i < v.checks.length → v.outcome? call value i e.journal = some (.ok true)) ∧
      ∀ f, outcome = .error f → ∃ i, v.outcome? call value i e.journal = some (.error f) := by
  obtain ⟨outcome, comes, decided⟩ := overall_of_decided h root returned fun clean =>
    decided_of_started wf (Check.AllStarted.mono onward _ _ 0 v.checks (started clean)) settled
  refine ⟨outcome, comes, clear_decision h.toPlaced wf decided, ?_, ?_⟩
  · rintro rfl
    exact (decision?_eq_accept h.toPlaced wf).1 decided
  · rintro f rfl
    exact outcome?_of_failure? wf (decision?_eq_error.1 decided)

end Validator

/-- **The verdict does not depend on when handles are settled.** Whatever rule clauses answer inside
the call of a plain validator, and in whatever order the other handles are settled: once all handles
of the call are settled, the call has come to a success just if the validator holds with the answers
that were given. On success nobody who settled a handle of the call was told a failure; a failure is
that of a clause that does not hold. -/
theorem verdict_of_answers {earlier later : List Move} (valid : ∀ m ∈ earlier ++ later, m.Valid)
    {v : Validator} (built : v.Built) (plain : v.Plain) (value : Json)
    (answers : List Nat → Answer) :
    let e := Engine.empty.run earlier
    let call := e.calls.size
    let now := (e.call v value).2.run later
    (∀ path answer result, .judged ⟨.call call, path⟩ answer result ∈ now.journal →
      answer = answers path) →
    (∀ p, p.root = .call call → Issued p now.journal →
      ∃ answer result, .judged p answer result ∈ now.journal) →
    ∃ outcome, overall? (e.call v value).1 (completions call now.journal) = some outcome ∧
      (outcome = .ok true ∨ ∃ f, outcome = .error f) ∧
      (outcome = .ok true ↔ v.holds answers = true) ∧
      (outcome = .ok true → ∀ p report, p.root = .call call →
        .told p report ∈ now.journal → report = .ok ()) ∧
      ∀ f, outcome = .error f → ∃ i check, v.checks[i]? = some check ∧
        check.holds answers [i] = false ∧ v.outcome? call value i now.journal = some (.error f) := by
  intro e call now answered settled
  obtain ⟨layout, before, trace, sound, root, -, onward, returned, -, started⟩ :=
    run_call valid built value (rfl : _ = e)
  have wf := built.wellFormed
  have answering : Answering v call answers now.journal :=
    answering_of_judged sound.toPlaced root plain answered
  have recounts := (Trace.recounts trace).2 call _ root plain
  obtain ⟨outcome, comes, clear, passes, fails⟩ :=
    Validator.overall_of_settled sound wf root returned onward started settled
  refine ⟨outcome, comes, clear, ?_, ?_, ?_⟩
  · constructor
    · exact fun success => Validator.holds_of_passed wf answering (passes success)
    · intro holds
      obtain success | ⟨f, failure⟩ := clear
      · exact success
      · obtain ⟨i, failed⟩ := fails f failure
        exact absurd holds (Validator.not_holds_of_failed wf answering failed)
  · intro success p report below told
    have holds := Validator.holds_of_passed wf answering (passes success)
    cases report with
    | ok => rfl
    | error f =>
      have failed := Validator.failed_of_told recounts below told
      exact absurd holds (Validator.not_holds_of_failed wf answering failed)
  · intro f failure
    obtain ⟨i, failed⟩ := fails f failure
    obtain ⟨check, here, holds⟩ := Validator.holds_of_outcome wf answering failed
    exact ⟨i, check, here, holds, failed⟩

/-! ## A call with all its handles settled -/

/-- The engine in which all handles of a waiting call are settled. -/
def Engine.settledWaiting : Engine := (Engine.empty.call .waiting .null).2.run Move.settlements

/-- The answers given to them: yes to the plain clause, no to both alternatives. -/
def Answer.settlements (path : List Nat) : Answer := .ok (path == [0])

/-- Whether an event gives one of these answers, if it gives any. -/
def Event.settles : Event → Bool
  | .judged p (.ok holds) _ => holds == (p.path == [0])
  | .judged _ (.error _) _ => false
  | _ => true

/-- Whether a journal has a judgement for every body that was invoked. -/
def Journal.isSettled (journal : Journal) : Bool :=
  journal.all fun
    | .invoked p _ _ _ _ => journal.any fun
      | .judged q _ _ => q == p
      | _ => false
    | _ => true

/-- The plain clause holds, and of the alternatives the negated one, so the call has succeeded. -/
theorem verdict_of_answers_settlements :
    overall? (Engine.empty.call .waiting .null).1 (completions 0 Engine.settledWaiting.journal) =
      some (.ok true) := by
  have answered : ∀ path answer result, .judged ⟨.call 0, path⟩ answer result ∈
      Engine.settledWaiting.journal → answer = Answer.settlements path := by
    intro path answer result mem
    have settles := List.all_eq_true.1
      (rfl : Engine.settledWaiting.journal.all Event.settles = true) _ mem
    cases answer with
    | ok holds => exact congrArg Except.ok (eq_of_beq settles)
    | error cause => cases settles
  have settled : ∀ p, p.root = .call 0 → Issued p Engine.settledWaiting.journal →
      ∃ answer result, .judged p answer result ∈ Engine.settledWaiting.journal := by
    rintro p - ⟨rule, scripted, value, params, mem⟩
    have some_judged := List.all_eq_true.1
      (rfl : Journal.isSettled Engine.settledWaiting.journal = true) _ mem
    obtain ⟨event, there, judges⟩ := List.any_eq_true.1 some_judged
    cases event with
    | judged q answer result =>
      obtain rfl : q = p := eq_of_beq judges
      exact ⟨answer, result, there⟩
    | _ => cases judges
  obtain ⟨outcome, comes, -, holds, -⟩ := verdict_of_answers Move.valid_settlements
    Validator.built_waiting rfl .null Answer.settlements answered settled
  rw [holds.2 rfl] at comes
  exact comes

end Criteria
