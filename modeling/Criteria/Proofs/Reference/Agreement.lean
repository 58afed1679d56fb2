import Criteria.Proofs.Call.Completion
import Criteria.Proofs.Reference.Immediate

/-!
# Calls agree with the reference evaluator

A call of a validator whose rules all answer at once returns what the reference evaluator makes of
its clauses, with every word of the failure, and its completion runs once, with acceptance, just if
all clauses pass.
-/

namespace Criteria
set_option autoImplicit false

variable {registry : Registry} {templates : Nat → Templates} {value : Json}

/-! ## The reference verdict -/

/-- The first failure among the results of clauses is that of the first clause that has one. -/
theorem Clause.firstFailure?_results (clauses : List Clause) :
    firstFailure? (clauses.map fun clause => resultOf (clause.failure? registry templates value)) =
      clauses.findSome? (Clause.failure? registry templates value) := by
  have back : ∀ failure : Option Failure, (resultOf failure).failure? = failure := by
    intro failure
    cases failure <;> rfl
  rw [firstFailure?, failures, List.head?_filterMap, List.findSome?_map]
  congr 1
  funext clause
  exact back _

theorem resultOf_eq_accept {failure : Option Failure} :
    resultOf failure = .ok true ↔ failure = none := by
  cases failure <;> simp [resultOf]

theorem Clause.verdict_eq_resultOf (clauses : List Clause) :
    Clause.verdict registry templates value clauses =
      resultOf (clauses.findSome? (Clause.failure? registry templates value)) := by
  rw [Clause.verdict]
  cases clauses.findSome? (Clause.failure? registry templates value) <;> rfl

/-- The verdict accepts just if all clauses pass. -/
theorem Clause.verdict_eq_accept {clauses : List Clause} :
    Clause.verdict registry templates value clauses = .ok true ↔
      ∀ clause ∈ clauses, clause.passes registry value = true := by
  rw [Clause.verdict_eq_resultOf, resultOf_eq_accept, List.findSome?_eq_none_iff]
  exact forall₂_congr fun clause _ => Clause.failure?_eq_none_iff registry templates value clause

/-! ## What a call has come to by its return -/

variable {layout : Layout} {e : Engine}

/-- The list of a call ends up with the verdicts of its checks, up to the first failure. -/
theorem results_of_immediate (h : Sound layout e) {v : Validator} (wf : v.wellFormed = true)
    (immediate : Check.AllImmediate v.checks) {before : Journal} {result : Result}
    (returns : (e.call v value).2.journal = .returned e.calls.size result :: before) :
    v.results e.calls.size value before =
      Combinator.all.reached [] (Check.verdicts e.templatesOf value v.checks) := by
  by_cases empty : v.checks = []
  · have wfAll : (Opening.ofCall e.calls.size v.checks value).WellFormed := wf
    have room := wfAll.length_results_le (.ofCall e.calls.size) before
    rw [show (Opening.ofCall e.calls.size v.checks value).checks = [] from empty] at room
    rw [empty]
    exact List.eq_nil_of_length_eq_zero (Nat.le_zero.1 room)
  · obtain ⟨opens, opened, fresh⟩ := opened_runs h empty value
    have sound := opens.sound (h.enter wf empty value)
    have root := layout.withCall_self e.calls.size v.checks value
    have kept : layout.Keeps (e.opened v.checks value) :=
      fun handle mem => (h.parked handle mem).owns.carries
    have plain : (Opening.ofCall e.calls.size v.checks value).Plain :=
      Check.allPlain_of_immediate v.checks immediate
    obtain ⟨-, -, results⟩ := startAll_immediate h.toPlaced h.new_call root plain v.checks immediate
      (k := 0) (p := .ofCall e.calls.size) root (fun j check found => by rwa [Nat.zero_add]) rfl
      ⟨sound, kept, rfl⟩ opened fun i _ => fresh i
    have nothing_yet : (Opening.ofCall e.calls.size v.checks value).results (.ofCall e.calls.size)
        (e.opened v.checks value).journal = [] := by
      refine Opening.results_eq_nil fun event mem i => ?_
      exact sound.toPlaced.untouched_of_fresh (fresh i) event mem
    rw [nothing_yet] at results
    have same : (e.started v.checks value).journal = before := by
      rw [Engine.call_of_inhabited empty] at returns
      exact (List.cons.inj returns).2
    rw [← same]
    exact results

/-- Without a failure the list of the call is full: all verdicts have arrived. -/
theorem length_results_of_clean {v : Validator} {call : Nat} {before : Journal}
    (results : v.results call value before =
      Combinator.all.reached [] (Check.verdicts templates value v.checks))
    (clean : v.failure? call value before = none) :
    (v.results call value before).length = v.checks.length := by
  rw [Validator.failure?, results, Combinator.firstFailure?_reached_all] at clean
  rw [results, Combinator.reached_all_of_clean clean, List.nil_append, Check.length_verdicts]

/-- A call returns the first failure of its clauses, or else acceptance. -/
theorem answerNow_eq_resultOf (v : Validator) (call : Nat) (value : Json) (journal : Journal) :
    answerNow ((Opening.ofCall call v.checks value).decision? (.ofCall call) journal) =
      resultOf (v.failure? call value journal) := by
  cases failed : v.failure? call value journal with
  | some f => exact Opening.answerNow_eq_error.2 failed
  | none =>
    obtain accepts | ⟨f, fails⟩ :=
      clear_answerNow ((Opening.ofCall call v.checks value).decision? (.ofCall call) journal)
    · exact accepts
    · have failure : v.failure? call value journal = some f := Opening.answerNow_eq_error.1 fails
      rw [failed] at failure
      cases failure

/-- What a call of a validator returns whose rules all answer at once depends on the templates only. -/
theorem Sound.call_of_immediate (h : Sound layout e) {v : Validator} (wf : v.wellFormed = true)
    (immediate : Check.AllImmediate v.checks) (value : Json) :
    (e.call v value).1 = resultOf (firstFailure?
      (Combinator.all.reached [] (Check.verdicts e.templatesOf value v.checks))) := by
  obtain ⟨before, -, returns, answers, -⟩ := call_made h wf value
  rw [answers, answerNow_eq_resultOf, Validator.failure?, results_of_immediate h wf immediate returns]

/-- When all clauses had passed by some time, they have passed for good. -/
theorem passed_of_full (h : Placed layout e) {v : Validator} (wf : v.wellFormed = true) {call : Nat}
    {before : Journal} (sub : before <:+ e.journal)
    (full : (v.results call value before).length = v.checks.length)
    (clean : v.failure? call value before = none) :
    ∀ i, i < v.checks.length → v.outcome? call value i e.journal = some (.ok true) := by
  intro i bound
  obtain ⟨result, found⟩ :=
    Option.isSome_iff_exists.1 ((Validator.length_results_eq_iff wf before).1 full i bound)
  have lasts := Validator.outcome?_mono sub found
  have wfAll : (Opening.ofCall call v.checks value).WellFormed := wf
  obtain rfl | ⟨f, rfl⟩ := h.clear_results wfAll ((Validator.mem_results wf).2 ⟨i, lasts⟩)
  · exact lasts
  · exact absurd clean (Validator.failure?_ne_none wf found)

/-- **Calls agree with the reference evaluator.** Whatever happened before, and whatever happens
later: a call of a validator whose rules all answer at once returns the verdict of the reference
evaluator on its clauses, which is acceptance just if all clauses pass. The completion of the call
runs once, with acceptance, if this is the verdict, and never otherwise. -/
theorem call_agrees {earlier later : List Move} (valid : ∀ m ∈ earlier ++ later, m.Valid)
    {age : Nat} (rules : registry.Built) {clauses : List Clause} {v : Validator}
    (builds : Validator.build age registry clauses = .ok v)
    (immediate : Clause.AllImmediate registry clauses) (value : Json) :
    let e := Engine.empty.run earlier
    let result := (e.call v value).1
    let now := (e.call v value).2.run later
    result = Clause.verdict registry e.templatesOf value clauses ∧
      (result = .ok true ↔ ∀ clause ∈ clauses, clause.passes registry value = true) ∧
      (result = .ok true → completions e.calls.size now.journal = [.ok true]) ∧
      ∀ f, result = .error f → completions e.calls.size now.journal = [] := by
  intro e result now
  have built : v.Built := ⟨age, registry, clauses, rules, builds⟩
  have wf := built.wellFormed
  have resolved := (Validator.build_eq_ok.1 builds).1
  obtain ⟨first, -, reached⟩ := sound_run fun m mem => valid m (List.mem_append_left later mem)
  obtain ⟨layout, before, -, sound, root, returns, onward, returned, answers, -⟩ :=
    run_call valid built value (rfl : _ = e)
  have answers : result = _ := answers
  have returned : returned? e.calls.size now.journal = some (result, before) := returned
  have results := results_of_immediate reached wf
    (Clause.immediate_resolveAll clauses immediate resolved) returns
  have failed : v.failure? e.calls.size value before =
      clauses.findSome? (Clause.failure? registry e.templatesOf value) := by
    rw [Validator.failure?, results, Combinator.firstFailure?_reached_all, List.nil_append,
      Clause.verdicts_resolveAll clauses resolved, Clause.firstFailure?_results]
  rw [answerNow_eq_resultOf] at answers
  have delivered := (sound.reported _ _ root).delivered
  rw [Delivered, returned] at delivered
  refine ⟨?_, ?_, ?_, ?_⟩
  · rw [answers, failed, Clause.verdict_eq_resultOf]
  · rw [answers, failed, ← Clause.verdict_eq_resultOf, Clause.verdict_eq_accept]
  · intro accepts
    rw [answers, resultOf_eq_accept] at accepts
    have passed := passed_of_full sound.toPlaced wf onward
      (length_results_of_clean results accepts) accepts
    obtain ⟨-, -, received⟩ | ⟨f, fails, -⟩ := delivered
    · rw [received, (Validator.decision?_eq_accept sound.toPlaced wf).2 passed]
      rfl
    · rw [answers, accepts] at fails
      cases fails
  · intro f fails
    obtain ⟨accepts, -⟩ | ⟨-, -, -, -, silent⟩ := delivered
    · rw [accepts] at fails
      cases fails
    · exact silent

/-! ## A call that fails at once -/

/-- The registry of a rule that accepts everything and one that accepts nothing. -/
def Registry.constant : Registry :=
  (Registry.empty.insert ⟨0, "always", .test fun _ _ => true⟩).insert
    ⟨1, "never", .test fun _ _ => false⟩

/-- A clause that passes, and a group of which both alternatives fail. -/
def Clause.choice : List Clause :=
  [.rule "always" false [], .group [.rule "always" true [], .rule "never" false []]]

/-- The validator of these clauses. -/
def Validator.choice : Validator :=
  ⟨2, [.rule 0 "always" (.test fun _ _ => true) false [],
    .group [.rule 0 "always" (.test fun _ _ => true) true [],
      .rule 1 "never" (.test fun _ _ => false) false []]]⟩

theorem Registry.tests_constant : ∀ d ∈ Registry.constant.entries, ∃ holds, d.body = .test holds := by
  intro d mem
  rcases Registry.mem_insertEntry mem with rfl | mem
  · exact ⟨_, rfl⟩
  · rcases Registry.mem_insertEntry mem with rfl | mem
    · exact ⟨_, rfl⟩
    · cases mem

theorem Registry.built_constant : Registry.constant.Built := by
  intro d mem
  obtain ⟨holds, test⟩ := Registry.tests_constant d mem
  exact test ▸ .test holds

theorem Clause.immediate_choice : Clause.AllImmediate .constant Clause.choice := by
  have tests : ∀ name d, Registry.constant.lookup? name = some d → d.body.Immediate := by
    intro name d found
    obtain ⟨holds, test⟩ := Registry.tests_constant d (List.mem_of_find?_eq_some found)
    rw [test]
    trivial
  exact ⟨tests _, ⟨tests _, tests _, trivial⟩, trivial⟩

/-- The call returns the failure of the group, and its completion never runs. -/
theorem call_agrees_choice :
    (Engine.empty.call .choice .null).1 =
        Clause.verdict .constant Engine.empty.templatesOf .null Clause.choice ∧
      completions 0 (Engine.empty.call .choice .null).2.journal = [] := by
  have valid : ∀ m ∈ ([] : List Move) ++ [], m.Valid := by simp
  have builds : Validator.build 2 .constant Clause.choice = .ok .choice := rfl
  have agrees := call_agrees valid Registry.built_constant builds Clause.immediate_choice .null
  exact ⟨agrees.1, agrees.2.2.2 _ rfl⟩

end Criteria
