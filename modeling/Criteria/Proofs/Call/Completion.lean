import Criteria.Proofs.Run.Reach

/-!
# What a call returns and what its completion receives

The clauses of a called validator come to results one by one, during the call and after it. The call
returns the first failure that there was by its return, and then its completion never runs. Otherwise
the completion runs at most once: with acceptance when all clauses have passed, or with the first
failure when there is one. This holds in every state that a run can reach, whatever the bodies do.
-/

namespace Criteria
set_option autoImplicit false

namespace Validator

/-- What the clauses of a called validator have come to, in the order in which they came to it. -/
def results (v : Validator) (call : Nat) (value : Json) (journal : Journal) : List Result :=
  arrivals (Check.outcomes value (.ofCall call) 0 v.checks) journal

/-- The failure of the clause of a called validator that failed first. -/
def failure? (v : Validator) (call : Nat) (value : Json) (journal : Journal) : Option Failure :=
  firstFailure? (v.results call value journal)

/-- What the clause at a position of a called validator has come to. -/
def outcome? (v : Validator) (call : Nat) (value : Json) (i : Nat) (journal : Journal) :
    Option Result :=
  v.checks[i]?.bind fun check => check.outcome? value ((Place.ofCall call).member i) journal

variable {v : Validator} {call : Nat} {value : Json} {layout : Layout} {e : Engine}

theorem results_eq (journal : Journal) :
    (Opening.ofCall call v.checks value).results (.ofCall call) journal =
      v.results call value journal := rfl

/-- What a clause has come to lasts. -/
theorem outcome?_mono {earlier journal : Journal} (sub : earlier <:+ journal) {i : Nat}
    {result : Result} (found : v.outcome? call value i earlier = some result) :
    v.outcome? call value i journal = some result := by
  obtain ⟨check, here, outcome⟩ := Option.bind_eq_some_iff.1 found
  exact Option.bind_eq_some_iff.2
    ⟨check, here, (check.lasting_outcome value _).mono sub outcome⟩

/-- The results are those of the clauses. -/
theorem mem_results (wf : v.wellFormed = true) {journal : Journal} {result : Result} :
    result ∈ v.results call value journal ↔
      ∃ i, v.outcome? call value i journal = some result := by
  have wfAll : (Opening.ofCall call v.checks value).WellFormed := wf
  rw [← results_eq, wfAll.mem_results]
  refine exists_congr fun i => ?_
  simp [outcome?, Opening.ofCall, Option.bind_eq_some_iff]

/-- The failure that a validator has come to is that of one of its clauses. -/
theorem outcome?_of_failure? (wf : v.wellFormed = true) {journal : Journal} {f : Failure}
    (failed : v.failure? call value journal = some f) :
    ∃ i, v.outcome? call value i journal = some (.error f) :=
  (mem_results wf).1 (mem_of_firstFailure? failed)

/-- A failed clause leaves a failure. -/
theorem failure?_ne_none (wf : v.wellFormed = true) {journal : Journal} {i : Nat} {f : Failure}
    (failed : v.outcome? call value i journal = some (.error f)) :
    v.failure? call value journal ≠ none := by
  intro clean
  have ok := firstFailure?_eq_none_iff.1 clean _ ((mem_results wf).2 ⟨i, failed⟩)
  simp [Except.isOk, Except.toBool] at ok

/-- Every clause has come to something when there are as many results as clauses. -/
theorem length_results_eq_iff (wf : v.wellFormed = true) (journal : Journal) :
    (v.results call value journal).length = v.checks.length ↔
      ∀ i, i < v.checks.length → (v.outcome? call value i journal).isSome = true := by
  have wfAll : (Opening.ofCall call v.checks value).WellFormed := wf
  refine (wfAll.length_results_eq_iff (.ofCall call) journal).trans ?_
  rw [Opening.forall_mem_parts]
  constructor
  · intro all i bound
    rw [outcome?, List.getElem?_eq_getElem bound]
    exact all i _ (List.getElem?_eq_getElem bound)
  · intro all i check found
    have := all i (List.getElem?_eq_some_iff.1 found).1
    have here : v.checks[i]? = some check := found
    rwa [outcome?, here] at this

theorem decision?_eq_error {journal : Journal} {f : Failure} :
    (Opening.ofCall call v.checks value).decision? (.ofCall call) journal = some (.error f) ↔
      v.failure? call value journal = some f :=
  Opening.decision?_ofCall_eq_error

/-- The clauses that have all passed, by their positions. -/
theorem passed_iff {journal : Journal} :
    (Opening.ofCall call v.checks value).Passed (.ofCall call) journal ↔
      ∀ i, i < v.checks.length → v.outcome? call value i journal = some (.ok true) := by
  refine Opening.forall_mem_parts.trans ?_
  constructor
  · intro passed i bound
    have found := List.getElem?_eq_getElem bound
    rw [outcome?, found]
    exact passed i _ found
  · intro passed i check found
    have found : v.checks[i]? = some check := found
    have passes := passed i (List.getElem?_eq_some_iff.1 found).1
    rwa [outcome?, found] at passes

/-- The list of a call accepts when all clauses have passed. -/
theorem decision?_eq_accept (h : Placed layout e) (wf : v.wellFormed = true) :
    (Opening.ofCall call v.checks value).decision? (.ofCall call) e.journal = some (.ok true) ↔
      ∀ i, i < v.checks.length → v.outcome? call value i e.journal = some (.ok true) := by
  have wfAll : (Opening.ofCall call v.checks value).WellFormed := wf
  rw [wfAll.decision?_all rfl h.clearly, passed_iff]
  simp

/-- The list of a call never comes to a plain no. -/
theorem clear_decision (h : Placed layout e) (wf : v.wellFormed = true) {decision : Result}
    (decided : (Opening.ofCall call v.checks value).decision? (.ofCall call) e.journal =
      some decision) : decision.Clear :=
  have wfAll : (Opening.ofCall call v.checks value).WellFormed := wf
  wfAll.clear_decision?_all rfl h.clearly decided

theorem failure?_cons_returned {journal : Journal} {id : Nat} {result : Result} :
    v.failure? call value (.returned id result :: journal) = v.failure? call value journal := by
  have plain : (Event.returned id result).Plain := trivial
  rw [failure?, ← results_eq, Opening.results_cons_of_untouched (plain.untouched _)]
  rfl

end Validator

open Validator in
/-- **Completion delivery.** In every state that a run reaches after a call: the call returned
acceptance or a failure, never a plain no. If it returned a failure, that is the one of the clause
that failed first during the call, and the completion has not run. If it returned acceptance, no
clause had failed by then, and the completion has run at most once: with acceptance just if every
clause has passed by now, and with a failure just if that is the one of the clause that has failed
first. -/
theorem completion_delivery {earlier later : List Move} (valid : ∀ m ∈ earlier ++ later, m.Valid)
    {v : Validator} (built : v.Built) (value : Json) :
    let e := Engine.empty.run earlier
    let call := e.calls.size
    let result := (e.call v value).1
    let after := (e.call v value).2
    let now := after.run later
    (result = .ok true ∨ ∃ f, result = .error f) ∧
    (∀ f, result = .error f →
      v.failure? call value after.journal = some f ∧ completions call now.journal = []) ∧
    (result = .ok true →
      v.failure? call value after.journal = none ∧
      (completions call now.journal).length ≤ 1 ∧
      (∀ received ∈ completions call now.journal, received = .ok true ∨ ∃ f, received = .error f) ∧
      (.ok true ∈ completions call now.journal ↔
        ∀ i, i < v.checks.length → v.outcome? call value i now.journal = some (.ok true)) ∧
      ∀ f, .error f ∈ completions call now.journal ↔
        v.failure? call value now.journal = some f) := by
  intro e call result after now
  obtain ⟨layout, before, -, sound, found, returns, -, returned, answers, -⟩ :=
    run_call valid built value (rfl : _ = e)
  have answers : result = _ := answers
  have returned : returned? call now.journal = some (result, before) := returned
  have wf := built.wellFormed
  have failedBy : v.failure? call value after.journal = v.failure? call value before := by
    rw [returns, failure?_cons_returned]
  have returnedError : ∀ f, result = .error f ↔ v.failure? call value before = some f := by
    intro f
    rw [answers]
    exact Opening.answerNow_eq_error
  have delivered := (sound.reported call _ found).delivered
  rw [Delivered, returned] at delivered
  refine ⟨answers ▸ clear_answerNow _, ?_, ?_⟩
  · intro f fails
    refine ⟨failedBy.trans ((returnedError f).1 fails), ?_⟩
    obtain ⟨passes, -⟩ | ⟨g, -, -, -, silent⟩ := delivered
    · rw [passes] at fails
      cases fails
    · exact silent
  · intro passes
    obtain ⟨-, clean, received⟩ | ⟨g, fails, -⟩ := delivered
    · have decides : ∀ outcome : Result, outcome ∈ completions call now.journal ↔
          (Opening.ofCall call v.checks value).decision? (.ofCall call) now.journal =
            some outcome := by
        intro outcome
        rw [received, Option.mem_toList]
      refine ⟨?_, ?_, ?_, ?_, ?_⟩
      · rw [failedBy, Option.eq_none_iff_forall_ne_some]
        intro f failed
        rw [(returnedError f).2 failed] at passes
        cases passes
      · rw [received]
        rcases (Opening.ofCall call v.checks value).decision? (.ofCall call) now.journal with
          _ | _ <;> simp
      · exact fun outcome mem => clear_decision sound.toPlaced wf ((decides outcome).1 mem)
      · rw [decides, decision?_eq_accept sound.toPlaced wf]
      · intro f
        rw [decides, decision?_eq_error]
    · rw [fails] at passes
      cases passes

/-! ## A call that waits -/

/-- A body that keeps its handle and leaves the answer to it. -/
def Body.waiting : Body := .scripted fun _ _ _ => ⟨[.park], .later⟩

/-- The registry of one rule, which waits. -/
def Registry.waiting : Registry := Registry.empty.insert ⟨0, "waiting", .waiting⟩

/-- A plain clause and a group of a negated one and a plain one, all of which wait. -/
def Validator.waiting : Validator :=
  ⟨1, [.rule 0 "waiting" .waiting false [],
    .group [.rule 0 "waiting" .waiting true [], .rule 0 "waiting" .waiting false []]]⟩

theorem Validator.built_waiting : Validator.waiting.Built := by
  refine ⟨1, .waiting, [.rule "waiting" false [],
    .group [.rule "waiting" true [], .rule "waiting" false []]], ?_, rfl⟩
  intro d mem
  obtain rfl : d = ⟨0, "waiting", .waiting⟩ := List.mem_singleton.1 mem
  exact .scripted _

/-- The waiting handles are settled from the last one on; the plain alternative fails. -/
def Move.settlements : List Move :=
  [.settle 2 (.ok false), .settle 1 (.ok false), .settle 0 (.ok true)]

theorem Move.valid_settlements : ∀ m ∈ [] ++ Move.settlements, m.Valid := by
  simp [Move.settlements, Move.Valid]

/-- The handle of the plain clause is settled, and the clause fails. -/
def Move.refusal : List Move := [.settle 0 (.ok false)]

theorem Move.valid_refusal : ∀ m ∈ [] ++ Move.refusal, m.Valid := by
  simp [Move.refusal, Move.Valid]

/-- The completion of a waiting call runs with acceptance when the last handle is settled, or with the
failure of the plain clause when this clause fails. -/
theorem completion_delivery_waiting :
    ((Engine.empty.call .waiting .null).1 = .ok true ∧ .ok true ∈ completions 0
      ((Engine.empty.call .waiting .null).2.run Move.settlements).journal) ∧
    ((Engine.empty.call .waiting (.str "late")).1 = .ok true ∧
      .error { message := "Validation did not pass rule \"waiting\"", value := .str "late"
               rule := some "waiting", negated := false, params := [], nested := [], cause := none } ∈
        completions 0 ((Engine.empty.call .waiting (.str "late")).2.run Move.refusal).journal) := by
  have accepted := completion_delivery Move.valid_settlements Validator.built_waiting .null
  have refused := completion_delivery Move.valid_refusal Validator.built_waiting (.str "late")
  refine ⟨⟨rfl, (accepted.2.2 rfl).2.2.2.1.2 fun i bound => ?_⟩,
    rfl, ((refused.2.2 rfl).2.2.2.2 _).2 rfl⟩
  match i, bound with
  | 0, _ => rfl
  | 1, _ => rfl

end Criteria
