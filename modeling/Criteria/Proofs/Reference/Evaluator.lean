import Criteria.Engine.Route
import Criteria.Proofs.Clause.Resolution
import Criteria.Proofs.Journal.Outcome

/-!
# A reference evaluator

When every rule answers at once, a validator can be evaluated by plain recursion on its clauses: a
rule clause fails with a leaf, a group with the failures of all its members, and the validator with
its first failure in declared order. `Check.verdict` does the same on compiled checks, and
`Clause.verdict_resolve` says that compiling does not change what comes out.
-/

namespace Criteria
set_option autoImplicit false

/-- Whether a body answers at once, by the value and the parameters alone, and leaves its own handle
alone; it may settle other handles. -/
def Body.Immediate : Body → Prop
  | .test _ => True
  | .scripted plan => ∀ value params,
      (∃ holds, ∀ p, (plan p value params).reply = .now holds) ∧
      ∀ p, ∀ action ∈ (plan p value params).actions,
        ∃ index answer, action = .settleParked index answer
  | .validator _ _ => False

/-- What a body answers at once, the same at all places. -/
def Body.accepts : Body → Json → List Json → Bool
  | .test holds, value, params => holds value params
  | .scripted plan, value, params =>
    match (plan ⟨.loose 0, []⟩ value params).reply with
    | .now holds => holds
    | .later => false
  | .validator _ _, _, _ => false

mutual

/-- Whether all rules that a clause refers to answer at once. -/
def Clause.Immediate (registry : Registry) : Clause → Prop
  | .rule name _ _ => ∀ d, registry.lookup? name = some d → d.body.Immediate
  | .group members => Clause.AllImmediate registry members

/-- Whether all rules that clauses refer to answer at once. -/
def Clause.AllImmediate (registry : Registry) : List Clause → Prop
  | [] => True
  | clause :: rest => clause.Immediate registry ∧ Clause.AllImmediate registry rest

end

mutual

/-- The failure of a clause for a value; there is none if it passes. -/
def Clause.failure? (registry : Registry) (templates : Nat → Templates) (value : Json) :
    Clause → Option Failure
  | .rule name negated params =>
    match registry.lookup? name with
    | none => none
    | some d =>
      if d.body.accepts value params != negated then none
      else some {
        message := match (templates d.id).ofPolarity negated with
          | some template => Message.render ⟨value, params, negated⟩ template
          | none => Message.generic name
        value, rule := some name, negated, params, nested := [], cause := none }
  | .group members =>
    match Clause.failures? registry templates value members with
    | none => none
    | some nested => some {
        message := "All " ++ members.length.repr ++ " alternatives failed"
        value, rule := none, negated := false, params := [], nested, cause := none }

/-- The failures of clauses for a value, in order; there are none if a clause passes. -/
def Clause.failures? (registry : Registry) (templates : Nat → Templates) (value : Json) :
    List Clause → Option (List Failure)
  | [] => some []
  | clause :: rest =>
    match clause.failure? registry templates value,
      Clause.failures? registry templates value rest with
    | some f, some more => some (f :: more)
    | _, _ => none

end

mutual

/-- Whether a clause passes for a value. -/
def Clause.passes (registry : Registry) (value : Json) : Clause → Bool
  | .rule name negated params =>
    match registry.lookup? name with
    | none => true
    | some d => d.body.accepts value params != negated
  | .group members => Clause.somePass registry value members

/-- Whether some clause passes for a value. -/
def Clause.somePass (registry : Registry) (value : Json) : List Clause → Bool
  | [] => false
  | clause :: rest => clause.passes registry value || Clause.somePass registry value rest

end

/-- What a validator of the given clauses comes to: its first failure in declared order, or
acceptance. -/
def Clause.verdict (registry : Registry) (templates : Nat → Templates) (value : Json)
    (clauses : List Clause) : Result :=
  match clauses.findSome? (Clause.failure? registry templates value) with
  | some f => .error f
  | none => .ok true

mutual

/-- Whether all rules in a check answer at once. -/
def Check.Immediate : Check → Prop
  | .rule _ _ body _ _ => body.Immediate
  | .group members => Check.AllImmediate members

/-- Whether all rules in checks answer at once. -/
def Check.AllImmediate : List Check → Prop
  | [] => True
  | check :: rest => check.Immediate ∧ Check.AllImmediate rest

end

mutual

/-- What a check comes to when all its rules answer at once. -/
def Check.verdict (templates : Nat → Templates) (value : Json) : Check → Result
  | .rule definition name body negated params =>
    Question.judge ⟨definition, name, negated, params, value⟩ (templates definition)
      (.ok (body.accepts value params))
  | .group members => alternative value (Check.verdicts templates value members)

/-- What checks come to when all their rules answer at once. -/
def Check.verdicts (templates : Nat → Templates) (value : Json) : List Check → List Result
  | [] => []
  | check :: rest => check.verdict templates value :: Check.verdicts templates value rest

end

mutual

/-- A clause passes when it has no failure. -/
theorem Clause.failure?_eq_none_iff (registry : Registry) (templates : Nat → Templates)
    (value : Json) : (clause : Clause) →
      (clause.failure? registry templates value = none ↔ clause.passes registry value = true)
  | .rule name negated params => by
    rw [Clause.failure?, Clause.passes]
    cases registry.lookup? name with
    | none => simp
    | some d => by_cases passes : (d.body.accepts value params != negated) = true <;> simp [passes]
  | .group members => by
    rw [Clause.failure?, Clause.passes, ← Clause.failures?_eq_none_iff registry templates value]
    cases Clause.failures? registry templates value members <;> simp

theorem Clause.failures?_eq_none_iff (registry : Registry) (templates : Nat → Templates)
    (value : Json) : (clauses : List Clause) →
      (Clause.failures? registry templates value clauses = none ↔
        Clause.somePass registry value clauses = true)
  | [] => by simp [Clause.failures?, Clause.somePass]
  | clause :: rest => by
    rw [Clause.failures?, Clause.somePass, Bool.or_eq_true,
      ← Clause.failure?_eq_none_iff registry templates value clause,
      ← Clause.failures?_eq_none_iff registry templates value rest]
    cases clause.failure? registry templates value <;>
      cases Clause.failures? registry templates value rest <;> simp

end

/-- The result that a failure amounts to; without a failure the value is accepted. -/
def resultOf : Option Failure → Result
  | some f => .error f
  | none => .ok true

variable {registry : Registry} {templates : Nat → Templates} {value : Json}

/-! ## Compiling keeps verdicts -/

/-- Alternatives that have all failed, and alternatives of which one has passed. -/
theorem Clause.failures?_results (registry : Registry) (templates : Nat → Templates) (value : Json)
    (clauses : List Clause) :
    match Clause.failures? registry templates value clauses with
    | some nested => (clauses.map fun clause => resultOf (clause.failure? registry templates value)) =
        nested.map .error
    | none => (clauses.map fun clause =>
        resultOf (clause.failure? registry templates value)).any Result.holds = true := by
  induction clauses with
  | nil => rfl
  | cons clause rest ih =>
    rw [Clause.failures?]
    cases first : clause.failure? registry templates value with
    | none => simp [first, resultOf, Result.holds]
    | some f =>
      cases later : Clause.failures? registry templates value rest with
      | none =>
        rw [later] at ih
        simp only [List.map_cons, first, List.any_cons, ih, Bool.or_true]
      | some more =>
        have inner : (rest.map fun clause => resultOf (clause.failure? registry templates value)) =
          more.map .error := by rwa [later] at ih
        simp only [List.map_cons, first, inner]
        rfl

theorem failures_map_error (nested : List Failure) :
    failures (nested.map .error) = nested := by
  induction nested with
  | nil => rfl
  | cons f rest ih => simpa [failures, Result.failure?] using ih

theorem any_holds_map_error (nested : List Failure) :
    (nested.map (Except.error : Failure → Result)).any Result.holds = false := by
  simp [Result.holds]

/-- A group of clauses comes to what its alternatives come to. -/
theorem Clause.alternative_results (members : List Clause) :
    alternative value (members.map fun clause =>
      resultOf (clause.failure? registry templates value)) =
        resultOf ((Clause.group members).failure? registry templates value) := by
  have results := Clause.failures?_results registry templates value members
  rw [Clause.failure?]
  cases found : Clause.failures? registry templates value members with
  | none =>
    rw [found] at results
    rw [alternative, if_pos results]
    rfl
  | some nested =>
    rw [found] at results
    have length := congrArg List.length results
    simp only [List.length_map] at length
    rw [alternative, results, any_holds_map_error, failures_map_error, Failure.aggregate, ← length]
    rfl

/-- A rule clause comes to the judgement of what its body answers. -/
theorem Clause.judge_failure? {name : String} {d : Definition} (negated : Bool) (params : List Json)
    (found : registry.lookup? name = some d) :
    Question.judge ⟨d.id, d.name, negated, params, value⟩ (templates d.id)
        (.ok (d.body.accepts value params)) =
      resultOf ((Clause.rule name negated params).failure? registry templates value) := by
  rw [Clause.failure?, found, Question.judge]
  by_cases same : d.body.accepts value params = negated
  · simp only [same, bne_self_eq_false, Bool.false_eq_true, if_false, resultOf,
      Question.failure, Failure.ofRule, Registry.name_of_lookup? found]
    rfl
  · have differs : (d.body.accepts value params != negated) = true := by simpa using same
    simp only [if_neg same, differs, if_true, resultOf]

mutual

/-- **Compiling a clause keeps what it comes to.** -/
theorem Clause.verdict_resolve : (clause : Clause) → ∀ ⦃check : Check⦄,
      clause.resolve registry = .ok check →
        check.verdict templates value = resultOf (clause.failure? registry templates value)
  | .rule name negated params => by
    intro check resolved
    obtain ⟨-, d, found, rfl⟩ := Clause.resolve_rule_eq_ok.1 resolved
    exact Clause.judge_failure? negated params found
  | .group members => by
    intro check resolved
    obtain ⟨-, checks, inner, rfl⟩ := Clause.resolve_group_eq_ok.1 resolved
    rw [Check.verdict, Clause.verdicts_resolveAll members inner, Clause.alternative_results]

theorem Clause.verdicts_resolveAll : (clauses : List Clause) → ∀ ⦃checks : List Check⦄,
      Clause.resolveAll registry clauses = .ok checks →
        Check.verdicts templates value checks =
          clauses.map fun clause => resultOf (clause.failure? registry templates value)
  | [] => by
    intro checks resolved
    cases resolved
    rfl
  | clause :: rest => by
    intro checks resolved
    obtain ⟨check, more, first, later, rfl⟩ := Clause.resolveAll_cons_eq_ok.1 resolved
    rw [Check.verdicts, Clause.verdict_resolve clause first, Clause.verdicts_resolveAll rest later,
      List.map_cons]

end

mutual

/-- The rules in a check are those that the clause refers to. -/
theorem Clause.immediate_resolve : (clause : Clause) → clause.Immediate registry →
      ∀ ⦃check : Check⦄, clause.resolve registry = .ok check → check.Immediate
  | .rule name negated params => by
    intro immediate check resolved
    obtain ⟨-, d, found, rfl⟩ := Clause.resolve_rule_eq_ok.1 resolved
    exact immediate d found
  | .group members => by
    intro immediate check resolved
    obtain ⟨-, checks, inner, rfl⟩ := Clause.resolve_group_eq_ok.1 resolved
    exact Clause.immediate_resolveAll members immediate inner

theorem Clause.immediate_resolveAll : (clauses : List Clause) →
      Clause.AllImmediate registry clauses → ∀ ⦃checks : List Check⦄,
        Clause.resolveAll registry clauses = .ok checks → Check.AllImmediate checks
  | [] => by
    intro _ checks resolved
    cases resolved
    trivial
  | clause :: rest => by
    intro immediate checks resolved
    obtain ⟨check, more, first, later, rfl⟩ := Clause.resolveAll_cons_eq_ok.1 resolved
    exact ⟨Clause.immediate_resolve clause immediate.1 first,
      Clause.immediate_resolveAll rest immediate.2 later⟩

end

end Criteria
