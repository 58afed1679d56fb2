import Criteria.Proofs.Reference.Agreement
import Criteria.Proofs.Run.Session

/-!
# What a single clause accepts

The validator of one rule clause, whose rule decides by a test, accepts just the values for which this test
differs from the polarity of the clause (`Clause.accepts_rule_iff`), whatever happened before.
-/

namespace Criteria
set_option autoImplicit false

/-- Whether the validator of a single clause, built against a registry, accepts a value when it is called. -/
def Clause.Accepts (clause : Clause) (registry : Registry) (e : Engine) (value : Json) : Prop :=
  ∃ v, Validator.build e.templates.size registry [clause] = .ok v ∧ (e.call v value).1 = .ok true

/-- Whether a standard rule is registered under its name. -/
def Registry.Installed (registry : Registry) (rule : StandardRule) : Prop :=
  ∃ id, registry.lookup? rule.name = some ⟨id, rule.name, rule.body⟩

/-- The validator of a clause of a registered rule. -/
theorem Validator.build_rule {registry : Registry} {name : String} {d : Definition}
    (found : registry.lookup? name = some d) (named : name.isEmpty = false) (age : Nat) (negated : Bool)
    (params : List Json) :
    Validator.build age registry [.rule name negated params] =
      .ok ⟨age, [.rule d.id d.name d.body negated params]⟩ := by
  have resolved : (Clause.rule name negated params).resolve registry =
      .ok (.rule d.id d.name d.body negated params) :=
    Clause.resolve_rule_eq_ok.2 ⟨named, d, found, rfl⟩
  exact Validator.build_eq_ok.2 ⟨Clause.resolveAll_cons_eq_ok.2 ⟨_, [], resolved, rfl, rfl⟩, rfl⟩

/-- **A clause of a rule that tests** accepts the values for which the test differs from the polarity. -/
theorem Clause.accepts_rule_iff {e : Engine} (reached : Engine.empty.Reaches e) {registry : Registry}
    {rule : StandardRule} (installed : registry.Installed rule) (named : rule.name.isEmpty = false)
    (negated : Bool) (params : List Json) (value : Json) :
    (Clause.rule rule.name negated params).Accepts registry e value ↔ rule.test value params ≠ negated := by
  obtain ⟨moves, valid, rfl⟩ := reached
  obtain ⟨layout, -, sound⟩ := sound_run valid
  obtain ⟨id, found⟩ := installed
  let v : Validator := ⟨(Engine.empty.run moves).templates.size, [.rule id rule.name rule.body negated params]⟩
  have built := Validator.build_rule found named v.age negated params
  have immediate : Check.AllImmediate v.checks := ⟨trivial, trivial⟩
  have verdict := sound.call_of_immediate (v := v) rfl immediate value
  have accepts : (Clause.rule rule.name negated params).Accepts registry (Engine.empty.run moves) value ↔
      ((Engine.empty.run moves).call v value).1 = .ok true := by
    constructor
    · rintro ⟨w, builds, accepted⟩
      obtain rfl : v = w := Except.ok.inj (built.symm.trans builds)
      exact accepted
    · exact fun accepted => ⟨v, built, accepted⟩
  have judged : Check.verdicts (Engine.empty.run moves).templatesOf value v.checks =
      [Question.judge ⟨id, rule.name, negated, params, value⟩ ((Engine.empty.run moves).templatesOf id)
        (.ok (rule.test value params))] := rfl
  rw [accepts, verdict, judged, Combinator.firstFailure?_reached_all, Question.judge]
  split
  next same => simp [firstFailure?, failures, Result.failure?, resultOf, same]
  next differs => simpa [firstFailure?, failures, Result.failure?, resultOf] using differs

end Criteria
