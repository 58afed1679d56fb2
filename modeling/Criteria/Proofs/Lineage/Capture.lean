import Criteria.Proofs.Snapshot.Template

/-!
# The definitions that a validator captures

A built validator captures the definitions of its rule clauses, also inside groups; what these have as
bodies belongs to them and not to it. All of them are known to the session that builds the validator, and
the validator is as old as this session has definitions (`Session.Builds.knows`, `Session.Builds.age_eq`).
-/

namespace Criteria
set_option autoImplicit false

mutual

/-- The definitions of the rule clauses of a check. -/
def Check.captured : Check → List Definition
  | .rule definition name body _ _ => [⟨definition, name, body⟩]
  | .group members => Check.capturedAll members

/-- The definitions of the rule clauses of checks. -/
def Check.capturedAll : List Check → List Definition
  | [] => []
  | check :: rest => check.captured ++ Check.capturedAll rest

end

/-- The definitions that a validator refers to. -/
def Validator.captured (v : Validator) : List Definition := Check.capturedAll v.checks

mutual

/-- Resolving a clause captures registered definitions. -/
theorem Clause.registered_of_captured {registry : Registry} : (clause : Clause) → ∀ ⦃check : Check⦄,
    clause.resolve registry = .ok check → ∀ d ∈ check.captured, ∃ name, registry.lookup? name = some d
  | .rule name negated params => by
    intro check resolved d mem
    obtain ⟨-, registered, found, rfl⟩ := Clause.resolve_rule_eq_ok.1 resolved
    obtain rfl := List.mem_singleton.1 mem
    exact ⟨name, found⟩
  | .group members => by
    intro check resolved d mem
    obtain ⟨-, checks, inner, rfl⟩ := Clause.resolve_group_eq_ok.1 resolved
    exact Clause.registered_of_capturedAll members inner d mem

theorem Clause.registered_of_capturedAll {registry : Registry} : (clauses : List Clause) →
    ∀ ⦃checks : List Check⦄, Clause.resolveAll registry clauses = .ok checks →
      ∀ d ∈ Check.capturedAll checks, ∃ name, registry.lookup? name = some d
  | [] => by
    intro checks resolved d mem
    cases resolved
    cases mem
  | clause :: rest => by
    intro checks resolved d mem
    obtain ⟨check, more, first, later, rfl⟩ := Clause.resolveAll_cons_eq_ok.1 resolved
    rcases List.mem_append.1 mem with here | there
    · exact Clause.registered_of_captured clause first d here
    · exact Clause.registered_of_capturedAll rest later d there

end

namespace Session

variable {s : Session} {step : Step} {v : Validator}

/-- Whether a step builds a validator. -/
def Builds (s : Session) (step : Step) (v : Validator) : Prop :=
  ∃ within name clauses, step = ⟨within, .build name clauses⟩ ∧ (s.exec step).1 = .built v

namespace Builds

/-- **A validator refers only to definitions that are there** when it is built. -/
theorem knows (builds : s.Builds step v) : ∀ d ∈ v.captured, s.Knows d := by
  obtain ⟨within, name, clauses, rfl, built⟩ := builds
  obtain ⟨number, own, -, done, -⟩ := build_of_exec built
  intro d mem
  obtain ⟨name, found⟩ := Clause.registered_of_capturedAll own (Validator.build_eq_ok.1 done).1 d mem
  exact knows_of_lookup? found

/-- A validator is as old as there are definitions when it is built. -/
theorem age_eq (builds : s.Builds step v) : v.age = s.engine.templates.size := by
  obtain ⟨within, name, clauses, rfl, built⟩ := builds
  obtain ⟨number, own, -, done, -⟩ := build_of_exec built
  exact (Validator.build_eq_ok.1 done).2

end Builds

end Session
end Criteria
