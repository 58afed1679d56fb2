import Criteria.Validator

/-!
# What resolving clauses gives

A rule clause resolves to the definition that is registered under its name, a group that is not empty
to the checks of its members, and clauses to checks one by one. Whatever is shown of built validators
follows from these.
-/

namespace Criteria
set_option autoImplicit false

variable {registry : Registry}

/-- A definition is registered under its own name. -/
theorem Registry.name_of_lookup? {name : String} {d : Definition}
    (found : registry.lookup? name = some d) : d.name = name := by
  have same := List.find?_some (show List.find? _ registry.entries = some d from found)
  exact eq_of_beq same

/-- A rule clause resolves when its name is not empty and registered. -/
theorem Clause.resolve_rule_eq_ok {name : String} {negated : Bool} {params : List Json}
    {check : Check} :
    (Clause.rule name negated params).resolve registry = .ok check ↔
      name.isEmpty = false ∧ ∃ d, registry.lookup? name = some d ∧
        check = .rule d.id d.name d.body negated params := by
  rw [Clause.resolve]
  by_cases empty : name.isEmpty = true
  · simp [empty]
  · rw [if_neg empty]
    cases found : registry.lookup? name with
    | none => simp
    | some d => simp [empty, eq_comm]

/-- A group resolves when it is not empty and its members resolve. -/
theorem Clause.resolve_group_eq_ok {members : List Clause} {check : Check} :
    (Clause.group members).resolve registry = .ok check ↔
      members ≠ [] ∧ ∃ checks, Clause.resolveAll registry members = .ok checks ∧
        check = .group checks := by
  rw [Clause.resolve]
  by_cases empty : members = []
  · simp [empty]
  · rw [if_neg (by simpa using empty)]
    cases resolved : Clause.resolveAll registry members with
    | error e => simp [Except.map]
    | ok checks => simp [Except.map, empty, eq_comm]

/-- Clauses resolve when the first one and the others do. -/
theorem Clause.resolveAll_cons_eq_ok {clause : Clause} {rest : List Clause} {checks : List Check} :
    Clause.resolveAll registry (clause :: rest) = .ok checks ↔
      ∃ check more, clause.resolve registry = .ok check ∧
        Clause.resolveAll registry rest = .ok more ∧ checks = check :: more := by
  rw [Clause.resolveAll]
  cases first : clause.resolve registry with
  | error e => simp [bind, Except.bind]
  | ok check =>
    cases later : Clause.resolveAll registry rest with
    | error e => simp [bind, Except.bind]
    | ok more => simp [bind, Except.bind, eq_comm]

/-- Resolving keeps the number of clauses. -/
theorem Clause.length_resolveAll {clauses : List Clause} {checks : List Check}
    (resolved : Clause.resolveAll registry clauses = .ok checks) :
    checks.length = clauses.length := by
  induction clauses generalizing checks with
  | nil =>
    cases resolved
    rfl
  | cons clause rest ih =>
    obtain ⟨check, more, -, later, rfl⟩ := Clause.resolveAll_cons_eq_ok.1 resolved
    rw [List.length_cons, List.length_cons, ih later]

mutual

/-- The clause that a check comes from. -/
def Check.clause : Check → Clause
  | .rule _ name _ negated params => .rule name negated params
  | .group members => .group (Check.clauses members)

/-- The clauses that checks come from. -/
def Check.clauses : List Check → List Clause
  | [] => []
  | check :: rest => check.clause :: Check.clauses rest

end

mutual

/-- **A check keeps its clause**: the names, polarities and parameters of the rules and the groups. -/
theorem Clause.clause_resolve : (clause : Clause) → ∀ ⦃check : Check⦄,
    clause.resolve registry = .ok check → check.clause = clause
  | .rule name negated params => by
    intro check resolved
    obtain ⟨-, d, found, rfl⟩ := Clause.resolve_rule_eq_ok.1 resolved
    rw [Check.clause, Registry.name_of_lookup? found]
  | .group members => by
    intro check resolved
    obtain ⟨-, checks, inner, rfl⟩ := Clause.resolve_group_eq_ok.1 resolved
    rw [Check.clause, Clause.clauses_resolveAll members inner]

theorem Clause.clauses_resolveAll : (clauses : List Clause) → ∀ ⦃checks : List Check⦄,
    Clause.resolveAll registry clauses = .ok checks → Check.clauses checks = clauses
  | [] => by
    intro checks resolved
    cases resolved
    rfl
  | clause :: rest => by
    intro checks resolved
    obtain ⟨check, more, first, later, rfl⟩ := Clause.resolveAll_cons_eq_ok.1 resolved
    rw [Check.clauses, Clause.clause_resolve clause first, Clause.clauses_resolveAll rest later]

end

/-- Building resolves the clauses. -/
theorem Validator.build_eq_ok {age : Nat} {clauses : List Clause} {v : Validator} :
    Validator.build age registry clauses = .ok v ↔
      Clause.resolveAll registry clauses = .ok v.checks ∧ v.age = age := by
  obtain ⟨own, checks⟩ := v
  rw [Validator.build]
  cases resolved : Clause.resolveAll registry clauses with
  | error e => simp [Except.map]
  | ok more => simp [Except.map, and_comm, eq_comm]

end Criteria
