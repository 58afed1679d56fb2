import Criteria.Proofs.Clause.Resolution
import Criteria.Proofs.Journal.Outcome

/-!
# Well-formed checks

A check is well formed if none of its groups is empty, also inside the validators that serve as its
rules. Building a validator yields well-formed checks: `Clause.resolve` refuses an empty group, and
the rules that a registry holds were built before. A well-formed check has come to nothing as long as
nothing happened.
-/

namespace Criteria
set_option autoImplicit false

mutual

/-- Whether no group in a body is empty. -/
def Body.wellFormed : Body → Bool
  | .test _ => true
  | .scripted _ => true
  | .validator _ checks => Check.allWellFormed checks

/-- Whether no group in a check is empty. -/
def Check.wellFormed : Check → Bool
  | .rule _ _ body _ _ => body.wellFormed
  | .group members => !members.isEmpty && Check.allWellFormed members

/-- Whether no group in checks is empty. -/
def Check.allWellFormed : List Check → Bool
  | [] => true
  | check :: rest => check.wellFormed && Check.allWellFormed rest

end

/-- Whether no group in a validator is empty. -/
def Validator.wellFormed (v : Validator) : Bool := Check.allWellFormed v.checks

/-- Whether the rules of a registry are well formed. -/
def Registry.wellFormed (r : Registry) : Bool := r.entries.all fun d => d.body.wellFormed

theorem Check.allWellFormed_iff {checks : List Check} :
    Check.allWellFormed checks = true ↔ ∀ check ∈ checks, check.wellFormed = true := by
  induction checks with
  | nil => simp [Check.allWellFormed]
  | cons check rest ih => simp [Check.allWellFormed, ih]

theorem Registry.wellFormed_of_lookup? {r : Registry} {name : String} {d : Definition}
    (h : r.wellFormed = true) (found : r.lookup? name = some d) : d.body.wellFormed = true :=
  List.all_eq_true.1 h d (List.mem_of_find?_eq_some found)

mutual

theorem Clause.wellFormed_resolve {registry : Registry} (sound : registry.wellFormed = true) :
    (clause : Clause) → {check : Check} → clause.resolve registry = .ok check →
      check.wellFormed = true
  | .rule name negated params => by
    intro resolved
    obtain ⟨-, d, found, rfl⟩ := Clause.resolve_rule_eq_ok.1 resolved
    exact Registry.wellFormed_of_lookup? sound found
  | .group members => by
    intro resolved
    obtain ⟨inhabited, checks, inner, rfl⟩ := Clause.resolve_group_eq_ok.1 resolved
    have length := Clause.length_resolveAll inner
    have filled : checks.isEmpty = false := by
      rw [List.isEmpty_eq_false_iff]
      rintro rfl
      exact inhabited (List.eq_nil_of_length_eq_zero length.symm)
    rw [Check.wellFormed, filled, Clause.wellFormed_resolveAll sound members inner]
    rfl

theorem Clause.wellFormed_resolveAll {registry : Registry} (sound : registry.wellFormed = true) :
    (clauses : List Clause) → {checks : List Check} →
      Clause.resolveAll registry clauses = .ok checks → Check.allWellFormed checks = true
  | [] => by
    intro resolved
    cases resolved
    rfl
  | clause :: rest => by
    intro resolved
    obtain ⟨check, more, first, later, rfl⟩ := Clause.resolveAll_cons_eq_ok.1 resolved
    rw [Check.allWellFormed, Clause.wellFormed_resolve sound clause first,
      Clause.wellFormed_resolveAll sound rest later]
    rfl

end

/-- Building yields a well-formed validator. -/
theorem Validator.wellFormed_build {age : Nat} {registry : Registry} {clauses : List Clause}
    {v : Validator} (sound : registry.wellFormed = true)
    (built : Validator.build age registry clauses = .ok v) : v.wellFormed = true :=
  Clause.wellFormed_resolveAll sound clauses (Validator.build_eq_ok.1 built).1

/-! ## What is built -/

/-- The bodies that rules have: tests, scripts, and validators built over rules with such bodies. -/
inductive Body.Built : Body → Prop where
  | test (holds : Json → List Json → Bool) : Body.Built (.test holds)
  | scripted (plan : Place → Json → List Json → Plan) : Body.Built (.scripted plan)
  | validator {age : Nat} {registry : Registry} {clauses : List Clause} {v : Validator}
      (rules : ∀ d ∈ registry.entries, d.body.Built)
      (built : Validator.build age registry clauses = .ok v) : Body.Built v.body

/-- A registry whose rules have such bodies. -/
def Registry.Built (r : Registry) : Prop := ∀ d ∈ r.entries, d.body.Built

/-- A validator that was built from clauses over such a registry. -/
def Validator.Built (v : Validator) : Prop :=
  ∃ age registry clauses, Registry.Built registry ∧ Validator.build age registry clauses = .ok v

theorem Body.Built.wellFormed {body : Body} (h : body.Built) : body.wellFormed = true := by
  induction h with
  | test | scripted => rfl
  | validator rules built ih =>
    exact Validator.wellFormed_build (List.all_eq_true.2 ih) built

theorem Validator.Built.wellFormed {v : Validator} (h : v.Built) : v.wellFormed = true := by
  obtain ⟨age, registry, clauses, rules, built⟩ := h
  exact (Body.Built.validator rules built).wellFormed

/-! ## Nothing happened yet -/

theorem disjunction?_nil {value : Json} {parts : List (Journal → Option Result)}
    (inhabited : parts ≠ []) (blank : ∀ part ∈ parts, Blank part) :
    disjunction? value parts [] = none := by
  cases parts with
  | nil => exact absurd rfl inhabited
  | cons part parts =>
    have first : part [] = none := blank part List.mem_cons_self
    simp [disjunction?, first]

mutual

theorem Check.blank_outcome (value : Json) (place : Place) :
    (check : Check) → check.wellFormed = true → Blank (check.outcome? value place)
  | .rule _ _ _ _ _, _ => rfl
  | .group members, h => by
    simp only [Check.wellFormed, Bool.and_eq_true, Bool.not_eq_true'] at h
    apply disjunction?_nil _ (Check.blank_outcomes value place 0 members h.2)
    intro empty
    have length := Check.length_outcomes value place 0 members
    rw [empty, List.length_nil] at length
    cases members with
    | nil => simp at h
    | cons _ _ => simp at length

theorem Check.blank_outcomes (value : Json) (place : Place) (position : Nat) :
    (checks : List Check) → Check.allWellFormed checks = true →
      ∀ part ∈ Check.outcomes value place position checks, Blank part
  | [], _ => by simp [Check.outcomes]
  | check :: rest, h => by
    simp only [Check.allWellFormed, Bool.and_eq_true] at h
    simp only [Check.outcomes, List.forall_mem_cons]
    exact ⟨Check.blank_outcome value _ check h.1, Check.blank_outcomes value place _ rest h.2⟩

end

/-- A check that nothing has touched has come to nothing. -/
theorem Check.outcome?_of_untouched {check : Check} (wf : check.wellFormed = true) (value : Json)
    {p : Place} {journal : Journal} (untouched : ∀ event ∈ journal, ¬ event.Touches p) :
    check.outcome? value p journal = none := by
  induction journal with
  | nil => exact Check.blank_outcome value p check wf
  | cons event journal ih =>
    rw [Check.outcome?_cons_of_untouched value journal (untouched event List.mem_cons_self)]
    exact ih fun event mem => untouched event (List.mem_cons_of_mem _ mem)

end Criteria
