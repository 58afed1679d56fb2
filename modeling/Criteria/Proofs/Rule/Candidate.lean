import Criteria.Clause.Document
import Criteria.Proofs.Rule.Acceptance

/-!
# Lists of candidates

The rule `in` takes its candidates from its parameters, or from the items of a parameter that is an array and
stands alone. A document spreads an array into parameters, so a list of candidates can be written in either
way, with one exception (`candidates_either_way`): if the only candidate is an array itself, the document says
the same as if the items of this array were the candidates (`lone_array_spread`).
-/

namespace Criteria
set_option autoImplicit false

namespace StandardRule

variable {value : Json}

theorem oneOf_test_iff {params : List Json} :
    oneOf.test value params = true ↔ ∃ candidate ∈ candidates params, value.equal candidate = true :=
  List.any_eq_true

/-- Parameters are the candidates themselves unless an array stands alone. -/
theorem candidates_of_not_lone {params : List Json} (several : ∀ inner, params ≠ [.arr inner]) :
    candidates params = params := by
  rw [candidates]
  intro inner lone
  exact several inner lone

end StandardRule

/-- What the rule `in` accepts with the given parameters. -/
theorem Clause.accepts_in_iff {e : Engine} (reached : Engine.empty.Reaches e) {registry : Registry}
    (installed : registry.Installed .oneOf) (params : List Json) (value : Json) :
    (Clause.rule "in" false params).Accepts registry e value ↔
      ∃ candidate ∈ StandardRule.candidates params, value.equal candidate = true := by
  have tested := Clause.accepts_rule_iff reached installed (by decide) false params value
  rw [← StandardRule.oneOf_test_iff]
  exact tested.trans Bool.ne_false_iff

/-- **A list of candidates can be written in either way**, as a single parameter or as a document, and a value
is accepted that is equal to one of its items. But in a document that lists an array and nothing else, the
items of this array are the candidates. -/
theorem candidates_either_way {e : Engine} (reached : Engine.empty.Reaches e) {registry : Registry}
    (installed : registry.Installed .oneOf) (items : List Json) (value : Json) :
    ((Clause.ofReference "in" [.arr items]).Accepts registry e value ↔
      ∃ item ∈ items, value.equal item = true) ∧
    ∃ spread, Clause.ofJson (.obj [("in", .arr items)]) = .ok spread ∧
      ((∀ inner, items ≠ [.arr inner]) →
        (spread.Accepts registry e value ↔ ∃ item ∈ items, value.equal item = true)) ∧
      ∀ inner, items = [.arr inner] →
        (spread.Accepts registry e value ↔ ∃ item ∈ inner, value.equal item = true) := by
  have written : ∀ params, Clause.ofReference "in" params = .rule "in" false params := fun _ => rfl
  refine ⟨Clause.accepts_in_iff reached installed [.arr items] value, .rule "in" false items, rfl, ?_, ?_⟩
  · intro several
    rw [Clause.accepts_in_iff reached installed, StandardRule.candidates_of_not_lone several]
  · rintro inner rfl
    exact Clause.accepts_in_iff reached installed [.arr inner] value

/-- The registry that holds the rule `in` and nothing else. -/
def Registry.listing : Registry := Registry.empty.insert ⟨0, "in", StandardRule.oneOf.body⟩

theorem Registry.installed_listing : Registry.listing.Installed .oneOf := ⟨0, rfl⟩

/-- The list `[1, 2]` as one of two candidates, and as the only one. -/
theorem candidates_either_way_pair :
    let pair : Json := .arr [.int ⟨1, by decide, by decide⟩, .int ⟨2, by decide, by decide⟩]
    Engine.empty.Reaches .empty ∧ Registry.listing.Installed .oneOf ∧
      (∀ inner, [pair, .null] ≠ [.arr inner]) ∧
      (Clause.ofReference "in" [.arr [pair]]).Accepts .listing .empty pair ∧
      (∃ both, Clause.ofJson (.obj [("in", .arr [pair, .null])]) = .ok both ∧
        both.Accepts .listing .empty pair) ∧
      ∃ lone, Clause.ofJson (.obj [("in", .arr [pair])]) = .ok lone ∧
        lone.Accepts .listing .empty (.int ⟨2, by decide, by decide⟩) := by
  intro pair
  have reached : Engine.empty.Reaches .empty := .refl .empty
  have installed := Registry.installed_listing
  have several : ∀ inner, [pair, .null] ≠ [.arr inner] := by simp
  obtain ⟨whole, -⟩ := candidates_either_way reached installed [pair] pair
  obtain ⟨-, both, reads, spread, -⟩ := candidates_either_way reached installed [pair, .null] pair
  obtain ⟨-, lone, reads', -, items⟩ :=
    candidates_either_way reached installed [pair] (.int ⟨2, by decide, by decide⟩)
  exact ⟨reached, installed, several, whole.2 ⟨pair, by simp, by decide⟩,
    ⟨both, reads, (spread several).2 ⟨pair, by simp, by decide⟩⟩,
    lone, reads', (items _ rfl).2 ⟨.int ⟨2, by decide, by decide⟩, by simp, by decide +kernel⟩⟩

/-- A document that lists `[1, 2]` as its only candidate does not accept it, although it is equal to an item of
the list and accepted when the list is a single parameter. -/
theorem lone_array_spread :
    let pair : Json := .arr [.int ⟨1, by decide, by decide⟩, .int ⟨2, by decide, by decide⟩]
    (∃ item ∈ [pair], pair.equal item = true) ∧
      (Clause.ofReference "in" [.arr [pair]]).Accepts .listing .empty pair ∧
      ∃ spread, Clause.ofJson (.obj [("in", .arr [pair])]) = .ok spread ∧
        ¬ spread.Accepts .listing .empty pair := by
  intro pair
  have accepts := fun params => Clause.accepts_rule_iff (.refl .empty) Registry.installed_listing
    (by decide) false params pair
  refine ⟨⟨pair, by simp, by decide⟩, (accepts [.arr [pair]]).2 (by decide), .rule "in" false [pair], rfl, ?_⟩
  rw [show "in" = StandardRule.oneOf.name from rfl, accepts [pair]]
  decide

end Criteria
