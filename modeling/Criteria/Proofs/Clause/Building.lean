import Criteria.Proofs.Clause.Resolution
import Criteria.Proofs.Clause.Subclause
import Criteria.Proofs.Document.Grammar
import Criteria.Session.Exec

/-!
# Which lists of clauses make validators

A list of clauses builds just if each rule clause at any depth has a name that is registered and no group is
empty. If not, the first offender in depth-first declared order is reported (`Clause.resolveAll_eq_error`). A
document is first read to its end: whatever is wrong with its form, anywhere in it, comes before all that is
wrong with its clauses (`Validator.ofJson_of_error`).
-/

namespace Criteria
set_option autoImplicit false

namespace Clause

variable {registry : Registry}

/-! ## Offenders -/

/-- What keeps a clause from being resolved, apart from what is within it. -/
def offence? (registry : Registry) : Clause → Option BuildError
  | .rule name _ _ =>
    if name = "" then some .emptyRuleName
    else if registry.contains name then none
    else some (.undefinedRule name)
  | .group [] => some (.malformed .emptyGroup)
  | .group (_ :: _) => none

/-- Whether all rule clauses, at any depth, have names, which are registered, and all groups have members. -/
structure Resolvable (registry : Registry) (clauses : List Clause) : Prop where
  named : ∀ name negated params, .rule name negated params ∈ allSubclauses clauses →
    name ≠ "" ∧ registry.contains name = true
  inhabited : .group [] ∉ allSubclauses clauses

theorem offence?_rule_eq_none {name : String} {negated : Bool} {params : List Json} :
    (rule name negated params).offence? registry = none ↔
      name ≠ "" ∧ registry.contains name = true := by
  rw [offence?]
  by_cases empty : name = ""
  · simp [empty]
  · by_cases known : registry.contains name = true <;> simp [empty, known]

theorem offence?_group_eq_none {members : List Clause} :
    (group members).offence? registry = none ↔ members ≠ [] := by
  cases members <;> simp [offence?]

/-- Clauses are resolvable if none of those within them offends. -/
theorem resolvable_iff {clauses : List Clause} :
    Resolvable registry clauses ↔ ∀ c ∈ allSubclauses clauses, c.offence? registry = none := by
  constructor
  · intro resolvable c mem
    cases c with
    | rule name negated params => exact offence?_rule_eq_none.2 (resolvable.named _ _ _ mem)
    | group members =>
      apply offence?_group_eq_none.2
      rintro rfl
      exact resolvable.inhabited mem
  · intro inoffensive
    constructor
    · intro name negated params mem
      exact offence?_rule_eq_none.1 (inoffensive _ mem)
    · intro mem
      exact offence?_group_eq_none.1 (inoffensive _ mem) rfl

/-! ## Resolving -/

theorem resolve_rule_eq_error {name : String} {negated : Bool} {params : List Json} {e : BuildError} :
    (rule name negated params).resolve registry = .error e ↔
      (rule name negated params).offence? registry = some e := by
  rw [resolve, offence?]
  by_cases empty : name = ""
  · simp [empty]
  · have inhabited : name.isEmpty = false := by simpa using empty
    rw [inhabited, if_neg empty, Registry.contains]
    cases registry.lookup? name <;> simp

theorem resolve_group_eq_error {first : Clause} {rest : List Clause} {e : BuildError} :
    (group (first :: rest)).resolve registry = .error e ↔
      resolveAll registry (first :: rest) = .error e := by
  rw [resolve]
  cases resolveAll registry (first :: rest) <;> simp [Except.map]

theorem resolveAll_cons_eq_error {clause : Clause} {rest : List Clause} {e : BuildError} :
    resolveAll registry (clause :: rest) = .error e ↔
      clause.resolve registry = .error e ∨
        (∃ check, clause.resolve registry = .ok check) ∧ resolveAll registry rest = .error e := by
  rw [resolveAll]
  cases clause.resolve registry with
  | error other => simp [bind, Except.bind]
  | ok check =>
    cases resolveAll registry rest <;> simp [bind, Except.bind]

mutual

/-- **The first offender is reported**, depth first and in declared order. -/
theorem resolve_eq_error : (clause : Clause) → ∀ e, clause.resolve registry = .error e ↔
    clause.subclauses.findSome? (offence? registry) = some e
  | .rule name negated params => by
    intro e
    rw [resolve_rule_eq_error, subclauses, List.findSome?_singleton]
  | .group [] => by
    intro e
    simp [resolve, subclauses, allSubclauses, offence?]
  | .group (first :: rest) => by
    intro e
    rw [resolve_group_eq_error, resolveAll_eq_error (first :: rest) e, subclauses, List.findSome?_cons]
    rfl

theorem resolveAll_eq_error : (clauses : List Clause) → ∀ e,
    resolveAll registry clauses = .error e ↔
      (allSubclauses clauses).findSome? (offence? registry) = some e
  | [] => by
    intro e
    simp [resolveAll, allSubclauses]
  | clause :: rest => by
    intro e
    rw [resolveAll_cons_eq_error, resolveAll_eq_error rest e, allSubclauses, List.findSome?_append,
      Option.or_eq_some_iff, resolve_eq_error clause e]
    cases resolved : clause.resolve registry with
    | error other => simp [(resolve_eq_error clause other).1 resolved]
    | ok check =>
      have inoffensive : clause.subclauses.findSome? (offence? registry) = none := by
        cases found : clause.subclauses.findSome? (offence? registry) with
        | none => rfl
        | some other =>
          rw [(resolve_eq_error clause other).2 found] at resolved
          cases resolved
      simp [inoffensive]

end

/-- **Clauses resolve just if they are resolvable.** -/
theorem resolveAll_isOk {clauses : List Clause} :
    (∃ checks, resolveAll registry clauses = .ok checks) ↔ Resolvable registry clauses := by
  rw [resolvable_iff, ← List.findSome?_eq_none_iff]
  cases resolved : resolveAll registry clauses with
  | error e => simp [(resolveAll_eq_error clauses e).1 resolved]
  | ok checks =>
    refine iff_of_true ⟨checks, rfl⟩ ?_
    cases found : (allSubclauses clauses).findSome? (offence? registry) with
    | none => rfl
    | some e =>
      rw [(resolveAll_eq_error clauses e).2 found] at resolved
      cases resolved

end Clause

namespace Validator

variable {age : Nat} {registry : Registry}

theorem build_eq_error {clauses : List Clause} {e : BuildError} :
    build age registry clauses = .error e ↔ Clause.resolveAll registry clauses = .error e := by
  rw [build]
  cases Clause.resolveAll registry clauses <;> simp [Except.map]

theorem build_isOk {clauses : List Clause} :
    (∃ v, build age registry clauses = .ok v) ↔ Clause.Resolvable registry clauses := by
  rw [← Clause.resolveAll_isOk, build]
  cases Clause.resolveAll registry clauses <;> simp [Except.map]

/-- A document that holds no list of clauses is refused for that, whatever its rules are. -/
theorem ofJson_of_error {document : Json} {fault : ClauseFault}
    (faulty : Clause.listOfJson document = .error fault) :
    ofJson age registry document = .error (.malformed fault) := by
  rw [ofJson, faulty]

/-- Any other document is built from the list that it holds. -/
theorem ofJson_of_ok {document : Json} {list : List Clause}
    (read : Clause.listOfJson document = .ok list) :
    ofJson age registry document = build age registry list := by
  rw [ofJson, read]

end Validator

/-- What comes of building a validator from a source in a session. -/
def Session.outcome (s : Session) (number : Nat) : ClauseSource → Except BuildError Validator
  | .document json => Validator.ofJson s.engine.templates.size (s.registry number) json
  | .clauses list => Validator.build s.engine.templates.size (s.registry number) list

/-- Building answers with what came of it and changes no registry; if it fails it changes nothing. -/
theorem Session.execIn_build (s : Session) (number : Nat) (name : String) (source : ClauseSource) :
    (s.execIn number (.build name source)).2.registries = s.registries ∧
      match s.outcome number source with
      | .ok v => (s.execIn number (.build name source)).1 = .built v
      | .error e => s.execIn number (.build name source) = (.notBuilt e, s) := by
  have same : s.execIn number (.build name source) = match s.outcome number source with
      | .ok v =>
        (.built v, { s with validators := (name, v) :: s.validators }.note (.built v.size))
      | .error e => (.notBuilt e, s) := by
    cases source <;> rfl
  rw [same]
  cases s.outcome number source <;> exact ⟨rfl, rfl⟩

/-- **Building succeeds just on resolvable clauses and reports the first offender.** For any registry, a list
of clauses makes a validator just if all its rule clauses, at any depth, have names that are registered and all
its groups have members; the validator is then a conjunction of checks with these very clauses. Otherwise the
error is that of the first clause, depth first in declared order, that is a rule clause without a name, one
with a name that is not registered, or an empty group. A document with a fault of form anywhere in it is
refused for the first of these, whatever rules it names before; of any other document the list that it
holds is built. In a session, building answers so and leaves all registries as they are. -/
theorem building_reports_first_offender (age : Nat) (registry : Registry) (clauses : List Clause)
    (document : Json) :
    ((∃ v, Validator.build age registry clauses = .ok v) ↔ Clause.Resolvable registry clauses) ∧
    (∀ e, Validator.build age registry clauses = .error e ↔ ∃ before offender after,
      Clause.allSubclauses clauses = before ++ offender :: after ∧
        (∀ clause ∈ before, clause.offence? registry = none) ∧
        offender.offence? registry = some e) ∧
    (∀ v, Validator.build age registry clauses = .ok v →
      v.combinator = .all ∧ v.size = clauses.length ∧ Check.clauses v.checks = clauses) ∧
    (∀ fault, Clause.listOfJson document = .error fault ↔ document.listFault? = some fault) ∧
    (∀ fault, Clause.listOfJson document = .error fault →
      Validator.ofJson age registry document = .error (.malformed fault)) ∧
    (∀ list, Clause.listOfJson document = .ok list →
      Validator.ofJson age registry document = Validator.build age registry list) ∧
    ∀ (s : Session) (number : Nat) (name : String) (source : ClauseSource),
      (s.execIn number (.build name source)).2.registries = s.registries ∧
        match s.outcome number source with
        | .ok v => (s.execIn number (.build name source)).1 = .built v
        | .error e => s.execIn number (.build name source) = (.notBuilt e, s) := by
  refine ⟨Validator.build_isOk, fun e => ?_, fun v built => ?_, fun fault => Clause.listOfJson_eq_error,
    fun fault => Validator.ofJson_of_error, fun list => Validator.ofJson_of_ok, Session.execIn_build⟩
  · rw [Validator.build_eq_error, Clause.resolveAll_eq_error clauses e, List.findSome?_eq_some_iff]
    constructor
    · rintro ⟨before, offender, after, all, offends, inoffensive⟩
      exact ⟨before, offender, after, all, inoffensive, offends⟩
    · rintro ⟨before, offender, after, all, inoffensive, offends⟩
      exact ⟨before, offender, after, all, offends, inoffensive⟩
  · have resolved := (Validator.build_eq_ok.1 built).1
    exact ⟨rfl, Clause.length_resolveAll resolved, Clause.clauses_resolveAll clauses resolved⟩

/-- A rule that is not registered is reported before an empty name behind it, but not before a malformed
clause: the document is refused for its empty object, although that stands behind the rule. -/
theorem building_reports_first_offender_undefined (age : Nat) :
    Validator.build age .empty [.group [.rule "undefined" true []], .rule "" false []] =
        .error (.undefinedRule "undefined") ∧
      Validator.ofJson age .empty (.arr [.str "!undefined", .arr [.obj []]]) =
        .error (.malformed (.keyCount 0)) := by
  obtain ⟨-, reported, -⟩ := building_reports_first_offender age .empty
    [.group [.rule "undefined" true []], .rule "" false []] .null
  obtain ⟨-, -, -, faulty, refused, -⟩ := building_reports_first_offender age .empty []
    (.arr [.str "!undefined", .arr [.obj []]])
  constructor
  · apply (reported _).2
    exact ⟨[.group [.rule "undefined" true []]], .rule "undefined" true [], [.rule "" false []], rfl,
      by simp [Clause.offence?], rfl⟩
  · apply refused
    exact (faulty _).2 rfl

end Criteria
