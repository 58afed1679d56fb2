import Criteria.Proofs.Clause.Resolution
import Criteria.Proofs.Nested.Clause

/-!
# What a validator captures

Building a validator looks its rules up once: every rule clause of it, also inside groups, holds the
number, the name and the body of the definition that was registered then
(`Validator.captured_of_ownClause?`). And every leaf of a failure that a called validator comes to was
judged to be one at a rule clause of its own (`Validator.leaf_judged`).
-/

namespace Criteria
set_option autoImplicit false

/-! ## Captured definitions -/

variable {registry : Registry}

/-- Every check of a resolved list resolves one of its clauses. -/
theorem Clause.resolve_of_getElem? {clauses : List Clause} : ∀ {checks : List Check},
    Clause.resolveAll registry clauses = .ok checks → ∀ {k : Nat} {check : Check},
      checks[k]? = some check → ∃ clause : Clause, clause.resolve registry = .ok check := by
  induction clauses with
  | nil =>
    intro checks resolved k check here
    cases resolved
    cases here
  | cons clause rest ih =>
    intro checks resolved k check here
    obtain ⟨first, more, resolves, later, rfl⟩ := Clause.resolveAll_cons_eq_ok.1 resolved
    cases k with
    | zero =>
      obtain rfl := Option.some.inj here
      exact ⟨clause, resolves⟩
    | succ k => exact ih later here

namespace Validator

variable {v : Validator} {path : List Nat} {checks : List Check}

theorem clauseAt?_of_ownClause? {check : Check} (found : v.ownClause? path = some check) :
    v.clauseAt? path = some check := by
  cases path with
  | nil => cases found
  | cons k path =>
    obtain ⟨outer, above, here⟩ := ownClause?_cons.1 found
    exact clauseAt?_cons.2 ⟨outer, deepList?_of_list? above, here⟩

/-- Each list of a built validator resolves clauses. -/
theorem resolved_list? {clauses : List Clause}
    (resolved : Clause.resolveAll registry clauses = .ok v.checks) :
    ∀ {path : List Nat} {checks : List Check}, v.list? path = some checks →
      ∃ own, Clause.resolveAll registry own = .ok checks
  | [], _, found => ⟨clauses, resolved.trans (congrArg Except.ok (Option.some.inj found))⟩
  | k :: path, checks, found => by
    obtain ⟨outer, above, group⟩ := list?_cons found
    obtain ⟨own, outers⟩ := resolved_list? resolved above
    obtain ⟨clause, resolves⟩ := Clause.resolve_of_getElem? outers group
    cases clause with
    | rule name negated params =>
      obtain ⟨-, d, -, impossible⟩ := Clause.resolve_rule_eq_ok.1 resolves
      cases impossible
    | group members =>
      obtain ⟨-, _, inner, same⟩ := Clause.resolve_group_eq_ok.1 resolves
      cases same
      exact ⟨members, inner⟩

/-- **A rule clause holds the definition that was registered under its name** when its validator was
built. -/
theorem captured_of_ownClause? {clauses : List Clause}
    (resolved : Clause.resolveAll registry clauses = .ok v.checks) {definition : Nat} {name : String}
    {body : Body} {negated : Bool} {params : List Json}
    (found : v.ownClause? path = some (.rule definition name body negated params)) :
    registry.lookup? name = some ⟨definition, name, body⟩ := by
  cases path with
  | nil => cases found
  | cons k path =>
    obtain ⟨outer, above, here⟩ := ownClause?_cons.1 found
    obtain ⟨own, outers⟩ := resolved_list? resolved above
    obtain ⟨clause, resolves⟩ := Clause.resolve_of_getElem? outers here
    cases clause with
    | rule asked negated params =>
      obtain ⟨-, d, registered, same⟩ := Clause.resolve_rule_eq_ok.1 resolves
      cases same
      rw [Registry.name_of_lookup? registered]
      exact Registry.name_of_lookup? registered ▸ registered
    | group members =>
      obtain ⟨-, _, -, impossible⟩ := Clause.resolve_group_eq_ok.1 resolves
      cases impossible

end Validator

/-! ## Leaves of failures -/

theorem Failure.mem_flattenAll {fs : List Failure} {leaf : Failure} :
    leaf ∈ Failure.flattenAll fs ↔ ∃ f ∈ fs, leaf ∈ f.flatten := by
  induction fs with
  | nil => simp [flattenAll]
  | cons f rest ih => simp [flattenAll, ih]

/-- What has arrived was come to. -/
theorem mem_arrivals {parts : List (Journal → Option Result)}
    (lasting : ∀ part ∈ parts, Lasting part) {result : Result} : ∀ {journal : Journal},
      result ∈ arrivals parts journal → ∃ part ∈ parts, part journal = some result
  | [], mem => by cases mem
  | event :: earlier, mem => by
    rcases List.mem_append.1 mem with before | now
    · obtain ⟨part, inside, had⟩ := mem_arrivals lasting before
      exact ⟨part, inside, lasting part inside had⟩
    · obtain ⟨part, inside, comes⟩ := List.mem_filterMap.1 now
      split at comes
      · exact ⟨part, inside, comes⟩
      · cases comes

/-- A group fails with the failures of its members. -/
theorem failed_disjunction {value : Json} {parts : List (Journal → Option Result)}
    {journal : Journal} {f : Failure} (lasting : ∀ part ∈ parts, Lasting part)
    (failed : disjunction? value parts journal = some (.error f)) : ∃ nested,
      f = .aggregate value nested ∧
        ∀ g ∈ nested, ∃ part ∈ parts, part journal = some (.error g) := by
  rw [disjunction?] at failed
  split at failed
  · obtain same := Option.some.inj failed
    rw [alternative] at same
    split at same
    · cases same
    · refine ⟨failures (arrivals parts journal), (Except.error.inj same).symm, fun g mem => ?_⟩
      obtain ⟨result, arrived, fails⟩ := List.mem_filterMap.1 mem
      cases result with
      | ok b => cases fails
      | error g' =>
        obtain rfl := Option.some.inj fails
        exact mem_arrivals lasting arrived
  · cases failed

/-- The failure of a rule clause is a leaf. -/
theorem Question.nested_of_judge {q : Question} {templates : Templates} {answer : Answer}
    {f : Failure} (judged : q.judge templates answer = .error f) : f.nested = [] := by
  cases answer with
  | ok holds =>
    rw [judge] at judged
    split at judged
    · obtain rfl := Except.error.inj judged
      rfl
    · cases judged
  | error cause =>
    obtain rfl := Except.error.inj judged
    rfl

/-- Whether what was judged to fail in a journal are leaves. -/
def Flat (journal : Journal) : Prop :=
  ∀ p answer f, Event.judged p answer (.error f) ∈ journal → f.flatten = [f]

theorem Placed.flat {layout : Layout} {e : Engine} (h : Placed layout e) : Flat e.journal := by
  intro p answer f mem
  obtain ⟨-, question, onward, templates, -, judged⟩ := h.judged p answer _ mem
  obtain ⟨message, value, rule, negated, params, nested, cause⟩ := f
  obtain rfl : nested = [] := Question.nested_of_judge judged.symm
  rfl

section

variable {v : Validator} {call : Nat} {value : Json} {journal : Journal} {leaf : Failure}

/-- Whether a failure was judged to be one at a rule clause of a called validator. -/
def Validator.Judged (v : Validator) (call : Nat) (journal : Journal) (leaf : Failure) : Prop :=
  ∃ path definition name body negated params answer,
    v.ownClause? path = some (.rule definition name body negated params) ∧
      Event.judged ⟨.call call, path⟩ answer (.error leaf) ∈ journal

mutual

/-- Every leaf of the failure of a check was judged at a rule clause of it. -/
theorem Check.leaf_judged (flat : Flat journal) (named : leaf.rule ≠ none) : (check : Check) →
    ∀ ⦃path : List Nat⦄ ⦃f : Failure⦄, v.ownClause? path = some check →
      check.outcome? value ⟨.call call, path⟩ journal = some (.error f) → leaf ∈ f.flatten →
        v.Judged call journal leaf
  | .rule definition name body negated params => by
    intro path f found failed mem
    obtain ⟨answer, judged⟩ := mem_of_judgement? failed
    rw [flat _ _ _ judged] at mem
    obtain rfl := List.mem_singleton.1 mem
    exact ⟨path, definition, name, body, negated, params, answer, found, judged⟩
  | .group members => by
    intro path f found failed mem
    obtain ⟨nested, rfl, parts⟩ :=
      failed_disjunction (Check.lasting_outcomes value ⟨.call call, path⟩ 0 members) failed
    rcases List.mem_cons.1 mem with rfl | mem
    · exact absurd rfl named
    · obtain ⟨g, among, inside⟩ := Failure.mem_flattenAll.1 mem
      obtain ⟨part, is_part, fails⟩ := parts g among
      refine Check.allLeaf_judged flat named members 0 (fun j => ?_) is_part fails inside
      rw [Nat.zero_add, Validator.ownClause?_member found]

/-- Every leaf of the failure of a member was judged at a rule clause of it. -/
theorem Check.allLeaf_judged (flat : Flat journal) (named : leaf.rule ≠ none) :
    (checks : List Check) → ∀ (position : Nat) ⦃path : List Nat⦄,
      (∀ j, v.ownClause? ((position + j) :: path) = checks[j]?) → ∀ ⦃part : Journal → Option Result⦄,
        part ∈ Check.outcomes value ⟨.call call, path⟩ position checks → ∀ ⦃f : Failure⦄,
          part journal = some (.error f) → leaf ∈ f.flatten → v.Judged call journal leaf
  | [] => by
    intro position path found part mem
    cases mem
  | check :: rest => by
    intro position path found part mem f failed inside
    rcases List.mem_cons.1 mem with rfl | mem
    · exact Check.leaf_judged flat named check (found 0) failed inside
    · refine Check.allLeaf_judged flat named rest (position + 1) (fun j => ?_) mem failed inside
      rw [Nat.add_right_comm, Nat.add_assoc]
      exact found (j + 1)

end

/-- **Every leaf of the failure of a clause of a called validator** was judged at a rule clause of
that validator. -/
theorem Validator.leaf_judged (flat : Flat journal) {i : Nat} {f : Failure}
    (failed : v.outcome? call value i journal = some (.error f)) (mem : leaf ∈ f.flatten)
    (named : leaf.rule ≠ none) : v.Judged call journal leaf := by
  obtain ⟨check, here, fails⟩ := Option.bind_eq_some_iff.1 failed
  exact Check.leaf_judged flat named check (Validator.ownClause?_cons.2 ⟨v.checks, rfl, here⟩) fails mem

end

end Criteria
