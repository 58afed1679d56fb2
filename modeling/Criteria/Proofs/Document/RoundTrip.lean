import Criteria.Proofs.Clause.Subclause
import Criteria.Proofs.Document.Grammar

/-!
# Clauses and their documents

A plain rule clause whose name begins with the mark of negation has no document: the mark would be taken off and
the clause negated. All other clauses are read back from the documents that are written for them
(`Clause.ofJson_toJson`), and no document gives a clause that has such a rule clause in it
(`Clause.faithful_ofJson`).
-/

namespace Criteria
set_option autoImplicit false

namespace Clause

/-- Whether no plain rule clause, at any depth, has a name that begins with the mark of negation. -/
def Faithful (clause : Clause) : Prop :=
  ∀ name params, .rule name false params ∈ clause.subclauses → ¬ IsMarked name

theorem faithful_rule {name : String} {negated : Bool} {params : List Json} :
    (rule name negated params).Faithful ↔ (negated = false → ¬ IsMarked name) := by
  constructor
  · intro faithful plain
    subst plain
    apply faithful name params
    simp [subclauses]
  · rintro unmarked other bound mem
    simp only [subclauses, List.mem_singleton, rule.injEq] at mem
    obtain ⟨rfl, plain, -⟩ := mem
    exact unmarked plain.symm

theorem faithful_group {members : List Clause} :
    (group members).Faithful ↔ ∀ clause ∈ members, clause.Faithful := by
  constructor
  · intro faithful clause mem name params inside
    apply faithful name params
    rw [subclauses]
    exact List.mem_cons_of_mem _ (mem_allSubclauses.2 ⟨clause, mem, inside⟩)
  · intro faithful name params inside
    simp only [subclauses, List.mem_cons, reduceCtorEq, false_or] at inside
    obtain ⟨clause, mem, inside⟩ := mem_allSubclauses.1 inside
    exact faithful clause mem name params inside

/-- Whatever a reference names may be written. -/
theorem Refers.unmarked {s name : String} {negated : Bool} (refers : Refers s name negated)
    (plain : negated = false) : ¬ IsMarked name := by
  cases refers with
  | negated => cases plain
  | plain unmarked => exact unmarked

/-- A reference names the rule that it was written for, unless a plain name is marked. -/
theorem refers_reference {name : String} {negated : Bool} :
    Refers (reference name negated) name negated ↔ (negated = false → ¬ IsMarked name) := by
  cases negated with
  | true => simpa [reference] using Refers.negated name
  | false =>
    constructor
    · exact Refers.unmarked
    · intro unmarked
      exact .plain (unmarked rfl)

mutual

/-- A clause is read back from its document just if it has no marked plain name. -/
theorem ofJson_toJson : (clause : Clause) → (ofJson clause.toJson = .ok clause ↔ clause.Faithful)
  | .rule name negated params => by
    rw [toJson, ofJson_eq_ok, means_object, faithful_rule, ← refers_reference]
    constructor
    · rintro ⟨other, polarity, refers, same⟩
      obtain ⟨rfl, rfl, -⟩ := rule.inj same
      exact refers
    · intro refers
      exact ⟨name, negated, refers, rfl⟩
  | .group members => by
    rw [toJson, ofJson_array_eq_ok, faithful_group, ← ofJsonItems_toJsonItems members]
    constructor
    · rintro ⟨others, read, same⟩
      obtain rfl := group.inj same
      exact read
    · intro read
      exact ⟨members, read, rfl⟩

theorem ofJsonItems_toJsonItems : (clauses : List Clause) →
    (ofJsonItems (toJsonItems clauses) = .ok clauses ↔ ∀ clause ∈ clauses, clause.Faithful)
  | [] => by simp [toJsonItems, ofJsonItems]
  | clause :: rest => by
    rw [toJsonItems, ofJsonItems_cons_eq_ok, List.forall_mem_cons, ← ofJson_toJson clause,
      ← ofJsonItems_toJsonItems rest]
    constructor
    · rintro ⟨first, more, read, later, same⟩
      obtain ⟨rfl, rfl⟩ := List.cons.inj same
      exact ⟨read, later⟩
    · rintro ⟨read, later⟩
      exact ⟨clause, rest, read, later, rfl⟩

end

mutual

/-- What is read has no marked plain name at any depth. -/
theorem faithful_ofJson : (v : Json) → ∀ clause : Clause, ofJson v = .ok clause → clause.Faithful
  | .str s => by
    intro clause read
    obtain ⟨name, negated, refers, rfl⟩ : ∃ name negated, Refers s name negated ∧
        clause = .rule name negated [] := by
      rw [ofJson, Except.ok.injEq] at read
      exact ofReference_eq.1 read
    exact faithful_rule.2 refers.unmarked
  | .obj [(s, params)] => by
    intro clause read
    rw [ofJson_object, Except.ok.injEq] at read
    obtain ⟨name, negated, refers, rfl⟩ := ofReference_eq.1 read
    exact faithful_rule.2 refers.unmarked
  | .obj [] => by
    intro clause read
    rw [ofJson_keyCount (by simp)] at read
    cases read
  | .obj (_ :: _ :: _) => by
    intro clause read
    rw [ofJson_keyCount (by simp)] at read
    cases read
  | .arr items => by
    intro clause read
    obtain ⟨members, inner, rfl⟩ := ofJson_array_eq_ok.1 read
    exact faithful_group.2 (faithful_ofJsonItems items members inner)
  | .null | .bool _ | .int _ | .float _ => by
    intro clause read
    rw [ofJson] at read
    cases read

theorem faithful_ofJsonItems : (items : List Json) → ∀ clauses : List Clause,
    ofJsonItems items = .ok clauses → ∀ clause ∈ clauses, clause.Faithful
  | [] => by
    intro clauses read
    rw [ofJsonItems, Except.ok.injEq] at read
    subst read
    simp
  | item :: rest => by
    intro clauses read
    obtain ⟨clause, more, first, later, rfl⟩ := ofJsonItems_cons_eq_ok.1 read
    rw [List.forall_mem_cons]
    exact ⟨faithful_ofJson item clause first, faithful_ofJsonItems rest more later⟩

end

/-- The clauses of a list that is read have no marked plain name at any depth. -/
theorem faithful_listOfJson {v : Json} {clauses : List Clause} (read : listOfJson v = .ok clauses) :
    ∀ clause ∈ clauses, clause.Faithful := by
  obtain ⟨items, rfl, each⟩ | ⟨-, clause, alone, rfl⟩ := listOfJson_eq_ok.1 read
  · exact faithful_ofJsonItems items clauses ((ofJsonItems_eq_ok items clauses).2 each)
  · simpa using faithful_ofJson v clause alone

end Clause

/-- **Documents express just the clauses without marked plain names.** A clause in which no plain rule clause,
at any depth, has a name that begins with the mark of negation is read back from the document that writes each
rule clause as an object with one key, the reference, and an array with the parameters, and each group as an
array; no other clause is read back from its document. These are also just the clauses that can be read from
some document, as a clause or as one of a list. -/
theorem documents_express (clause : Clause) :
    (clause.Faithful ↔ Clause.ofJson clause.toJson = .ok clause) ∧
    (clause.Faithful ↔ ∃ v, Clause.ofJson v = .ok clause) ∧
    (clause.Faithful ↔ ∃ v clauses, Clause.listOfJson v = .ok clauses ∧ clause ∈ clauses) := by
  have written := Clause.ofJson_toJson clause
  refine ⟨written.symm, ⟨fun faithful => ?_, ?_⟩, ⟨fun faithful => ?_, ?_⟩⟩
  · exact ⟨clause.toJson, written.2 faithful⟩
  · rintro ⟨v, read⟩
    exact Clause.faithful_ofJson v clause read
  · -- The array with the clause's document is a document of the list with the clause alone.
    refine ⟨.arr [clause.toJson], [clause], ?_, List.mem_singleton_self clause⟩
    rw [Clause.listOfJson, Clause.ofJsonItems_cons_eq_ok]
    exact ⟨clause, [], written.2 faithful, rfl, rfl⟩
  · rintro ⟨v, clauses, read, mem⟩
    exact Clause.faithful_listOfJson read clause mem

end Criteria
