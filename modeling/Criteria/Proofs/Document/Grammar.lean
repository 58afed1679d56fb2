import Criteria.Clause.Document
import Mathlib.Data.List.Forall2

/-!
# The grammar of clause documents

A string, an object with one key and an array of documents of clauses are documents of clauses, and nothing
else is. `Clause.Means` says which clause such a document stands for, without reading it; `Json.clauseFault?`
says what is wrong with a value as a clause, whatever is inside it. Reading agrees with both: it gives the
clause that is meant (`Clause.ofJson_eq_ok`), and if there is none, the fault of the first faulty value in
document order (`Clause.ofJson_eq_error`).
-/

namespace Criteria
set_option autoImplicit false

/-! ## References -/

/-- Whether a name begins with the mark of negated references. -/
def Clause.IsMarked (name : String) : Prop := name.toList.head? = some negationMark

instance (name : String) : Decidable (Clause.IsMarked name) :=
  inferInstanceAs (Decidable (_ = _))

/-- Which rule a reference names and with which polarity: behind a mark the rest is the name of a negated
rule, be that rest marked again or not; without a mark the whole is a name. -/
inductive Clause.Refers : String → String → Bool → Prop where
  | negated (name : String) : Refers (String.ofList (negationMark :: name.toList)) name true
  | plain {name : String} (unmarked : ¬ IsMarked name) : Refers name name false

/-- Splitting a reference strips one mark. -/
theorem Clause.splitReference_eq {reference name : String} {negated : Bool} :
    splitReference reference = (negated, name) ↔ Refers reference name negated := by
  constructor
  · intro split
    rw [splitReference] at split
    cases letters : reference.toList with
    | nil =>
      rw [letters] at split
      obtain ⟨rfl, rfl⟩ := Prod.mk.inj split
      apply Refers.plain
      simp [IsMarked, letters]
    | cons c rest =>
      rw [letters] at split
      dsimp only at split
      split at split
      next mark =>
        obtain ⟨rfl, rfl⟩ := Prod.mk.inj split
        have whole : reference = String.ofList (negationMark :: (String.ofList rest).toList) := by
          rw [String.toList_ofList, ← mark, ← letters, String.ofList_toList]
        rw [whole]
        exact .negated _
      next other =>
        obtain ⟨rfl, rfl⟩ := Prod.mk.inj split
        apply Refers.plain
        simpa [IsMarked, letters] using other
  · intro refers
    cases refers with
    | negated => simp [splitReference]
    | plain unmarked =>
      rw [splitReference]
      cases letters : reference.toList with
      | nil => rfl
      | cons c rest =>
        have other : c ≠ negationMark := by simpa [IsMarked, letters] using unmarked
        simp [other]

/-- The clause of a reference has the name, the polarity and the parameters. -/
theorem Clause.ofReference_eq {reference : String} {params : List Json} {clause : Clause} :
    ofReference reference params = clause ↔
      ∃ name negated, Refers reference name negated ∧ clause = .rule name negated params := by
  rw [ofReference]
  constructor
  · rintro rfl
    exact ⟨_, _, splitReference_eq.1 rfl, rfl⟩
  · rintro ⟨name, negated, refers, rfl⟩
    rw [splitReference_eq.2 refers]

/-! ## Documents that are clauses -/

/-- Whether a value is the document of a clause. -/
inductive Json.IsClause : Json → Prop where
  | reference (s : String) : IsClause (.str s)
  | withParams (reference : String) (params : Json) : IsClause (.obj [(reference, params)])
  | group {items : List Json} (members : ∀ item ∈ items, item.IsClause) : IsClause (.arr items)

/-- The clause that a document stands for. -/
inductive Clause.Means : Json → Clause → Prop where
  | reference {s name : String} {negated : Bool} (refers : Refers s name negated) :
      Means (.str s) (.rule name negated [])
  | withParams {s name : String} {negated : Bool} (refers : Refers s name negated)
      (params : List Json) : Means (.obj [(s, .arr params)]) (.rule name negated params)
  | withParam {s name : String} {negated : Bool} (refers : Refers s name negated) {param : Json}
      (single : ∀ items, param ≠ .arr items) : Means (.obj [(s, param)]) (.rule name negated [param])
  | group {items : List Json} {members : List Clause} (each : List.Forall₂ Means items members) :
      Means (.arr items) (.group members)

/-- A single-key object stands for the reference with the bound parameters. -/
theorem Clause.means_object {s : String} {params : Json} {clause : Clause} :
    Means (.obj [(s, params)]) clause ↔
      ∃ name negated, Refers s name negated ∧ clause = .rule name negated (boundParams params) := by
  constructor
  · intro means
    cases means with
    | withParams refers params => exact ⟨_, _, refers, rfl⟩
    | withParam refers single =>
      refine ⟨_, _, refers, ?_⟩
      cases params with
      | arr items => exact absurd rfl (single items)
      | _ => rfl
  · rintro ⟨name, negated, refers, rfl⟩
    cases params with
    | arr items => exact .withParams refers items
    | _ => exact .withParam refers fun items => Json.noConfusion

/-! ## Faults -/

/-- What is wrong with a value as a clause, apart from what is inside it. -/
def Json.clauseFault? : Json → Option ClauseFault
  | .str _ => none
  | .arr _ => none
  | .obj members => if members.length = 1 then none else some (.keyCount members.length)
  | other => some (.notClause other)

mutual

/-- The values in a document that have to be clauses, in document order, each before those inside it.
The parameters of a reference need not be clauses. -/
def Json.clauseNodes : Json → List Json
  | .arr items => .arr items :: Json.allClauseNodes items
  | other => [other]

/-- The values in documents that have to be clauses. -/
def Json.allClauseNodes : List Json → List Json
  | [] => []
  | item :: rest => item.clauseNodes ++ Json.allClauseNodes rest

end

/-- What is wrong with a document as a list of clauses: with an array what is wrong with the first faulty
value in it, with a single clause what is wrong with that. -/
def Json.listFault? : Json → Option ClauseFault
  | .arr items => (Json.allClauseNodes items).findSome? Json.clauseFault?
  | .str s => (Json.str s).clauseFault?
  | .obj members => (Json.obj members).clauseFault?
  | other => some (.notList other)

/-! ## Reading -/

namespace Clause

theorem ofJson_object (s : String) (params : Json) :
    ofJson (.obj [(s, params)]) = .ok (ofReference s (boundParams params)) := by
  rw [ofJson]

/-- Objects with any other number of keys are refused. -/
theorem ofJson_keyCount {members : List (String × Json)} (other : members.length ≠ 1) :
    ofJson (.obj members) = .error (.keyCount members.length) := by
  rw [ofJson]
  rintro s params rfl
  exact other rfl

theorem ofJson_array_eq_ok {items : List Json} {clause : Clause} :
    ofJson (.arr items) = .ok clause ↔
      ∃ members, ofJsonItems items = .ok members ∧ clause = .group members := by
  rw [ofJson]
  cases ofJsonItems items with
  | error fault => simp [Except.map]
  | ok members => simp [Except.map, eq_comm]

theorem ofJson_array_eq_error {items : List Json} {fault : ClauseFault} :
    ofJson (.arr items) = .error fault ↔ ofJsonItems items = .error fault := by
  rw [ofJson]
  cases ofJsonItems items <;> simp [Except.map]

theorem ofJsonItems_cons_eq_ok {item : Json} {rest : List Json} {clauses : List Clause} :
    ofJsonItems (item :: rest) = .ok clauses ↔
      ∃ clause more, ofJson item = .ok clause ∧ ofJsonItems rest = .ok more ∧
        clauses = clause :: more := by
  rw [ofJsonItems]
  cases ofJson item with
  | error fault => simp [bind, Except.bind]
  | ok clause =>
    cases ofJsonItems rest with
    | error fault => simp [bind, Except.bind]
    | ok more => simp [bind, Except.bind, eq_comm]

/-- The first item that is refused is reported. -/
theorem ofJsonItems_cons_eq_error {item : Json} {rest : List Json} {fault : ClauseFault} :
    ofJsonItems (item :: rest) = .error fault ↔ ofJson item = .error fault ∨
      (∃ clause, ofJson item = .ok clause) ∧ ofJsonItems rest = .error fault := by
  rw [ofJsonItems]
  cases ofJson item with
  | error other => simp [bind, Except.bind]
  | ok clause =>
    cases ofJsonItems rest <;> simp [bind, Except.bind]

mutual

/-- **Reading gives the clause that a document stands for.** -/
theorem ofJson_eq_ok : (v : Json) → ∀ clause : Clause, ofJson v = .ok clause ↔ Means v clause
  | .str s => by
    intro clause
    rw [ofJson, Except.ok.injEq, ofReference_eq]
    constructor
    · rintro ⟨name, negated, refers, rfl⟩
      exact .reference refers
    · rintro ⟨refers⟩
      exact ⟨_, _, refers, rfl⟩
  | .obj [(s, params)] => by
    intro clause
    rw [ofJson_object, Except.ok.injEq, ofReference_eq, means_object]
  | .obj [] => by
    intro clause
    rw [ofJson_keyCount (by simp)]
    constructor <;> rintro ⟨⟩
  | .obj (_ :: _ :: _) => by
    intro clause
    rw [ofJson_keyCount (by simp)]
    constructor <;> rintro ⟨⟩
  | .arr items => by
    intro clause
    rw [ofJson_array_eq_ok]
    constructor
    · rintro ⟨members, read, rfl⟩
      exact .group ((ofJsonItems_eq_ok items _).1 read)
    · rintro (_ | _ | _ | each)
      exact ⟨_, (ofJsonItems_eq_ok items _).2 each, rfl⟩
  | .null | .bool _ | .int _ | .float _ => by
    intro clause
    rw [ofJson]
    constructor <;> rintro ⟨⟩

/-- Reading items gives the clauses that they stand for, in order. -/
theorem ofJsonItems_eq_ok : (items : List Json) → ∀ clauses : List Clause,
    ofJsonItems items = .ok clauses ↔ List.Forall₂ Means items clauses
  | [] => by
    intro clauses
    rw [ofJsonItems, Except.ok.injEq, List.forall₂_nil_left_iff, eq_comm]
  | item :: rest => by
    intro clauses
    rw [ofJsonItems_cons_eq_ok, List.forall₂_cons_left_iff]
    constructor
    · rintro ⟨clause, more, first, later, rfl⟩
      exact ⟨clause, more, (ofJson_eq_ok item _).1 first, (ofJsonItems_eq_ok rest _).1 later, rfl⟩
    · rintro ⟨clause, more, first, later, rfl⟩
      exact ⟨clause, more, (ofJson_eq_ok item _).2 first, (ofJsonItems_eq_ok rest _).2 later, rfl⟩

end

mutual

/-- **Reading reports the first faulty value in document order.** -/
theorem ofJson_eq_error : (v : Json) → ∀ fault : ClauseFault,
    ofJson v = .error fault ↔ v.clauseNodes.findSome? Json.clauseFault? = some fault
  | .str s => by
    intro fault
    simp [ofJson, Json.clauseNodes, Json.clauseFault?]
  | .obj members => by
    intro fault
    by_cases single : members.length = 1
    · obtain ⟨⟨s, params⟩, rfl⟩ := List.length_eq_one_iff.1 single
      simp [ofJson_object, Json.clauseNodes, Json.clauseFault?]
    · simp [ofJson_keyCount single, Json.clauseNodes, Json.clauseFault?, single]
  | .arr items => by
    intro fault
    rw [ofJson_array_eq_error, ofJsonItems_eq_error items, Json.clauseNodes, List.findSome?_cons]
    rfl
  | .null | .bool _ | .int _ | .float _ => by
    intro fault
    simp [ofJson, Json.clauseNodes, Json.clauseFault?]

theorem ofJsonItems_eq_error : (items : List Json) → ∀ fault : ClauseFault,
    ofJsonItems items = .error fault ↔
      (Json.allClauseNodes items).findSome? Json.clauseFault? = some fault
  | [] => by
    intro fault
    simp [ofJsonItems, Json.allClauseNodes]
  | item :: rest => by
    intro fault
    rw [ofJsonItems_cons_eq_error, ofJsonItems_eq_error rest, Json.allClauseNodes,
      List.findSome?_append, Option.or_eq_some_iff, ofJson_eq_error item]
    cases read : ofJson item with
    | error other => simp [(ofJson_eq_error item _).1 read]
    | ok clause =>
      have faultless : item.clauseNodes.findSome? Json.clauseFault? = none := by
        cases found : item.clauseNodes.findSome? Json.clauseFault? with
        | none => rfl
        | some other =>
          rw [(ofJson_eq_error item _).2 found] at read
          cases read
      simp [faultless]

end

mutual

/-- The documents of clauses are those that can be read. -/
theorem isClause_iff : (v : Json) → (v.IsClause ↔ ∃ clause, ofJson v = .ok clause)
  | .str s => iff_of_true (.reference s) ⟨_, by rw [ofJson]⟩
  | .obj [(s, params)] => iff_of_true (.withParams s params) ⟨_, ofJson_object s params⟩
  | .obj [] => by
    rw [ofJson_keyCount (by simp)]
    exact iff_of_false nofun nofun
  | .obj (_ :: _ :: _) => by
    rw [ofJson_keyCount (by simp)]
    exact iff_of_false nofun nofun
  | .arr items => by
    constructor
    · rintro (_ | _ | members)
      obtain ⟨clauses, read⟩ := (allClauses_iff items).1 members
      exact ⟨.group clauses, ofJson_array_eq_ok.2 ⟨clauses, read, rfl⟩⟩
    · rintro ⟨clause, read⟩
      obtain ⟨clauses, read, -⟩ := ofJson_array_eq_ok.1 read
      exact .group ((allClauses_iff items).2 ⟨clauses, read⟩)
  | .null | .bool _ | .int _ | .float _ => by
    rw [ofJson]
    exact iff_of_false nofun nofun

theorem allClauses_iff : (items : List Json) →
    ((∀ item ∈ items, item.IsClause) ↔ ∃ clauses, ofJsonItems items = .ok clauses)
  | [] => iff_of_true (by simp) ⟨[], by rw [ofJsonItems]⟩
  | item :: rest => by
    rw [List.forall_mem_cons, isClause_iff item, allClauses_iff rest]
    constructor
    · rintro ⟨⟨clause, first⟩, clauses, later⟩
      exact ⟨_, ofJsonItems_cons_eq_ok.2 ⟨clause, clauses, first, later, rfl⟩⟩
    · rintro ⟨_, read⟩
      obtain ⟨clause, clauses, first, later, rfl⟩ := ofJsonItems_cons_eq_ok.1 read
      exact ⟨⟨clause, first⟩, clauses, later⟩

end

/-! ## Lists of clauses -/

/-- Lists are read from arrays of documents of clauses, and from single ones. -/
theorem listOfJson_eq_ok {v : Json} {clauses : List Clause} :
    listOfJson v = .ok clauses ↔
      (∃ items, v = .arr items ∧ List.Forall₂ Means items clauses) ∨
        ((∃ s, v = .str s) ∨ ∃ members, v = .obj members) ∧
          ∃ clause, ofJson v = .ok clause ∧ clauses = [clause] := by
  -- A string or an object is read as a clause, which is then the only one.
  have single : ∀ read : Except ClauseFault Clause,
      read.map ([·]) = .ok clauses ↔ ∃ clause, read = .ok clause ∧ clauses = [clause] := by
    intro read
    cases read <;> simp [Except.map, eq_comm]
  cases v with
  | arr items => simp [listOfJson, ofJsonItems_eq_ok]
  | str s => simp [listOfJson, single]
  | obj members => simp [listOfJson, single]
  | _ => simp [listOfJson]

/-- A value that holds no list of clauses is reported for its own fault or for the first one in it. -/
theorem listOfJson_eq_error {v : Json} {fault : ClauseFault} :
    listOfJson v = .error fault ↔ v.listFault? = some fault := by
  have single : ∀ read : Except ClauseFault Clause,
      read.map ([·]) = .error fault ↔ read = .error fault := by
    intro read
    cases read <;> simp [Except.map]
  cases v with
  | arr items => rw [listOfJson, ofJsonItems_eq_error, Json.listFault?]
  | str s => simp [listOfJson, single, ofJson_eq_error, Json.clauseNodes, Json.listFault?]
  | obj members => simp [listOfJson, single, ofJson_eq_error, Json.clauseNodes, Json.listFault?]
  | _ => simp [listOfJson, Json.listFault?]

end Clause

/-! ## What is said of faults -/

/-- Whether a value is null, a Boolean or a number. -/
def Json.IsScalar : Json → Prop
  | .null | .bool _ | .int _ | .float _ => True
  | _ => False

/-- What is said of a value that is no clause by itself: of an object the number of its keys, of null, a
Boolean or a number the value. -/
inductive Json.Faulty : Json → String → Prop where
  | keyCount {members : List (String × Json)} (other : members.length ≠ 1) :
      Faulty (.obj members)
        ("malformed clause: " ++
          ("a parameterized clause needs exactly one key, found " ++ members.length.repr))
  | scalar {v : Json} (scalar : v.IsScalar) :
      Faulty v ("malformed clause: " ++
        ("expected a rule name, a single-key object or an array, found " ++ v.print))

/-- A fault describes the value that it is found in. -/
theorem Json.faulty_of_clauseFault? {v : Json} {fault : ClauseFault}
    (found : v.clauseFault? = some fault) : v.Faulty (BuildError.malformed fault).message := by
  cases v with
  | str s => cases found
  | arr items => cases found
  | obj members =>
    rw [Json.clauseFault?] at found
    split at found
    · cases found
    · next other =>
      cases found
      exact .keyCount other
  | _ =>
    cases found
    exact .scalar trivial

/-- **The grammar of clause documents.** A value can be read as a clause just if it is a string, an object
with one key or an array of values that can be read as clauses, and the clause that is read is the one that it
stands for. Otherwise the fault is that of the first faulty value in document order, and it describes this
value. A list of clauses is read from an array just if each of its items can be read, and then it has their
clauses; a string or an object is a list of the clause that is read from it; and anything else is refused. -/
theorem clause_documents (v : Json) :
    ((∃ clause, Clause.ofJson v = .ok clause) ↔ v.IsClause) ∧
    (∀ clause, Clause.ofJson v = .ok clause ↔ Clause.Means v clause) ∧
    (∀ fault, Clause.ofJson v = .error fault ↔ ∃ before node after,
      v.clauseNodes = before ++ node :: after ∧ (∀ earlier ∈ before, earlier.clauseFault? = none) ∧
        node.clauseFault? = some fault ∧ node.Faulty (BuildError.malformed fault).message) ∧
    (∀ clauses, Clause.listOfJson v = .ok clauses ↔
      (∃ items, v = .arr items ∧ List.Forall₂ Clause.Means items clauses) ∨
        ((∃ s, v = .str s) ∨ ∃ members, v = .obj members) ∧
          ∃ clause, Clause.ofJson v = .ok clause ∧ clauses = [clause]) ∧
    ∀ fault, Clause.listOfJson v = .error fault ↔ v.listFault? = some fault := by
  refine ⟨(Clause.isClause_iff v).symm, fun clause => Clause.ofJson_eq_ok v clause, fun fault => ?_,
    fun clauses => Clause.listOfJson_eq_ok, fun fault => Clause.listOfJson_eq_error⟩
  rw [Clause.ofJson_eq_error v fault, List.findSome?_eq_some_iff]
  constructor
  · rintro ⟨before, node, after, nodes, found, faultless⟩
    exact ⟨before, node, after, nodes, faultless, found, Json.faulty_of_clauseFault? found⟩
  · rintro ⟨before, node, after, nodes, faultless, found, -⟩
    exact ⟨before, node, after, nodes, found, faultless⟩

/-- The group with the empty object comes before the Boolean, so the object is reported. -/
example : (Clause.ofJson (.arr [.str "defined", .arr [.obj []], .bool true])).mapError
      (fun fault => (BuildError.malformed fault).message) =
    .error "malformed clause: a parameterized clause needs exactly one key, found 0" := by
  rfl

/-- A Boolean is written out where it is reported. -/
example : (Clause.ofJson (.arr [.str "defined", .bool true])).mapError
      (fun fault => (BuildError.malformed fault).message) =
    .error "malformed clause: expected a rule name, a single-key object or an array, found true" := by
  rfl

end Criteria
