import Criteria.Clause.Document
import Criteria.Proofs.Rule.Acceptance

/-!
# Names of types in parameters

A parameter names types by strings, which may stand in arrays at any depth; whatever else stands there names
nothing. The rule `type` passes if the type of the value is named (`StandardRule.someNamesType_iff`), so only
the names count and not where, in which order or how often they stand (`StandardRule.type_test_congr`).
-/

namespace Criteria
set_option autoImplicit false

/-- Whether a string is a parameter or stands in it, in arrays at any depth. -/
inductive Json.Names : Json → String → Prop where
  | self (name : String) : Names (.str name) name
  | item {items : List Json} {item : Json} {name : String} :
      item ∈ items → Names item name → Names (.arr items) name

/-- Whether one of the parameters names a type. -/
def Json.SomeNames (params : List Json) (name : String) : Prop := ∃ param ∈ params, param.Names name

namespace Json

variable {params front inner back : List Json} {name : String}

theorem names_str {s : String} : (str s).Names name ↔ s = name := by
  constructor
  · rintro ⟨⟩
    rfl
  · rintro rfl
    exact .self s

theorem names_arr : (arr params).Names name ↔ SomeNames params name := by
  constructor
  · rintro (_ | ⟨mem, named⟩)
    exact ⟨_, mem, named⟩
  · rintro ⟨item, mem, named⟩
    exact .item mem named

theorem someNames_cons {param : Json} :
    SomeNames (param :: params) name ↔ param.Names name ∨ SomeNames params name := by
  simp [SomeNames]

theorem someNames_append : SomeNames (front ++ back) name ↔ SomeNames front name ∨ SomeNames back name := by
  simp [SomeNames, or_and_right, exists_or]

end Json

namespace StandardRule

open Json

variable {value : Json}

mutual

/-- A parameter names the type of a value if the name of this type is reached in it. -/
theorem namesType_iff : (param : Json) → (namesType value param = true ↔ param.Names value.typeName)
  | .str name => by
    rw [namesType, names_str, hasType, beq_iff_eq, eq_comm]
  | .arr items => by
    rw [namesType, names_arr]
    exact someNamesType_iff items
  | .null | .bool _ | .int _ | .float _ | .obj _ => by
    refine ⟨fun named => ?_, fun named => ?_⟩ <;> cases named

theorem someNamesType_iff : (params : List Json) →
    (someNamesType value params = true ↔ SomeNames params value.typeName)
  | [] => by simp [someNamesType, SomeNames]
  | param :: rest => by
    rw [someNamesType, Bool.or_eq_true, someNames_cons, namesType_iff param, someNamesType_iff rest]

end

end StandardRule

/-! ## Rearranging parameters -/

/-- A change of parameters that moves, repeats or nests them, at any depth. -/
inductive Json.Rearranged : List Json → List Json → Prop where
  | reordered {params params' : List Json} : params.Perm params' → Rearranged params params'
  | repeated {param : Json} {params : List Json} : param ∈ params → Rearranged params (param :: params)
  | nested (front inner back : List Json) :
      Rearranged (front ++ inner ++ back) (front ++ .arr inner :: back)
  | within (front back : List Json) {inner inner' : List Json} : Rearranged inner inner' →
      Rearranged (front ++ .arr inner :: back) (front ++ .arr inner' :: back)
  | symm {params params' : List Json} : Rearranged params params' → Rearranged params' params
  | trans {params params' params'' : List Json} :
      Rearranged params params' → Rearranged params' params'' → Rearranged params params''

namespace Json

variable {params params' : List Json}

/-- Rearranged parameters name the same types. -/
theorem Rearranged.someNames_iff (h : Rearranged params params') (name : String) :
    SomeNames params name ↔ SomeNames params' name := by
  induction h with
  | reordered perm => exact exists_congr fun param => and_congr_left fun _ => perm.mem_iff
  | @repeated param params mem =>
    rw [someNames_cons]
    exact ⟨.inr, fun named => named.elim (fun here => ⟨param, mem, here⟩) id⟩
  | nested front inner back => simp only [someNames_append, someNames_cons, names_arr, or_assoc]
  | within front back _ ih => simp only [someNames_append, someNames_cons, names_arr, ih]
  | symm _ ih => exact ih.symm
  | trans _ _ first second => exact first.trans second

end Json

namespace StandardRule

open Json

/-- **Only the named types count**: parameters that name the same types are satisfied by the same values. -/
theorem type_test_congr {params params' : List Json}
    (same : ∀ name, SomeNames params name ↔ SomeNames params' name) (value : Json) :
    type.test value params = type.test value params' :=
  Bool.eq_iff_iff.2 <| (someNamesType_iff params).trans <|
    (same value.typeName).trans (someNamesType_iff params').symm

end StandardRule

/-- What the rule `type` accepts with the given parameters. -/
theorem Clause.accepts_type_iff {e : Engine} (reached : Engine.empty.Reaches e) {registry : Registry}
    (installed : registry.Installed .type) (params : List Json) (value : Json) :
    (Clause.rule "type" false params).Accepts registry e value ↔ Json.SomeNames params value.typeName := by
  have tested := Clause.accepts_rule_iff reached installed (by decide) false params value
  rw [← StandardRule.someNamesType_iff]
  exact tested.trans Bool.ne_false_iff

/-- The parameters that a document binds name the same types as the document itself. -/
theorem Clause.someNames_boundParams (types : Json) (name : String) :
    Json.SomeNames (boundParams types) name ↔ types.Names name := by
  cases types with
  | arr items => exact Json.names_arr.symm
  | _ => simp [boundParams, Json.SomeNames]

open StandardRule in
/-- **The rule `type` depends on the names of types only.** It passes if the type of the value is a string
among the parameters or in their arrays, at any depth. So parameters that are moved, repeated or nested are
satisfied by the same values, and a list of types can be written as a document or as a single parameter. -/
theorem type_depends_on_names (value : Json) (params : List Json) :
    (type.test value params = true ↔ ∃ param ∈ params, param.Names value.typeName) ∧
    (∀ params', (∀ name, Json.SomeNames params name ↔ Json.SomeNames params' name) →
      type.test value params = type.test value params') ∧
    (∀ params', Json.Rearranged params params' → type.test value params = type.test value params') ∧
    ∀ {e : Engine}, Engine.empty.Reaches e → ∀ {registry : Registry}, registry.Installed type →
      ∀ types : Json, ∃ spread, Clause.ofJson (.obj [("type", types)]) = .ok spread ∧
        (spread.Accepts registry e value ↔ types.Names value.typeName) ∧
        ((Clause.ofReference "type" [types]).Accepts registry e value ↔ types.Names value.typeName) := by
  refine ⟨someNamesType_iff params, fun params' same => type_test_congr same value,
    fun params' h => type_test_congr h.someNames_iff value, fun reached _ installed types => ?_⟩
  have accepts := fun params => Clause.accepts_type_iff reached installed params value
  refine ⟨.rule "type" false (Clause.boundParams types), rfl, ?_, ?_⟩
  · exact (accepts _).trans (Clause.someNames_boundParams types value.typeName)
  · exact (accepts [types]).trans (by simp [Json.SomeNames])

/-- The registry that holds the rule `type` and nothing else. -/
def Registry.typing : Registry := Registry.empty.insert ⟨0, "type", StandardRule.type.body⟩

open StandardRule in
/-- Strings are named within an array, and still so when the parameters are put into one more array. -/
theorem type_depends_on_names_nested :
    let inner : Json := .arr [.str "string"]
    let outer : Json := .arr [.bool true, inner]
    inner.Names "string" ∧ type.test (.str "") [.bool true, inner] = true ∧
      Json.Rearranged [.bool true, inner] [outer] ∧
      type.test (.str "") [.bool true, inner] = type.test (.str "") [outer] ∧
      Engine.empty.Reaches .empty ∧ Registry.typing.Installed type ∧
      ∃ clause, Clause.ofJson (.obj [("type", outer)]) = .ok clause ∧
        clause.Accepts .typing .empty (.str "") := by
  intro inner outer
  have named : inner.Names "string" := .item (List.mem_singleton.2 rfl) (.self "string")
  have rearranged : Json.Rearranged [.bool true, inner] [outer] := .nested [] [.bool true, inner] []
  have reached : Engine.empty.Reaches .empty := .refl .empty
  have installed : Registry.typing.Installed type := ⟨0, rfl⟩
  obtain ⟨passes, -, kept, written⟩ := type_depends_on_names (.str "") [.bool true, inner]
  obtain ⟨clause, reads, accepts, -⟩ := written reached installed outer
  exact ⟨named, passes.2 ⟨inner, by simp, named⟩, rearranged, kept _ rearranged, reached, installed, clause,
    reads, accepts.2 (.item (by simp) named)⟩

end Criteria
