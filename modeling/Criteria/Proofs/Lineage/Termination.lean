import Criteria.Proofs.Lineage.ByNumber
import Criteria.Proofs.Lineage.History
import Mathlib.Logic.Relation

/-!
# Evaluation comes to an end

A rule can be registered anew under a name that its body refers to, so by their names rules may refer to
themselves. By their definitions they do not: in every history of a session a validator refers only to
definitions that were there when it was built, and a definition whose body is a validator is younger than
this validator. So the table of all definitions of a history descends, and a call that follows references
by number ends, having started no more checks than there are in the tree of the validator
(`evaluation_terminates`).
-/

namespace Criteria
set_option autoImplicit false

/-- Whether one validator refers to a definition whose body is another one. -/
def Validator.Follows (bodies : Nat → Option Body) (v w : Validator) : Prop :=
  ∃ d ∈ v.captured, bodies d.id = some w.body

namespace Session

variable {s : Session} {steps front : List Step} {step : Step} {v w : Validator} {d : Definition}

/-! ## All definitions of a history -/

/-- The definitions that a session knows. -/
def known (s : Session) : List Definition :=
  s.registries.records.flatMap (·.entries) ++ s.definitions.map Prod.snd

theorem mem_known : d ∈ s.known ↔ s.Knows d := by
  rw [known, List.mem_append, List.mem_flatMap, List.mem_map, Knows]
  refine or_congr ⟨?_, ?_⟩ ⟨?_, ?_⟩
  · rintro ⟨r, there, mem⟩
    obtain ⟨number, found⟩ := List.mem_iff_getElem?.1 there
    exact ⟨number, r, found, mem⟩
  · rintro ⟨number, r, found, mem⟩
    exact ⟨r, List.mem_of_getElem? found, mem⟩
  · rintro ⟨⟨name, _⟩, mem, rfl⟩
    exact ⟨name, mem⟩
  · rintro ⟨name, mem⟩
    exact ⟨(name, d), mem, rfl⟩

/-- The body of the definition of a number, among all that were known at any time in the course of
steps. -/
def bodyOf? (steps : List Step) (number : Nat) : Option Body :=
  ((steps.inits.flatMap fun front => (fresh.after front).known).find? fun d => d.id == number).map (·.body)

/-- The table has only bodies of definitions that were known at some time. -/
theorem knows_of_bodyOf? {number : Nat} {body : Body} (found : bodyOf? steps number = some body) :
    ∃ front d, front <+: steps ∧ (fresh.after front).Knows d ∧ d.id = number ∧ d.body = body := by
  obtain ⟨d, first, rfl⟩ := Option.map_eq_some_iff.1 found
  obtain ⟨front, among, mem⟩ := List.mem_flatMap.1 (List.mem_of_find?_eq_some first)
  have same := List.find?_some first
  exact ⟨front, d, (List.mem_inits front steps).1 among, mem_known.1 mem, eq_of_beq same, rfl⟩

/-- The table has the bodies of all definitions that were known at any time. -/
theorem bodyOf?_of_knows (within : front <+: steps) (knows : (fresh.after front).Knows d) :
    bodyOf? steps d.id = some d.body := by
  have mem : d ∈ steps.inits.flatMap fun front => (fresh.after front).known :=
    List.mem_flatMap.2 ⟨front, (List.mem_inits front steps).2 within, mem_known.2 knows⟩
  cases found : bodyOf? steps d.id with
  | none =>
    have absent := List.find?_eq_none.1 (Option.map_eq_none_iff.1 found) d mem
    exact absurd (beq_self_eq_true d.id) absent
  | some body =>
    obtain ⟨back, d', within', knows', same, rfl⟩ := knows_of_bodyOf? found
    rw [eq_of_number within within' knows knows' same]

/-! ## What is referred to is older -/

/-- What a validator follows was built before it: the definition in between came after the one and was
there when the other was built. -/
theorem Builds.follows (within : front <+: steps) (builds : (fresh.after front).Builds step v)
    (follows : v.Follows (bodyOf? steps) w) : w.age < v.age ∧ fresh.HasBuilt front w := by
  obtain ⟨d, mem, body⟩ := follows
  obtain ⟨knows, older⟩ := builds.captured d mem
  have same : d.body = w.body := Option.some.inj ((bodyOf?_of_knows within knows).symm.trans body)
  obtain ⟨early, before, built, younger, -⟩ := age_le_of_body knows same
  exact ⟨Nat.lt_of_le_of_lt younger older, built.mono before⟩

/-- **References never lead back**, by induction on how far they are followed. -/
theorem Builds.follows_all (within : front <+: steps) (builds : (fresh.after front).Builds step v)
    (followed : Relation.TransGen (Validator.Follows (bodyOf? steps)) v w) :
    w.age < v.age ∧ fresh.HasBuilt front w := by
  induction followed with
  | single follows => exact builds.follows within follows
  | tail _ follows ih =>
    obtain ⟨younger, before, step, after, split, builds'⟩ := ih
    have earlier : before <+: front := ⟨step :: after, split⟩
    obtain ⟨younger', built⟩ := builds'.follows (earlier.trans within) follows
    exact ⟨Nat.lt_trans younger' younger, built.mono earlier⟩

/-- **The table of a history descends.** -/
theorem descends_bodyOf? (steps : List Step) : Descends (bodyOf? steps) := by
  intro number v found d mem
  obtain ⟨front, d', within, knows, rfl, body⟩ := knows_of_bodyOf? found
  obtain ⟨early, before, ⟨first, step, rest, split, builds⟩, younger, -⟩ := age_le_of_body knows body
  obtain ⟨known, older⟩ := builds.captured d mem
  have whole : first <+: steps := (List.IsPrefix.trans ⟨step :: rest, split⟩ before).trans within
  exact ⟨bodyOf?_of_knows whole known, Nat.lt_of_lt_of_le older younger⟩

end Session

open Session Engine in
/-- **Evaluation comes to an end**, whatever rules a session registers, replaces and removes and whatever
validators it builds, a validator that is registered under the name of a rule which it refers to included.
A definition whose body is a validator comes to be known only after this validator was built. A validator
is as old as there are definitions when it is built and captures only such as are known then, so following
validators and the bodies of the definitions that they capture leads to validators that were built ever
earlier, and never back. So every call of a validator on any value in any state comes to an end with what
the engine comes to, when all definitions are looked up by their numbers, and it starts no more checks than
there are in the tree of the validator. -/
theorem evaluation_terminates (steps : List Step) :
    let bodies := bodyOf? steps
    (∀ front, front <+: steps → ∀ d, (fresh.after front).Knows d →
      bodies d.id = some d.body ∧
      ∀ v : Validator, d.body = v.body → ∃ early, early <+: front ∧ fresh.HasBuilt early v ∧
        v.age ≤ d.id ∧ ¬ (fresh.after early).Knows d) ∧
    ∀ front, front <+: steps → ∀ step v, (fresh.after front).Builds step v →
      v.age = (fresh.after front).engine.templates.size ∧
      (∀ d ∈ v.captured, (fresh.after front).Knows d ∧ d.id < v.age) ∧
      (∀ w, Relation.TransGen (Validator.Follows bodies) v w →
        w.age < v.age ∧ fresh.HasBuilt front w) ∧
      ∀ value e, ∃ started ≤ v.extent,
        ByNumber.call bodies v.age v value e = some (started, e.call v value) := by
  intro bodies
  refine ⟨fun front within d knows => ?_, fun front within step v builds => ?_⟩
  · exact ⟨bodyOf?_of_knows within knows, fun v body => age_le_of_body knows body⟩
  · refine ⟨builds.age_eq, builds.captured, fun w followed => builds.follows_all within followed,
      fun value e => ?_⟩
    refine ByNumber.call_eq (descends_bodyOf? steps) (fun d mem => ?_) value e
    obtain ⟨knows, older⟩ := builds.captured d mem
    exact ⟨bodyOf?_of_knows within knows, older⟩

/-! ## A rule that is redefined in terms of itself -/

/-- A rule is registered, and a validator of it is registered under its own name. -/
def Step.redefining : List Step :=
  [⟨"main", .openRegistry (.fresh false false)⟩,
    ⟨"main", .addRule "checked" (.standard "defined") ⟨none, none⟩⟩,
    ⟨"main", .build "once" (.clauses [.rule "checked" false []])⟩,
    ⟨"main", .addRule "checked" (.validator "once") ⟨none, none⟩⟩]

/-- A validator of this rule is built. -/
def Step.rebuilding : Step := ⟨"main", .build "twice" (.clauses [.rule "checked" false []])⟩

/-- The validator of the first rule of this name. -/
def Validator.once : Validator := ⟨11, [.rule 10 "checked" StandardRule.defined.body false []]⟩

/-- The validator of the second one. -/
def Validator.twice : Validator := ⟨12, [.rule 11 "checked" Validator.once.body false []]⟩

/-- By their names the rules of both validators are the same and refer to themselves. By number the call
ends. -/
theorem evaluation_terminates_redefined :
    let bodies := Session.bodyOf? (Step.redefining ++ [Step.rebuilding])
    Validator.twice.Follows bodies .once ∧ Validator.once.age < Validator.twice.age ∧
      ∃ started ≤ 2, Engine.ByNumber.call bodies 12 .twice .null .empty =
        some (started, Engine.empty.call .twice .null) := by
  intro bodies
  obtain ⟨definitions, validators⟩ := evaluation_terminates (Step.redefining ++ [Step.rebuilding])
  have within : Step.redefining <+: Step.redefining ++ [Step.rebuilding] := List.prefix_append _ _
  have builds : (Session.fresh.after Step.redefining).Builds Step.rebuilding .twice :=
    ⟨"main", "twice", _, rfl, rfl⟩
  obtain ⟨-, captured, followed, ends⟩ := validators Step.redefining within Step.rebuilding .twice builds
  have knows : (Session.fresh.after Step.redefining).Knows ⟨11, "checked", Validator.once.body⟩ :=
    (captured _ List.mem_cons_self).1
  have follows : Validator.twice.Follows bodies .once :=
    ⟨_, List.mem_cons_self, (definitions _ within _ knows).1⟩
  exact ⟨follows, (followed .once (.single follows)).1, ends .null .empty⟩

end Criteria
