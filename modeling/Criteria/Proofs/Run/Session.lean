import Criteria.Proofs.Run.Effect

/-!
# Sessions are runs

Whatever steps a session carries out, its engine is what valid moves make of the empty one: a session
calls only validators that it has built, over registries of rules that it has defined. So all that is
proved of runs holds in every state of every session (`Session.reached_after`).
-/

namespace Criteria
set_option autoImplicit false

/-- Whether valid moves lead from one engine to another. -/
def Engine.Reaches (start e : Engine) : Prop :=
  ∃ moves, (∀ m ∈ moves, Move.Valid m) ∧ start.run moves = e

theorem Engine.Reaches.refl (e : Engine) : e.Reaches e := ⟨[], by simp, rfl⟩

theorem Engine.Reaches.move {start e : Engine} (h : start.Reaches e) {m : Move} (valid : m.Valid) :
    start.Reaches (e.move m) := by
  obtain ⟨moves, all, rfl⟩ := h
  refine ⟨moves ++ [m], ?_, by simp [Engine.run]⟩
  intro m' mem
  rcases List.mem_append.1 mem with before | last
  · exact all m' before
  · exact List.mem_singleton.1 last ▸ valid

namespace Registry

variable {r : Registry} {d : Definition}

theorem built_empty : Registry.empty.Built := fun _ mem => absurd mem List.not_mem_nil

theorem Built.insert (h : r.Built) (built : d.body.Built) : (r.insert d).Built := by
  intro x mem
  rcases mem_insertEntry mem with rfl | before
  · exact built
  · exact h x before

theorem Built.erase (h : r.Built) (name : String) : (r.erase name).Built :=
  fun x mem => h x (List.mem_filter.1 mem).1

theorem Built.lookup? (h : r.Built) {name : String} (found : r.lookup? name = some d) :
    d.body.Built :=
  h d (List.mem_of_find?_eq_some found)

end Registry

/-- What has a validator as its body was built with it. -/
theorem Validator.Built.body {v : Validator} (h : v.Built) : v.body.Built := by
  obtain ⟨age, registry, clauses, rules, built⟩ := h
  exact .validator rules built

theorem mem_of_lookup {α : Type} {name : String} {a : α} {entries : List (String × α)}
    (found : entries.lookup name = some a) : (name, a) ∈ entries := by
  obtain ⟨before, after, rfl, -⟩ := List.lookup_eq_some_iff.1 found
  exact List.mem_append_right before List.mem_cons_self

namespace Session

/-- The engine of a session is reached by valid moves from another, and all that it holds was built. -/
structure Stands (start : Engine) (s : Session) : Prop where
  engine : start.Reaches s.engine
  registries : ∀ number r, s.registries.get? number = some r → r.Built
  definitions : ∀ entry ∈ s.definitions, entry.2.body.Built
  validators : ∀ entry ∈ s.validators, entry.2.Built

variable {start : Engine} {s : Session}

namespace Stands

/-- What a session does from now on starts at its engine. -/
theorem now (h : s.Stands start) : s.Stands s.engine := { h with engine := .refl s.engine }

/-- A move of the engine. -/
theorem move (h : s.Stands start) {m : Move} (valid : m.Valid) :
    Stands start { s with engine := s.engine.move m } :=
  { h with engine := h.engine.move valid }

theorem registry (h : s.Stands start) (number : Nat) : (s.registry number).Built := by
  rw [Session.registry]
  cases found : s.registries.get? number with
  | none => exact Registry.built_empty
  | some r => exact h.registries number r found

/-- A change of a registry that keeps it built. -/
theorem updateRegistry (h : s.Stands start) (number : Nat) {change : Registry → Registry}
    (keeps : ∀ r : Registry, r.Built → (change r).Built) :
    Stands start { s with registries := s.registries.update number change } := by
  refine { h with registries := ?_ }
  intro n r found
  rw [Store.get?_update] at found
  split at found
  · obtain ⟨before, had, rfl⟩ := Option.map_eq_some_iff.1 found
    exact keeps before (h.registries n before had)
  · exact h.registries n r found

theorem register (h : s.Stands start) (number : Nat) {d : Definition} (built : d.body.Built) :
    (s.register number d).Stands start := by
  have logged : ∀ replaced, (Move.log (.registered number d.name replaced)).Valid :=
    fun _ => trivial
  exact (h.updateRegistry number fun r before => before.insert built).move (logged _)

theorem define (h : s.Stands start) (name : String) (body : Body) (templates : Templates) :
    (s.define name body templates).2.Stands start :=
  have valid : (Move.define templates).Valid := trivial
  h.move valid

theorem installRule (h : s.Stands start) (number : Nat) (rule : StandardRule) :
    (s.installRule number rule).Stands start :=
  (h.define rule.name rule.body rule.templates).register number (.test rule.test)

theorem install (number : Nat) : ∀ (rules : List StandardRule) {s : Session}, s.Stands start →
    (s.install number rules).Stands start
  | [], _, h => h
  | rule :: rules, _, h => install number rules (h.installRule number rule)

theorem openRegistry (h : s.Stands start) (name : String) (source : RegistrySource) :
    (s.openRegistry name source).2.Stands start := by
  cases source with
  | shared => exact { h with }
  | fresh defaults extras =>
    refine install s.registries.size (startRules defaults extras) { h with registries := ?_ }
    intro n r found
    rw [Store.get?_add] at found
    split at found
    · cases found
      exact Registry.built_empty
    · exact h.registries n r found

theorem hold (h : s.Stands start) (name : Option String) {d : Definition} (built : d.body.Built) :
    (s.hold name d).Stands start := by
  cases name with
  | none => exact h
  | some name =>
    refine { h with definitions := fun entry mem => ?_ }
    rcases List.mem_cons.1 mem with rfl | before
    · exact built
    · exact h.definitions entry before

theorem lookup_validators (h : s.Stands start) {name : String} {v : Validator}
    (found : s.validators.lookup name = some v) : v.Built :=
  h.validators (name, v) (mem_of_lookup found)

theorem body? (h : s.Stands start) {source : BodySource} {body : Body}
    (found : s.body? source = some body) : body.Built := by
  cases source with
  | standard name =>
    obtain ⟨rule, -, rfl⟩ := Option.map_eq_some_iff.1 found
    exact .test rule.test
  | validator name =>
    obtain ⟨v, named, rfl⟩ := Option.map_eq_some_iff.1 found
    exact (h.lookup_validators named).body
  | test test =>
    cases found
    exact .scripted _
  | script actions reply =>
    cases found
    exact .scripted _
  | planned plan =>
    cases found
    exact .scripted plan

theorem definition? (h : s.Stands start) {number : Nat} {reference : DefinitionRef}
    {d : Definition} (found : s.definition? number reference = some d) : d.body.Built := by
  cases reference with
  | held name => exact h.definitions (name, d) (mem_of_lookup found)
  | registered name => exact (h.registry number).lookup? found

/-- A new definition, which is registered and maybe held. -/
theorem add (h : s.Stands start) (number : Nat) (name : String) {body : Body} (built : body.Built)
    (templates : Templates) (holding : Option String) :
    (s.add number name body templates holding).Stands start :=
  ((h.define name body templates).register number built).hold holding built

/-- A new validator. -/
theorem build (h : s.Stands start) (name : String) {v : Validator} (built : v.Built) :
    Stands start ({ s with validators := (name, v) :: s.validators }.note (.built v.size)) := by
  have logged : (Move.log (.built v.size)).Valid := trivial
  refine { h.move logged with validators := fun entry mem => ?_ }
  rcases List.mem_cons.1 mem with rfl | before
  · exact built
  · exact h.validators entry before

/-- A call, whatever else is kept of it. -/
theorem call (h : s.Stands start) {v : Validator} (built : v.Built) (value : Json)
    (futures : List (String × Nat)) (labels : List (Nat × Json)) :
    Stands start { s with engine := s.engine.move (.call v value), futures, labels } :=
  have valid : (Move.call v value).Valid := built
  { h.move valid with }

theorem evaluate (h : s.Stands start) {d : Definition} (built : d.body.Built) (value : Json)
    (params : List Json) (handle : Option Nat) :
    Stands start { s with engine := s.engine.move (.evaluate d value params handle) } :=
  have valid : (Move.evaluate d value params handle).Valid := built
  h.move valid

/-- **What a step can do** keeps a session standing. -/
theorem effect (h : s.Stands start) {step : Step} {t : Session} (effect : s.Effect step t) :
    t.Stands start := by
  cases effect with
  | nothing => exact h
  | openRegistry name source => exact h.openRegistry name source
  | addRule _ found name templates => exact h.add _ name (h.body? found) templates none
  | addDefinition _ found name templates holding =>
    exact h.add _ name (h.body? found) templates holding
  | install _ rules => exact h.install _ rules
  | lookup _ found holding => exact h.hold holding (h.definition? found)
  | @remove _ name number d _ found holding =>
    have logged : (Move.log (.removed number name)).Valid := trivial
    have erased := (h.updateRegistry number fun r before => before.erase name).move logged
    exact erased.hold holding ((h.registry number).lookup? found)
  | @setTemplate _ _ _ d _ _ negated template =>
    have valid : (Move.setTemplate d.id negated template).Valid := trivial
    exact h.move valid
  | evaluate _ found value params => exact h.evaluate (h.definition? found) value params none
  | evaluateWith _ found value params index =>
    exact h.evaluate (h.definition? found) value params (some index)
  | @build _ name number _ v _ answer =>
    obtain ⟨own, done⟩ := (build_of_answer answer).1
    exact h.build name ⟨_, _, own, h.registry number, done⟩
  | validate held value | validateWith held value _ | validateAsync held value _ =>
    exact h.call (h.lookup_validators held) value _ _
  | poll => exact { h with }
  | makeHandle =>
    have valid : Move.make.Valid := trivial
    exact h.move valid
  | settle index answer =>
    have valid : (Move.settle index answer).Valid := trivial
    exact h.move valid
  | dropHandle index =>
    have valid : (Move.drop index).Valid := trivial
    exact h.move valid

end Stands

/-- The session after steps. -/
def after (s : Session) (steps : List Step) : Session := steps.foldl (fun s step => (s.exec step).2) s

theorem Stands.exec (h : s.Stands start) (step : Step) : (s.exec step).2.Stands start :=
  h.effect (s.exec_effect step)

theorem Stands.after (steps : List Step) : ∀ {s : Session}, s.Stands start →
    (s.after steps).Stands start := by
  induction steps with
  | nil => exact fun h => h
  | cons step rest ih => exact fun h => ih (h.exec step)

/-- Installing rules, apart from what the journal notes of it, defines their templates. -/
theorem engine_install (number : Nat) (rules : List StandardRule) : ∀ s : Session,
    { (s.install number rules).engine with journal := [] } =
      Engine.run { s.engine with journal := [] } (rules.map fun rule => .define rule.templates) := by
  induction rules with
  | nil => exact fun _ => rfl
  | cons rule rest ih => exact fun s => ih (s.installRule number rule)

/-- The session in which nothing happened yet. -/
theorem stands_fresh : Stands .empty .fresh := by
  have empty : Stands .empty { Session.empty with registries := Store.empty.add .empty } := by
    refine ⟨⟨[], by simp, rfl⟩, ?_, by simp [Session.empty], by simp [Session.empty]⟩
    intro n r found
    rw [Store.get?_add] at found
    split at found
    · cases found
      exact Registry.built_empty
    · cases found
  refine { empty.install sharedRegistry StandardRule.defaults with engine := ?_ }
  refine ⟨StandardRule.defaults.map fun rule => .define rule.templates, ?_, ?_⟩
  · intro m mem
    obtain ⟨rule, -, rfl⟩ := List.mem_map.1 mem
    trivial
  · exact (engine_install sharedRegistry StandardRule.defaults
      { Session.empty with registries := Store.empty.add .empty }).symm

/-- **Every state of every session is reached by valid moves**, and what it holds was built. -/
theorem reached_after (name : String) (source : RegistrySource) (steps : List Step) :
    ((Session.fresh.openRegistry name source).2.after steps).Stands .empty :=
  (stands_fresh.openRegistry name source).after steps

end Session
end Criteria
