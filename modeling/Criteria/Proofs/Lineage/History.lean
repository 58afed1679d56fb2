import Criteria.Proofs.Lineage.Capture
import Mathlib.Data.List.Infix

/-!
# Where definitions and validators come from

A session knows a definition with a validator as its body only if this validator was built before, and
what a validator captures was known before it was built. So whatever is registered, replaced and removed
in the course of a history, a definition is younger than the validator that is its body
(`Session.founded`), and a validator is younger than the definitions that it captures.
-/

namespace Criteria
set_option autoImplicit false

/-- The body of a rule tells the validator. -/
theorem Validator.eq_of_body {v w : Validator} (same : v.body = w.body) : v = w := by
  obtain ⟨age, checks⟩ := v
  obtain ⟨age', checks'⟩ := w
  obtain ⟨rfl, rfl⟩ := Body.validator.inj same
  rfl

namespace Session

variable {s t u : Session} {steps front back : List Step} {step : Step} {v : Validator} {d : Definition}

theorem after_append (s : Session) (front back : List Step) :
    s.after (front ++ back) = (s.after front).after back :=
  List.foldl_append

/-- Whether steps build a validator. -/
def HasBuilt (s : Session) (steps : List Step) (v : Validator) : Prop :=
  ∃ front step back, front ++ step :: back = steps ∧ (s.after front).Builds step v

theorem HasBuilt.mono (built : s.HasBuilt front v) (within : front <+: steps) : s.HasBuilt steps v := by
  obtain ⟨before, step, after, rfl, builds⟩ := built
  obtain ⟨more, rfl⟩ := within
  exact ⟨before, step, after ++ more, by simp, builds⟩

/-! ## One step -/

/-- A step keeps the validators of a session, apart from the one that it builds. -/
theorem validators_exec (s : Session) (step : Step) :
    (s.exec step).2.validators = s.validators ∨
      ∃ name v, s.Builds step v ∧ (s.exec step).2.validators = (name, v) :: s.validators := by
  cases kind : step.command.changes with
  | true => exact .inl (Managed.exec s kind).validators
  | false =>
    have effect := s.exec_effect step
    generalize (s.exec step).2 = t at effect ⊢
    cases effect with
    | @build within name number clauses v opened answer =>
      refine .inr ⟨name, v, ⟨within, name, clauses, rfl, ?_⟩, rfl⟩
      simpa only [exec, opened, execIn] using answer
    | nothing | evaluate | evaluateWith | validate | validateWith | validateAsync | poll | makeHandle
    | settle | dropHandle => exact .inl rfl
    | _ => cases kind

/-- Whether all that comes to be known from one session to another has no validators as bodies but some
that are in stock. -/
def Draws (stock : List (String × Validator)) (s t : Session) : Prop :=
  ∀ d, t.Knows d → s.Knows d ∨ ∀ v : Validator, d.body = v.body → ∃ name, (name, v) ∈ stock

namespace Draws

variable {stock : List (String × Validator)}

theorem of_fewer (fewer : ∀ d, t.Knows d → s.Knows d) : Draws stock s t :=
  fun d knows => .inl (fewer d knows)

theorem refl (s : Session) : Draws stock s s := of_fewer fun _ => id

theorem trans (first : Draws stock s t) (second : Draws stock t u) : Draws stock s u :=
  fun d knows => (second d knows).elim (first d) .inr

theorem add (s : Session) (number : Nat) (name : String) {body : Body} (templates : Templates)
    (holding : Option String) (drawn : ∀ v : Validator, body = v.body → ∃ name, (name, v) ∈ stock) :
    Draws stock s (s.add number name body templates holding) := by
  intro d knows
  obtain before | rfl := knows_add knows
  · exact .inl before
  · exact .inr drawn

theorem install (number : Nat) (rules : List StandardRule) : ∀ s : Session,
    Draws stock s (s.install number rules) := by
  induction rules with
  | nil => exact refl
  | cons rule rest ih =>
    exact fun s => (add s number rule.name rule.templates none (fun _ same => by cases same)).trans (ih _)

theorem openRegistry (s : Session) (name : String) (source : RegistrySource) :
    Draws stock s (s.openRegistry name source).2 := by
  cases source with
  | shared => exact of_fewer fun _ => id
  | fresh defaults extras =>
    have opened : Draws stock s { s with
        registries := s.registries.add .empty
        registryNames := (name, s.registries.size) :: s.registryNames } :=
      of_fewer fun _ => knows_open
    exact opened.trans (install s.registries.size (startRules defaults extras) _)

/-- A body that a session can register is a validator only if the session has this validator. -/
theorem drawn_of_body? {source : BodySource} {body : Body} (found : s.body? source = some body) :
    ∀ v : Validator, body = v.body → ∃ name, (name, v) ∈ s.validators := by
  rintro v rfl
  cases source with
  | standard name =>
    obtain ⟨rule, -, impossible⟩ := Option.map_eq_some_iff.1 found
    cases impossible
  | validator name =>
    obtain ⟨w, held, same⟩ := Option.map_eq_some_iff.1 found
    exact ⟨name, Validator.eq_of_body same ▸ mem_of_lookup held⟩
  | test | script | planned => cases found

/-- **A step makes known no definitions** with validators as bodies but with some that the session has. -/
theorem exec (h : s.Stands .empty) (step : Step) : Draws s.validators s (s.exec step).2 := by
  have effect := s.exec_effect step
  cases kind : step.command.changes with
  | false =>
    have moved := Moved.exec h kind
    refine of_fewer fun d knows => ?_
    rwa [Knows, moved.registries, moved.definitions] at knows
  | true =>
    generalize (s.exec step).2 = t at effect ⊢
    cases effect with
    | nothing => exact refl s
    | openRegistry name source => exact openRegistry s name source
    | addRule _ found name templates => exact add s _ name templates none (drawn_of_body? found)
    | addDefinition _ found name templates holding =>
      exact add s _ name templates holding (drawn_of_body? found)
    | install _ rules => exact install _ rules s
    | lookup _ found => exact of_fewer fun _ => knows_hold_known (knows_of_definition? found)
    | remove _ found => exact of_fewer fun _ => knows_remove found
    | setTemplate => exact of_fewer fun _ => id
    | _ => cases kind

end Draws

/-! ## All steps -/

theorem stands_after (steps : List Step) : (fresh.after steps).Stands .empty := stands_fresh.after steps

theorem numbered_after (steps : List Step) : (fresh.after steps).Numbered := by
  have named := numbered_fresh "main" .shared []
  exact (after_evolves steps stands_fresh).numbered ⟨named.bound, named.unique⟩

/-- No rule that is there from the start has a validator as its body. -/
theorem body_fresh (knows : fresh.Knows d) : d.body ≠ v.body := by
  intro same
  have made : Draws [] _ (install { Session.empty with registries := Store.empty.add .empty }
    sharedRegistry StandardRule.defaults) := .install sharedRegistry StandardRule.defaults _
  obtain before | drawn := made d knows
  · exact not_knows_bare d before
  · obtain ⟨name, mem⟩ := drawn v same
    cases mem

/-- Where the validators of a session and the bodies of its definitions come from: validators were built
by its steps, and when one of them was built, no definition was known that has it as its body. -/
structure Founded (steps : List Step) : Prop where
  validators : ∀ entry ∈ (fresh.after steps).validators, fresh.HasBuilt steps entry.2
  definitions : ∀ d, (fresh.after steps).Knows d → ∀ v : Validator, d.body = v.body →
    ∃ front, front <+: steps ∧ fresh.HasBuilt front v ∧ ¬ (fresh.after front).Knows d

/-- **A definition comes after the validator that is its body**, whatever steps a session carries out. -/
theorem founded (steps : List Step) : Founded steps := by
  induction steps using List.reverseRecOn with
  | nil =>
    refine ⟨fun entry mem => ?_, fun d knows v same => (body_fresh knows same).elim⟩
    cases mem
  | append_singleton steps step ih =>
    have longer : steps <+: steps ++ [step] := List.prefix_append steps [step]
    have last : fresh.after (steps ++ [step]) = ((fresh.after steps).exec step).2 :=
      after_append fresh steps [step]
    refine ⟨fun entry mem => ?_, fun d knows v same => ?_⟩
    · rw [last] at mem
      obtain kept | ⟨name, v, builds, more⟩ := validators_exec (fresh.after steps) step
      · rw [kept] at mem
        exact (ih.validators entry mem).mono longer
      · rw [more] at mem
        rcases List.mem_cons.1 mem with rfl | before
        · exact ⟨steps, step, [], rfl, builds⟩
        · exact (ih.validators entry before).mono longer
    · by_cases before : (fresh.after steps).Knows d
      · obtain ⟨front, within, rest⟩ := ih.definitions d before v same
        exact ⟨front, within.trans longer, rest⟩
      · rw [last] at knows
        obtain known | drawn := Draws.exec (stands_after steps) step d knows
        · exact (before known).elim
        · obtain ⟨name, held⟩ := drawn v same
          exact ⟨steps, longer, ih.validators (name, v) held, before⟩

/-! ## Ages and numbers -/

/-- There are never fewer definitions than before. -/
theorem size_mono (within : front <+: steps) :
    (fresh.after front).engine.templates.size ≤ (fresh.after steps).engine.templates.size := by
  obtain ⟨more, rfl⟩ := within
  rw [after_append]
  exact (after_evolves more (stands_after front)).size

/-- A definition that is not known at some time and is known later has a later number. -/
theorem size_le_of_new (within : front <+: steps) (unknown : ¬ (fresh.after front).Knows d)
    (knows : (fresh.after steps).Knows d) : (fresh.after front).engine.templates.size ≤ d.id := by
  obtain ⟨more, rfl⟩ := within
  rw [after_append] at knows
  exact ((after_evolves more (stands_after front)).known d knows).resolve_left unknown

theorem HasBuilt.age_le (built : fresh.HasBuilt front v) :
    v.age ≤ (fresh.after front).engine.templates.size := by
  obtain ⟨before, step, after, rfl, builds⟩ := built
  exact builds.age_eq ▸ size_mono (List.prefix_append before (step :: after))

/-- A definition whose body is a validator is younger than the validator. -/
theorem age_le_of_body (knows : (fresh.after steps).Knows d) (body : d.body = v.body) :
    ∃ front, front <+: steps ∧ fresh.HasBuilt front v ∧ v.age ≤ d.id ∧ ¬ (fresh.after front).Knows d := by
  obtain ⟨front, within, built, unknown⟩ := (founded steps).definitions d knows v body
  exact ⟨front, within, built, Nat.le_trans built.age_le (size_le_of_new within unknown knows), unknown⟩

/-- What a validator captures is older than the validator. -/
theorem Builds.captured (builds : (fresh.after front).Builds step v) :
    ∀ d ∈ v.captured, (fresh.after front).Knows d ∧ d.id < v.age := by
  intro d mem
  have knows := builds.knows d mem
  exact ⟨knows, builds.age_eq ▸ (numbered_after front).bound d knows⟩

/-- Definitions of the same number are the same, whenever in a history they are known. -/
theorem eq_of_number {d' : Definition} (within : front <+: steps) (within' : back <+: steps)
    (knows : (fresh.after front).Knows d) (knows' : (fresh.after back).Knows d') (same : d'.id = d.id) :
    d' = d := by
  have later : ∀ {early late : List Step} {x y : Definition}, early <+: late →
      (fresh.after early).Knows x → (fresh.after late).Knows y → y.id = x.id → y = x := by
    rintro early _ x y ⟨more, rfl⟩ first second numbers
    rw [after_append] at second
    exact known_of_number (stands_after early) (numbered_after early) first second numbers
  obtain first | second := List.prefix_or_prefix_of_prefix within within'
  · exact later first knows knows' same
  · exact (later second knows' knows same.symm).symm

end Session
end Criteria
