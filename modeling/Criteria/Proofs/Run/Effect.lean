import Criteria.Proofs.Run.Move
import Criteria.Session.Exec

/-!
# What a step does to a session

A step does nothing, or what its command stands for with all that it names found (`Session.Effect`). Most
commands come down to one move of the engine. So what a step keeps is shown once for each effect, whatever
the step answers, and then holds of every step (`Session.exec_effect`).
-/

namespace Criteria
set_option autoImplicit false

namespace Session

variable {s : Session} {number : Nat}

/-- Makes a definition, registers it, and holds it under a name, if one is given. -/
def add (s : Session) (number : Nat) (name : String) (body : Body) (templates : Templates)
    (holding : Option String) : Session :=
  let (d, s) := s.define name body templates
  (s.register number d).hold holding d

/-- Building makes a validator from clauses, which is then there under its name, or changes nothing. -/
theorem build_cases (s : Session) (number : Nat) (name : String) (source : ClauseSource) :
    (∃ own v, Validator.build s.engine.templates.size (s.registry number) own = .ok v ∧
      s.build number name source =
        (.built v, { s with validators := (name, v) :: s.validators }.note (.built v.size))) ∨
    ∃ e, s.build number name source = (.notBuilt e, s) := by
  have outcome : ∀ own, s.build number name source = s.build number name (.clauses own) →
      (∃ v, Validator.build s.engine.templates.size (s.registry number) own = .ok v ∧
        s.build number name source =
          (.built v, { s with validators := (name, v) :: s.validators }.note (.built v.size))) ∨
      ∃ e, s.build number name source = (.notBuilt e, s) := by
    intro own same
    rw [same]
    simp only [build]
    cases Validator.build s.engine.templates.size (s.registry number) own with
    | ok v => exact .inl ⟨v, rfl, rfl⟩
    | error e => exact .inr ⟨e, rfl⟩
  cases source with
  | clauses own => exact (outcome own rfl).imp_left fun made => ⟨own, made⟩
  | document json =>
    cases read : Clause.listOfJson json with
    | ok own =>
      refine (outcome own ?_).imp_left fun made => ⟨own, made⟩
      simp only [build, Validator.ofJson, read]
    | error fault => exact .inr ⟨.malformed fault, by simp only [build, Validator.ofJson, read]⟩

/-- What comes of building when a validator is the answer. -/
theorem build_of_answer {name : String} {source : ClauseSource} {v : Validator}
    (answer : (s.build number name source).1 = .built v) :
    (∃ own, Validator.build s.engine.templates.size (s.registry number) own = .ok v) ∧
      (s.build number name source).2 =
        { s with validators := (name, v) :: s.validators }.note (.built v.size) := by
  obtain ⟨own, made, done, same⟩ | ⟨e, same⟩ := s.build_cases number name source
  · rw [same] at answer ⊢
    cases answer
    exact ⟨⟨own, done⟩, rfl⟩
  · rw [same] at answer
    cases answer

/-- What a step can do to a session. Handles that are gone need no case of their own where the move of the
engine already does nothing with them. -/
inductive Effect (s : Session) : Step → Session → Prop where
  | nothing (step : Step) : Effect s step s
  | openRegistry (name : String) (source : RegistrySource) :
    Effect s ⟨name, .openRegistry source⟩ (s.openRegistry name source).2
  | addRule {within : String} {number : Nat} {source : BodySource} {body : Body}
    (opened : s.registryNumber? within = some number) (found : s.body? source = some body)
    (name : String) (templates : Templates) :
    Effect s ⟨within, .addRule name source templates⟩ (s.add number name body templates none)
  | addDefinition {within : String} {number : Nat} {source : BodySource} {body : Body}
    (opened : s.registryNumber? within = some number) (found : s.body? source = some body)
    (name : String) (templates : Templates) (holding : Option String) :
    Effect s ⟨within, .addDefinition name source templates holding⟩
      (s.add number name body templates holding)
  | install {within : String} {number : Nat} (opened : s.registryNumber? within = some number)
    (rules : List StandardRule) : Effect s ⟨within, .install rules⟩ (s.install number rules)
  | lookup {within : String} {number : Nat} {reference : DefinitionRef} {d : Definition}
    (opened : s.registryNumber? within = some number)
    (found : s.definition? number reference = some d) (holding : Option String) :
    Effect s ⟨within, .lookup reference holding⟩ (s.hold holding d)
  | remove {within name : String} {number : Nat} {d : Definition}
    (opened : s.registryNumber? within = some number)
    (found : (s.registry number).lookup? name = some d) (holding : Option String) :
    Effect s ⟨within, .remove name holding⟩
      (({ s with registries := s.registries.update number fun r => r.erase name }.note
        (.removed number name)).hold holding d)
  | setTemplate {within : String} {number : Nat} {reference : DefinitionRef} {d : Definition}
    (opened : s.registryNumber? within = some number)
    (found : s.definition? number reference = some d) (negated : Bool) (template : Option String) :
    Effect s ⟨within, .setTemplate reference negated template⟩
      { s with engine := s.engine.move (.setTemplate d.id negated template) }
  | evaluate {within : String} {number : Nat} {reference : DefinitionRef} {d : Definition}
    (opened : s.registryNumber? within = some number)
    (found : s.definition? number reference = some d) (value : Json) (params : List Json) :
    Effect s ⟨within, .evaluate reference value params none⟩
      { s with engine := s.engine.move (.evaluate d value params none) }
  | evaluateWith {within : String} {number : Nat} {reference : DefinitionRef} {d : Definition}
    (opened : s.registryNumber? within = some number)
    (found : s.definition? number reference = some d) (value : Json) (params : List Json) (index : Nat) :
    Effect s ⟨within, .evaluate reference value params (some (.numbered index))⟩
      { s with engine := s.engine.move (.evaluate d value params (some index)) }
  | build {within name : String} {number : Nat} {source : ClauseSource} {v : Validator}
    (opened : s.registryNumber? within = some number)
    (answer : (s.build number name source).1 = .built v) :
    Effect s ⟨within, .build name source⟩
      ({ s with validators := (name, v) :: s.validators }.note (.built v.size))
  | validate {within name : String} {v : Validator} (held : s.validators.lookup name = some v)
    (value : Json) :
    Effect s ⟨within, .validate name value⟩ { s with engine := s.engine.move (.call v value) }
  | validateWith {within name : String} {v : Validator} (held : s.validators.lookup name = some v)
    (value label : Json) :
    Effect s ⟨within, .validateWith name value label⟩
      { s with
        engine := s.engine.move (.call v value)
        labels := (s.engine.calls.size, label) :: s.labels }
  | validateAsync {within name : String} {v : Validator} (held : s.validators.lookup name = some v)
    (value : Json) (future : String) :
    Effect s ⟨within, .validateAsync name value future⟩
      { s with
        engine := s.engine.move (.call v value)
        futures := (future, s.engine.calls.size) :: s.futures }
  | poll {within future : String} {call : Nat} {result : Result}
    (held : s.futures.lookup future = some call) (ready : s.engine.outcome? call = some result) :
    Effect s ⟨within, .poll future⟩
      { s with futures := s.futures.filter fun (name, _) => name != future }
  | makeHandle {within : String} :
    Effect s ⟨within, .makeHandle⟩ { s with engine := s.engine.move .make }
  | settle {within : String} (index : Nat) (answer : Answer) :
    Effect s ⟨within, .settle (.numbered index) answer⟩
      { s with engine := s.engine.move (.settle index answer) }
  | dropHandle {within : String} (index : Nat) :
    Effect s ⟨within, .dropHandle (.numbered index)⟩ { s with engine := s.engine.move (.drop index) }

/-- An evaluation is given a handle that is kept, or none, or does nothing. -/
theorem evaluate_effect {within : String} (opened : s.registryNumber? within = some number)
    (reference : DefinitionRef) (value : Json) (params : List Json) (handle : Option HandleRef) :
    s.Effect ⟨within, .evaluate reference value params handle⟩
      (s.execIn number (.evaluate reference value params handle)).2 := by
  rw [execIn]
  cases found : s.definition? number reference with
  | none => exact .nothing _
  | some d =>
    cases handle with
    | none => exact .evaluate opened found value params
    | some handle =>
      cases handle with
      | unmade => exact .nothing _
      | numbered index =>
        have effect := Effect.evaluateWith opened found value params index
        rw [Engine.move] at effect
        simp only [handle?]
        cases kept : s.engine.parked? index with
        | none => exact .nothing _
        | some handle =>
          rw [kept] at effect
          exact effect

/-- A settlement is one of a handle that is kept, or does nothing. -/
theorem settle_effect {within : String} (handle : HandleRef) (answer : Answer) :
    s.Effect ⟨within, .settle handle answer⟩ (s.execIn number (.settle handle answer)).2 := by
  cases handle with
  | unmade => exact .nothing _
  | numbered index =>
    have effect : s.Effect ⟨within, _⟩ _ := .settle index answer
    rw [Engine.move] at effect
    simp only [execIn, handle?]
    cases kept : s.engine.parked? index with
    | none => exact .nothing _
    | some handle =>
      rw [kept] at effect
      exact effect

theorem execIn_effect {within : String} (opened : s.registryNumber? within = some number)
    (command : Command) : s.Effect ⟨within, command⟩ (s.execIn number command).2 := by
  cases command with
  | openRegistry | contains | names | inspectRegistry | unknown => exact .nothing _
  | addRule name source templates =>
    rw [execIn]
    cases found : s.body? source with
    | none => exact .nothing _
    | some body => exact .addRule opened found name templates
  | addDefinition name source templates holding =>
    rw [execIn]
    cases found : s.body? source with
    | none => exact .nothing _
    | some body => exact .addDefinition opened found name templates holding
  | install rules => exact .install opened rules
  | lookup reference holding =>
    rw [execIn]
    cases found : s.definition? number reference with
    | none => exact .nothing _
    | some d => exact .lookup opened found holding
  | remove name holding =>
    rw [execIn]
    cases found : (s.registry number).lookup? name with
    | none => exact .nothing _
    | some d => exact .remove opened found holding
  | setTemplate reference negated template =>
    rw [execIn]
    cases found : s.definition? number reference with
    | none => exact .nothing _
    | some d => exact .setTemplate opened found negated template
  | evaluate reference value params handle => exact evaluate_effect opened reference value params handle
  | build name source =>
    rw [execIn]
    obtain ⟨own, v, -, same⟩ | ⟨e, same⟩ := s.build_cases number name source
    · have answer : (s.build number name source).1 = .built v := by rw [same]
      rw [same]
      exact .build opened answer
    · rw [same]
      exact .nothing _
  | validate name value =>
    rw [execIn]
    cases held : s.validators.lookup name with
    | none => exact .nothing _
    | some v => exact .validate held value
  | validateWith name value label =>
    rw [execIn]
    cases held : s.validators.lookup name with
    | none => exact .nothing _
    | some v => exact .validateWith held value label
  | validateAsync name value future =>
    rw [execIn]
    cases held : s.validators.lookup name with
    | none => exact .nothing _
    | some v => exact .validateAsync held value future
  | poll future =>
    rw [execIn]
    cases held : s.futures.lookup future with
    | none => exact .nothing _
    | some call =>
      dsimp only
      cases ready : s.engine.outcome? call with
      | none => exact .nothing _
      | some result => exact .poll held ready
  | makeHandle => exact .makeHandle
  | settle handle answer => exact settle_effect handle answer
  | dropHandle handle =>
    cases handle with
    | unmade => exact .nothing _
    | numbered index =>
      simp only [execIn]
      cases s.handle? (.numbered index) with
      | none => exact .nothing _
      | some handle => exact .dropHandle index
  | isSettled handle | inspectHandle handle =>
    rw [execIn]
    cases s.handle? handle <;> exact .nothing _
  | inspectDefinition reference =>
    rw [execIn]
    cases s.definition? number reference <;> exact .nothing _
  | inspectValidator name =>
    rw [execIn]
    cases s.validators.lookup name <;> exact .nothing _

/-- **Every step** has one of these effects. -/
theorem exec_effect (s : Session) (step : Step) : s.Effect step (s.exec step).2 := by
  obtain ⟨within, command⟩ := step
  rw [exec]
  split
  next source same =>
    obtain rfl : command = .openRegistry source := same
    exact .openRegistry within source
  · cases opened : s.registryNumber? within with
    | none => exact .nothing _
    | some number => exact execIn_effect opened command

end Session
end Criteria
