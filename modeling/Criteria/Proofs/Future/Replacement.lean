import Criteria.Proofs.Snapshot.Change

/-!
# Futures change nothing

Futures and the labels of calls are names for the calls of a session: they say what a session lets see,
and nothing else that a step does depends on them. So a call whose outcome is kept as a future and one
whose completion is noted leave the same behind, also after the same further steps
(`Session.core_after`). A future stays until it is polled when it is ready, or its name is given to
another.
-/

namespace Criteria
set_option autoImplicit false

/-! ## What a step leaves behind -/

/-- Whether a command asks for a future or gives its name away. -/
def Command.Takes (future : String) : Command → Prop
  | .poll name => name = future
  | .validateAsync _ _ name => name = future
  | _ => False

namespace Session

variable {s t : Session}

/-- A session without its futures and labels. -/
def core (s : Session) : Session := { s with futures := [], labels := [] }

section

variable (s)

@[simp] theorem engine_core : s.core.engine = s.engine := rfl

@[simp] theorem validators_core : s.core.validators = s.validators := rfl

@[simp] theorem registry_core (number : Nat) : s.core.registry number = s.registry number := rfl

@[simp] theorem body?_core (source : BodySource) : s.core.body? source = s.body? source := rfl

@[simp] theorem definition?_core (number : Nat) (reference : DefinitionRef) :
    s.core.definition? number reference = s.definition? number reference := rfl

@[simp] theorem handle?_core (handle : HandleRef) : s.core.handle? handle = s.handle? handle := rfl

end

theorem core_hold (name : Option String) (d : Definition) :
    (s.hold name d).core = (s.core.hold name d).core := by
  cases name <;> rfl

theorem core_install (number : Nat) (rules : List StandardRule) : ∀ s : Session,
    (s.install number rules).core = (s.core.install number rules).core := by
  induction rules with
  | nil => exact fun _ => rfl
  | cons rule rest ih =>
    exact fun s => (ih (s.installRule number rule)).trans (ih (s.core.installRule number rule)).symm

theorem core_build (number : Nat) (name : String) (source : ClauseSource) :
    (s.build number name source).2.core = (s.core.build number name source).2.core := by
  simp only [build, engine_core, registry_core]
  split <;> rfl

/-- **What a command leaves behind** does not depend on futures and labels. -/
theorem core_execIn (number : Nat) (command : Command) :
    (s.execIn number command).2.core = (s.core.execIn number command).2.core := by
  cases command with
  | openRegistry | contains | names | inspectRegistry | unknown | makeHandle => rfl
  | addRule name body templates =>
    rw [execIn, execIn, body?_core]
    cases s.body? body <;> rfl
  | addDefinition name body templates hold =>
    rw [execIn, execIn, body?_core]
    cases s.body? body with
    | none => rfl
    | some body => exact core_hold hold _
  | install rules => exact core_install number rules s
  | lookup definition hold =>
    rw [execIn, execIn, definition?_core]
    cases s.definition? number definition with
    | none => rfl
    | some d => exact core_hold hold d
  | remove name hold =>
    rw [execIn, execIn, registry_core]
    cases (s.registry number).lookup? name with
    | none => rfl
    | some d => exact core_hold hold d
  | setTemplate definition negated template | inspectDefinition definition =>
    rw [execIn, execIn, definition?_core]
    cases s.definition? number definition <;> rfl
  | evaluate definition value params handle =>
    rw [execIn, execIn, definition?_core]
    cases s.definition? number definition with
    | none => rfl
    | some d =>
      cases handle with
      | none => rfl
      | some reference =>
        simp only [handle?_core]
        cases s.handle? reference <;> rfl
  | build name source => exact core_build number name source
  | validate validator value
  | validateWith validator value label
  | validateAsync validator value future
  | inspectValidator validator =>
    rw [execIn, execIn, validators_core]
    cases s.validators.lookup validator <;> rfl
  | poll future =>
    have stays : ∀ s : Session, (s.execIn number (.poll future)).2.core = s.core := by
      intro s
      rw [execIn]
      cases s.futures.lookup future with
      | none => rfl
      | some call =>
        dsimp only
        cases s.engine.outcome? call <;> rfl
    rw [stays, stays]
    rfl
  | settle handle answer | isSettled handle | inspectHandle handle =>
    rw [execIn, execIn, handle?_core]
    cases s.handle? handle <;> rfl
  | dropHandle handle =>
    cases handle with
    | unmade => rfl
    | numbered index =>
      simp only [execIn, handle?_core]
      cases s.handle? (.numbered index) <;> rfl

theorem core_openRegistry (name : String) (source : RegistrySource) :
    (s.openRegistry name source).2.core = (s.core.openRegistry name source).2.core := by
  cases source with
  | shared => rfl
  | fresh defaults extras => exact core_install _ _ _

theorem core_exec (step : Step) : (s.exec step).2.core = (s.core.exec step).2.core := by
  have same : s.core.registryNumber? step.registry = s.registryNumber? step.registry := rfl
  rw [exec, exec, same]
  split
  next source _ => exact core_openRegistry step.registry source
  · cases s.registryNumber? step.registry with
    | none => rfl
    | some number => exact core_execIn number step.command

/-- **Sessions that differ in futures and labels only** do so after the same steps. -/
theorem core_after (steps : List Step) : ∀ {s t : Session}, s.core = t.core →
    (s.after steps).core = (t.after steps).core := by
  induction steps with
  | nil => exact id
  | cons step rest ih =>
    intro s t same
    refine ih ?_
    rw [core_exec step, same, ← core_exec step]

/-! ## How long a future stays -/

theorem lookup_futures_exec {step : Step} {future : String} (untaken : ¬ step.command.Takes future) :
    (s.exec step).2.futures.lookup future = s.futures.lookup future := by
  cases kind : step.command.changes with
  | true => rw [(Managed.exec s kind).futures]
  | false =>
    have effect := s.exec_effect step
    generalize (s.exec step).2 = t at effect ⊢
    cases effect with
    | @validateAsync _ _ _ _ _ name =>
      have other : (future == name) = false := beq_eq_false_iff_ne.2 (Ne.symm untaken)
      show List.lookup future ((name, s.engine.calls.size) :: s.futures) = s.futures.lookup future
      rw [List.lookup_cons, other]
    | poll => exact lookup_filter_ne (Ne.symm untaken) s.futures
    | nothing | evaluate | evaluateWith | build | validate | validateWith | makeHandle | settle
    | dropHandle => rfl
    | _ => cases kind

/-- **A future stays under its name** as long as no step takes it. -/
theorem lookup_futures_after {future : String} {steps : List Step} : ∀ {s : Session},
    (∀ step ∈ steps, ¬ step.command.Takes future) →
      (s.after steps).futures.lookup future = s.futures.lookup future := by
  induction steps with
  | nil => exact fun _ => rfl
  | cons step rest ih =>
    intro s untaken
    exact (ih fun later mem => untaken later (List.mem_cons_of_mem _ mem)).trans
      (lookup_futures_exec (untaken step List.mem_cons_self))

end Session
end Criteria
