import Criteria.Proofs.Run.Reach
import Criteria.Proofs.Run.Session

/-!
# What a step does to the engine

Steps that open registries, register, hold and remove definitions or edit templates leave calls, handles
and validators alone: all that they do to the engine is to define templates, to edit them and to log
(`Managed.exec`). Every other step makes at most one move, which edits no templates and logs nothing of
registries, and keeps registries and definitions (`Moved.exec`).
-/

namespace Criteria
set_option autoImplicit false

/-- Whether a move defines templates, edits them or logs. -/
def Move.Manages : Move → Prop
  | .define _ | .setTemplate _ _ _ | .log _ => True
  | _ => False

namespace Engine

/-- Whether one engine comes from another by defining templates, editing them and logging. -/
def Manages (e e' : Engine) : Prop :=
  ∃ moves, (∀ m ∈ moves, m.Valid ∧ m.Manages) ∧ e' = e.run moves

theorem Manages.refl (e : Engine) : e.Manages e := ⟨[], by simp, rfl⟩

theorem Manages.trans {e e' e'' : Engine} (first : e.Manages e') (second : e'.Manages e'') :
    e.Manages e'' := by
  obtain ⟨moves, all, rfl⟩ := first
  obtain ⟨more, rest, rfl⟩ := second
  refine ⟨moves ++ more, fun m mem => ?_, (e.run_append moves more).symm⟩
  exact (List.mem_append.1 mem).elim (all m) (rest m)

theorem Manages.move (e : Engine) {m : Move} (valid : m.Valid) (manages : m.Manages) :
    e.Manages (e.move m) :=
  ⟨[m], fun _ mem => List.mem_singleton.1 mem ▸ ⟨valid, manages⟩, rfl⟩

end Engine

/-- Whether a command works on registries and definitions only. -/
def Command.changes : Command → Bool
  | .openRegistry _ | .addRule _ _ _ | .addDefinition _ _ _ _ | .install _ | .lookup _ _ | .remove _ _
  | .setTemplate _ _ _ | .contains _ | .names | .inspectRegistry | .inspectDefinition _ | .unknown =>
    true
  | _ => false

/-- One session comes from another by work on registries and definitions. -/
structure Managed (s t : Session) : Prop where
  engine : s.engine.Manages t.engine
  names : ∀ name, s.registryNumber? name ≠ none → t.registryNumber? name ≠ none
  validators : t.validators = s.validators
  futures : t.futures = s.futures
  labels : t.labels = s.labels

namespace Managed

variable {s t u : Session}

theorem refl (s : Session) : Managed s s := ⟨.refl s.engine, fun _ => id, rfl, rfl, rfl⟩

theorem trans (first : Managed s t) (second : Managed t u) : Managed s u where
  engine := first.engine.trans second.engine
  names name opened := second.names name (first.names name opened)
  validators := second.validators.trans first.validators
  futures := second.futures.trans first.futures
  labels := second.labels.trans first.labels

/-- A change of the registries, after which an event is logged. -/
theorem log (s : Session) (registries : Store Registry) {event : Event} (logged : event.Logged) :
    Managed s ({ s with registries }.note event) :=
  { refl s with engine := .move s.engine (m := .log event) logged trivial }

theorem define (s : Session) (name : String) (body : Body) (templates : Templates) :
    Managed s (s.define name body templates).2 :=
  { refl s with engine := .move s.engine (m := .define templates) trivial trivial }

theorem register (s : Session) (number : Nat) (d : Definition) : Managed s (s.register number d) :=
  log s _ trivial

theorem hold (s : Session) (name : Option String) (d : Definition) : Managed s (s.hold name d) := by
  cases name with
  | none => exact refl s
  | some name => exact { refl s with }

theorem install (number : Nat) (rules : List StandardRule) : ∀ s : Session,
    Managed s (s.install number rules) := by
  induction rules with
  | nil => exact refl
  | cons rule rest ih =>
    intro s
    have defined := define s rule.name rule.body rule.templates
    exact (defined.trans (register _ number _)).trans (ih (s.installRule number rule))

theorem named (s : Session) (name : String) (number : Nat) (registries : Store Registry) :
    Managed s { s with registries, registryNames := (name, number) :: s.registryNames } := by
  refine { refl s with names := fun other opened => ?_ }
  rw [Session.registryNumber?, List.lookup_cons]
  split
  · exact Option.some_ne_none number
  · exact opened

theorem openRegistry (s : Session) (name : String) (source : RegistrySource) :
    Managed s (s.openRegistry name source).2 := by
  cases source with
  | shared => exact named s name _ s.registries
  | fresh defaults extras => exact (named s name _ _).trans (install _ _ _)

theorem add (s : Session) (number : Nat) (name : String) (body : Body) (templates : Templates)
    (holding : Option String) : Managed s (s.add number name body templates holding) :=
  ((define s name body templates).trans (register _ number _)).trans (hold _ holding _)

/-- **Commands that work on registries and definitions** do nothing else. -/
theorem effect {step : Step} (effect : s.Effect step t) (changes : step.command.changes = true) :
    Managed s t := by
  cases effect with
  | nothing => exact refl s
  | openRegistry name source => exact openRegistry s name source
  | addRule _ _ name templates => exact add s _ name _ templates none
  | addDefinition _ _ name templates holding => exact add s _ name _ templates holding
  | install _ rules => exact install _ rules s
  | @lookup _ _ _ d _ _ holding => exact hold s holding d
  | @remove _ name number d _ _ holding =>
    have removed : (Event.removed number name).Logged := trivial
    exact (log s _ removed).trans (hold _ holding d)
  | @setTemplate _ _ _ d _ _ negated template =>
    exact { refl s with
      engine := .move s.engine (m := .setTemplate d.id negated template) trivial trivial }
  | _ => cases changes

theorem exec (s : Session) {step : Step} (changes : step.command.changes = true) :
    Managed s (s.exec step).2 :=
  effect (s.exec_effect step) changes

end Managed

/-! ## Every other step -/

/-- Whether a move leaves templates alone and logs nothing of registries. -/
def Move.Spares : Move → Prop
  | .define _ | .setTemplate _ _ _ | .log (.registered _ _ _) | .log (.removed _ _) => False
  | _ => True

theorem Move.Spares.uncut {m : Move} (spares : m.Spares) : ¬ m.Edits := by
  cases m with
  | define | setTemplate => exact spares.elim
  | _ => exact id

/-- One session comes from another by at most one move, which spares templates and registries, and keeps
its registries and definitions. -/
structure Moved (s t : Session) : Prop where
  engine : t.engine = s.engine ∨ ∃ m : Move, m.Valid ∧ m.Spares ∧ t.engine = s.engine.move m
  registries : t.registries = s.registries
  names : t.registryNames = s.registryNames
  definitions : t.definitions = s.definitions

namespace Moved

variable {start : Engine} {s : Session}

theorem refl (s : Session) : Moved s s := ⟨.inl rfl, rfl, rfl, rfl⟩

/-- A move, whatever else is kept of a call. -/
theorem move (s : Session) (m : Move) (valid : m.Valid) (spares : m.Spares)
    (futures : List (String × Nat)) (labels : List (Nat × Json)) :
    Moved s { s with engine := s.engine.move m, futures, labels } :=
  ⟨.inr ⟨m, valid, spares, rfl⟩, rfl, rfl, rfl⟩

/-- **Commands that do not work on registries and definitions** make at most one move. -/
theorem effect {t : Session} (h : s.Stands start) {step : Step} (effect : s.Effect step t)
    (other : step.command.changes = false) : Moved s t := by
  cases effect with
  | nothing => exact refl s
  | @evaluate _ _ _ d _ found value params =>
    exact move s (.evaluate d value params none) (h.definition? found) trivial _ _
  | @evaluateWith _ _ _ d _ found value params index =>
    exact move s (.evaluate d value params (some index)) (h.definition? found) trivial _ _
  | @build _ _ _ _ v => exact ⟨.inr ⟨.log (.built v.size), trivial, trivial, rfl⟩, rfl, rfl, rfl⟩
  | @validate _ _ v held value | @validateWith _ _ v held value | @validateAsync _ _ v held value =>
    exact move s (.call v value) (h.lookup_validators held) trivial _ _
  | poll => exact { refl s with }
  | makeHandle => exact move s .make trivial trivial _ _
  | settle index answer => exact move s (.settle index answer) trivial trivial _ _
  | dropHandle index => exact move s (.drop index) trivial trivial _ _
  | _ => cases other

theorem exec (h : s.Stands start) {step : Step} (other : step.command.changes = false) :
    Moved s (s.exec step).2 :=
  effect h (s.exec_effect step) other

end Moved
end Criteria
