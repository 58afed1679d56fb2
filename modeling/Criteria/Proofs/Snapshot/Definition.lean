import Criteria.Proofs.Snapshot.Change

/-!
# Definitions and their numbers

A session knows a definition that is registered somewhere or held under a name. Every new definition gets
a number of its own, so definitions with the same number are the same, and one that comes to be known
later has a later number, whatever its name is. The templates of a definition change when a step edits
this very definition, and never otherwise (`Session.exec_evolves`).
-/

namespace Criteria
set_option autoImplicit false

namespace Session

variable {s t u : Session} {d : Definition}

/-- A definition is known that is registered in some registry or held under some name. -/
def Knows (s : Session) (d : Definition) : Prop :=
  (∃ number r, s.registries.get? number = some r ∧ d ∈ r.entries) ∨
    ∃ name, (name, d) ∈ s.definitions

/-- Known definitions have numbers of their own. -/
structure Numbered (s : Session) : Prop where
  bound : ∀ d, s.Knows d → d.id < s.engine.templates.size
  unique : ∀ d d', s.Knows d → s.Knows d' → d.id = d'.id → d = d'

/-- Whether a step edits a template of a definition. -/
def Edits (s : Session) (step : Step) (d : Definition) (negated : Bool) (template : Option String) :
    Prop :=
  ∃ number reference, s.registryNumber? step.registry = some number ∧
    step.command = .setTemplate reference negated template ∧ s.definition? number reference = some d

theorem knows_of_lookup? {number : Nat} {name : String}
    (found : (s.registry number).lookup? name = some d) : s.Knows d := by
  rw [registry] at found
  cases here : s.registries.get? number with
  | none =>
    rw [here] at found
    cases found
  | some r =>
    rw [here] at found
    exact .inl ⟨number, r, here, List.mem_of_find?_eq_some found⟩

theorem knows_of_definition? {number : Nat} {reference : DefinitionRef}
    (found : s.definition? number reference = some d) : s.Knows d := by
  cases reference with
  | held name => exact .inr ⟨name, mem_of_lookup found⟩
  | registered name => exact knows_of_lookup? found

/-- What a change of one registry makes known is in the changed registry. -/
theorem knows_updateRegistry (number : Nat) {change : Registry → Registry}
    (knows : Knows { s with registries := s.registries.update number change } d) :
    s.Knows d ∨ ∃ r, s.registries.get? number = some r ∧ d ∈ (change r).entries := by
  obtain ⟨n, r, found, mem⟩ | held := knows
  · rw [Store.get?_update] at found
    split at found
    next same =>
      obtain ⟨before, had, rfl⟩ := Option.map_eq_some_iff.1 found
      exact .inr ⟨before, same ▸ had, mem⟩
    · exact .inl (.inl ⟨n, r, found, mem⟩)
  · exact .inl (.inr held)

theorem knows_register {number : Nat} {d' : Definition} (knows : (s.register number d').Knows d) :
    s.Knows d ∨ d = d' := by
  obtain before | ⟨r, had, mem⟩ := knows_updateRegistry number knows
  · exact .inl before
  · rcases Registry.mem_insertEntry mem with new | before
    · exact .inr new
    · exact .inl (.inl ⟨number, r, had, before⟩)

theorem knows_hold {name : Option String} {d' : Definition} (knows : (s.hold name d').Knows d) :
    s.Knows d ∨ d = d' := by
  cases name with
  | none => exact .inl knows
  | some name =>
    obtain registered | ⟨other, mem⟩ := knows
    · exact .inl (.inl registered)
    · rcases List.mem_cons.1 mem with new | before
      · exact .inr (Prod.mk.inj new).2
      · exact .inl (.inr ⟨other, before⟩)

/-- Nothing comes to be known when what is known is held. -/
theorem knows_hold_known {name : Option String} {d' : Definition} (known : s.Knows d')
    (knows : (s.hold name d').Knows d) : s.Knows d :=
  (knows_hold knows).elim id fun same => same ▸ known

/-- Nothing comes to be known by a removal, also if what is removed is held. -/
theorem knows_remove {number : Nat} {name : String} {d' : Definition} {holding : Option String}
    (found : (s.registry number).lookup? name = some d')
    (knows : (({ s with registries := s.registries.update number fun r => r.erase name }.note
      (.removed number name)).hold holding d').Knows d) : s.Knows d := by
  obtain left | rfl := knows_hold knows
  · obtain before | ⟨r, had, mem⟩ := knows_updateRegistry number left
    · exact before
    · exact .inl ⟨number, r, had, (List.mem_filter.1 mem).1⟩
  · exact knows_of_lookup? found

/-- A new definition is all that comes to be known when it is registered and maybe held. -/
theorem knows_add {number : Nat} {name : String} {body : Body} {templates : Templates}
    {holding : Option String} (knows : (s.add number name body templates holding).Knows d) :
    s.Knows d ∨ d = (s.define name body templates).1 := by
  obtain registered | new := knows_hold knows
  · exact knows_register registered
  · exact .inr new

/-- Nothing is known of a registry that was just made. -/
theorem knows_open {names : List (String × Nat)}
    (knows : Knows { s with registries := s.registries.add .empty, registryNames := names } d) :
    s.Knows d := by
  obtain ⟨n, r, found, mem⟩ | held := knows
  · rw [Store.get?_add] at found
    split at found
    · cases found
      cases mem
    · exact .inl ⟨n, r, found, mem⟩
  · exact .inr held

/-- Nothing is known before the rules of the first registry. -/
theorem not_knows_bare (d : Definition) :
    ¬ Knows { Session.empty with registries := Store.empty.add .empty } d := by
  intro knows
  obtain ⟨n, r, found, -⟩ | ⟨name, mem⟩ := knows_open knows
  · cases found
  · cases mem

/-! ## How definitions evolve -/

/-- What is known later was known before or is new, and the templates of definitions are as before unless
they are touched. -/
structure Evolves (touched : Nat → Prop) (s t : Session) : Prop where
  size : s.engine.templates.size ≤ t.engine.templates.size
  known : ∀ d, t.Knows d → s.Knows d ∨ s.engine.templates.size ≤ d.id
  numbered : s.Numbered → t.Numbered
  words : ∀ id, id < s.engine.templates.size → ¬ touched id →
    t.engine.templatesOf id = s.engine.templatesOf id

namespace Evolves

variable {touched wider : Nat → Prop}

theorem trans (first : Evolves touched s t) (second : Evolves touched t u) :
    Evolves touched s u where
  size := Nat.le_trans first.size second.size
  known d knows := (second.known d knows).elim (first.known d) fun new =>
    .inr (Nat.le_trans first.size new)
  numbered before := second.numbered (first.numbered before)
  words id bound spared :=
    (second.words id (Nat.lt_of_lt_of_le bound first.size) spared).trans (first.words id bound spared)

theorem mono (h : Evolves touched s t) (sub : ∀ id, touched id → wider id) : Evolves wider s t :=
  { h with words := fun id bound spared => h.words id bound fun edited => spared (sub id edited) }

/-- No new definition. -/
theorem of_fewer (size : t.engine.templates.size = s.engine.templates.size)
    (words : ∀ id, id < s.engine.templates.size → ¬ touched id →
      t.engine.templatesOf id = s.engine.templatesOf id)
    (fewer : ∀ d, t.Knows d → s.Knows d) : Evolves touched s t where
  size := Nat.le_of_eq size.symm
  known d knows := .inl (fewer d knows)
  numbered before :=
    ⟨fun d knows => size ▸ before.bound d (fewer d knows), fun d d' knows knows' =>
      before.unique d d' (fewer d knows) (fewer d' knows')⟩
  words := words

/-- No new definition, and no edit. -/
theorem of_same (templates : t.engine.templates = s.engine.templates)
    (fewer : ∀ d, t.Knows d → s.Knows d) : Evolves touched s t :=
  of_fewer (congrArg Store.size templates) (fun id _ _ => Engine.templatesOf_congr templates id) fewer

theorem refl (s : Session) : Evolves touched s s := of_same rfl fun _ => id

/-- A new definition, which is registered and maybe held. -/
theorem add (s : Session) (number : Nat) (name : String) (body : Body) (templates : Templates)
    (holding : Option String) :
    Evolves touched s (s.add number name body templates holding) := by
  have engine : (s.add number name body templates holding).engine =
      ((s.define name body templates).2.register number (s.define name body templates).1).engine := by
    cases holding <;> rfl
  have size : (s.engine.define templates).templates.size = s.engine.templates.size + 1 :=
    Store.size_add _ _
  refine ⟨?_, fun d knows => ?_, fun before => ⟨fun d knows => ?_, fun d d' knows knows' same => ?_⟩,
    fun id bound _ => ?_⟩
  · rw [engine]
    exact Nat.le_trans (Nat.le_succ _) (Nat.le_of_eq size.symm)
  · obtain before | rfl := knows_add knows
    · exact .inl before
    · exact .inr (Nat.le_refl _)
  · rw [engine]
    refine Nat.lt_of_lt_of_eq ?_ size.symm
    obtain old | rfl := knows_add knows
    · exact Nat.lt_succ_of_lt (before.bound d old)
    · exact Nat.lt_succ_self _
  · obtain old | rfl := knows_add knows
    · obtain old' | rfl := knows_add knows'
      · exact before.unique d d' old old' same
      · exact absurd (before.bound d old) (Nat.not_lt_of_le (Nat.le_of_eq same.symm))
    · obtain old' | rfl := knows_add knows'
      · exact absurd (before.bound d' old') (Nat.not_lt_of_le (Nat.le_of_eq same))
      · rfl
  · have differs : id ≠ s.engine.templates.size := Nat.ne_of_lt bound
    rw [engine]
    show ((s.engine.templates.add templates).get? id).getD _ = _
    rw [Store.get?_add, if_neg differs]
    rfl

theorem install (number : Nat) (rules : List StandardRule) : ∀ s : Session,
    Evolves touched s (s.install number rules) := by
  induction rules with
  | nil => exact refl
  | cons rule rest ih =>
    exact fun s => (add s number rule.name rule.body rule.templates none).trans (ih _)

theorem openRegistry (s : Session) (name : String) (source : RegistrySource) :
    Evolves touched s (s.openRegistry name source).2 := by
  cases source with
  | shared => exact of_same rfl fun _ => id
  | fresh defaults extras =>
    have opened : Evolves touched s { s with
        registries := s.registries.add .empty
        registryNames := (name, s.registries.size) :: s.registryNames } :=
      of_same rfl fun _ => knows_open
    exact opened.trans (install s.registries.size (startRules defaults extras) _)

/-- Work on registries and definitions touches what it edits. -/
theorem effect {step : Step} (effect : s.Effect step t) (changes : step.command.changes = true)
    (touches : ∀ d negated template, s.Edits step d negated template → touched d.id) :
    Evolves touched s t := by
  cases effect with
  | nothing => exact refl s
  | openRegistry name source => exact openRegistry s name source
  | addRule _ _ name templates => exact add s _ name _ templates none
  | addDefinition _ _ name templates holding => exact add s _ name _ templates holding
  | install _ rules => exact install _ rules s
  | lookup _ found holding =>
    refine of_same ?_ fun _ => knows_hold_known (knows_of_definition? found)
    cases holding <;> rfl
  | remove _ found holding =>
    refine of_same ?_ fun _ => knows_remove found
    cases holding <;> rfl
  | @setTemplate _ number reference d opened found negated template =>
    refine of_fewer (Store.size_update _ _ _) (fun id _ spared => ?_) fun _ => id
    have other : d.id ≠ id := by
      rintro rfl
      exact spared (touches d negated template ⟨number, reference, opened, rfl, found⟩)
    show ((s.engine.templates.update d.id _).get? id).getD _ = _
    rw [Store.get?_update, if_neg other]
    rfl
  | _ => cases changes

end Evolves

/-- A move that edits no templates leaves them as they are. -/
theorem templates_of_moved (h : s.Stands .empty) (moved : Moved s t) :
    t.engine.templates = s.engine.templates := by
  obtain same | ⟨m, valid, spares, same⟩ := moved.engine
  · rw [same]
  · obtain ⟨moves, all, reached⟩ := h.engine
    obtain ⟨layout, -, sound⟩ := sound_run all
    obtain ⟨_, steady⟩ := move_steady (reached ▸ sound) valid spares.uncut
    rw [same]
    exact steady.templates

/-- **A step changes the templates of definitions that it edits** and of no others. -/
theorem exec_evolves (h : s.Stands .empty) (step : Step) :
    Evolves (fun id => ∃ d negated template, s.Edits step d negated template ∧ d.id = id) s
      (s.exec step).2 := by
  cases kind : step.command.changes with
  | false =>
    have moved := Moved.exec h kind
    refine .of_same (templates_of_moved h moved) fun d knows => ?_
    rwa [Knows, moved.registries, moved.definitions] at knows
  | true =>
    exact .effect (s.exec_effect step) kind fun d negated template edits => ⟨d, negated, template, edits, rfl⟩

/-- An edit replaces the template of one polarity. -/
theorem templatesOf_of_edits {step : Step} {negated : Bool} {template : Option String}
    (edits : s.Edits step d negated template) (bound : d.id < s.engine.templates.size) :
    (s.exec step).2.engine.templatesOf d.id = (s.engine.templatesOf d.id).set negated template := by
  obtain ⟨number, reference, opened, command, found⟩ := edits
  obtain ⟨templates, here⟩ : ∃ templates, s.engine.templates.get? d.id = some templates :=
    ⟨_, List.getElem?_eq_getElem bound⟩
  have after : (s.exec step).2.engine = s.engine.setTemplate d.id negated template := by
    simp only [exec, command, opened, execIn, found]
  rw [after, Engine.templatesOf, Engine.templatesOf, Engine.setTemplate, Store.get?_update, if_pos rfl,
    here]
  rfl

/-- Definitions evolve step by step. -/
theorem after_evolves (steps : List Step) : ∀ {s : Session}, s.Stands .empty →
    Evolves (fun _ => True) s (s.after steps) := by
  induction steps with
  | nil => exact fun _ => .refl _
  | cons step rest ih =>
    exact fun h => ((exec_evolves h step).mono fun _ _ => trivial).trans (ih (h.exec step))

theorem numbered_fresh (name : String) (source : RegistrySource) (steps : List Step) :
    ((Session.fresh.openRegistry name source).2.after steps).Numbered := by
  have nothing : Numbered { Session.empty with registries := Store.empty.add .empty } :=
    ⟨fun d knows => (not_knows_bare d knows).elim, fun d _ knows => (not_knows_bare d knows).elim⟩
  have installs : Evolves (fun _ => True) { Session.empty with registries := Store.empty.add .empty } _ :=
    .install sharedRegistry StandardRule.defaults _
  have installed := installs.numbered nothing
  have fresh : Session.fresh.Numbered := ⟨installed.bound, installed.unique⟩
  have opens : Evolves (fun _ => True) Session.fresh _ := .openRegistry .fresh name source
  exact (after_evolves steps (stands_fresh.openRegistry name source)).numbered (opens.numbered fresh)

end Session
end Criteria
