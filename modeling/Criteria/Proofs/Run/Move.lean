import Criteria.Proofs.Run.Step

/-!
# Runs

A move is what can be done to an engine from outside: call a validator, settle or drop a kept handle,
make a handle, evaluate a rule body by itself, change templates, note an event of a registry. Each
move is a sequence of steps (`move_trace`), so whatever the steps keep holds in every state that moves
can reach from the empty engine.
-/

namespace Criteria
set_option autoImplicit false

/-- What can be done to an engine from outside. -/
inductive Move where
  | call (validator : Validator) (value : Json)
  /-- Settles the kept handle of the given number; does nothing if it is gone. -/
  | settle (index : Nat) (answer : Answer)
  | drop (index : Nat)
  /-- Makes a handle that nobody asks for, and keeps it. -/
  | make
  /-- Evaluates the body of a definition, with a kept handle or with one of its own. -/
  | evaluate (definition : Definition) (value : Json) (params : List Json) (handle : Option Nat)
  | define (templates : Templates)
  | setTemplate (definition : Nat) (negated : Bool) (template : Option String)
  | log (event : Event)

/-- Validators and rule bodies were built, and only events of registries are noted from outside. -/
def Move.Valid : Move → Prop
  | .call validator _ => validator.Built
  | .evaluate definition _ _ _ => definition.body.Built
  | .log event => event.Logged
  | _ => True

namespace Engine

/-- Makes a move. -/
def move (e : Engine) : Move → Engine
  | .call validator value => (e.call validator value).2
  | .settle index answer =>
    match e.parked? index with
    | some handle => (settle handle answer e).2
    | none => e
  | .drop index => e.dropParked index
  | .make => e.parkDetached
  | .evaluate definition value params none => (e.evaluateLoose definition value params none).2.2
  | .evaluate definition value params (some index) =>
    match e.parked? index with
    | some handle => (e.evaluateLoose definition value params (some handle)).2.2
    | none => e
  | .define templates => e.define templates
  | .setTemplate definition negated template => e.setTemplate definition negated template
  | .log event => e.note event

/-- Makes moves in order. -/
def run (e : Engine) (moves : List Move) : Engine := moves.foldl move e

theorem run_append (e : Engine) (moves more : List Move) :
    e.run (moves ++ more) = (e.run moves).run more := by
  rw [run, run, run, List.foldl_append]

end Engine

/-- Whether a move adds or changes templates. -/
def Move.Edits : Move → Prop
  | .define _ => True
  | .setTemplate _ _ _ => True
  | _ => False

/-- Whether a move evaluates rule bodies. -/
def Move.Evaluates : Move → Prop
  | .call _ _ => True
  | .evaluate _ _ _ _ => True
  | _ => False

/-- Any number of steps. -/
abbrev Trace : Layout × Engine → Layout × Engine → Prop := Relation.ReflTransGen RunStep

/-- A step that leaves all templates as they are. -/
def SteadyStep (s t : Layout × Engine) : Prop := RunStep s t ∧ t.2.templates = s.2.templates

/-- Any number of steps that leave all templates as they are. -/
abbrev Steady : Layout × Engine → Layout × Engine → Prop := Relation.ReflTransGen SteadyStep

theorem Steady.trace {s t : Layout × Engine} (steady : Steady s t) : Trace s t :=
  Relation.ReflTransGen.mono (fun _ _ => And.left) _ _ steady

variable {layout later : Layout} {active : Option Root} {e e' : Engine}

/-! ## What every step keeps -/

theorem EvalStep.grows (step : EvalStep layout active e e') : Grows (fun _ => True) e e' := by
  cases step with
  | @invoke p rule scripted value params =>
    exact (Grows.invoke e p rule scripted value params).mono fun _ _ => trivial
  | openList found mine inhabited closed above asked =>
    exact (openList_runs found mine inhabited closed above asked).grows.mono fun _ _ => trivial
  | settle _ _ answer => exact (settle_rests _ answer e).grows _
  | @pass p _ handle rule value params =>
    exact ((Grows.invoke e p rule false value params).mono fun _ _ => trivial).trans
      ((deliver_rests handle.route (.ok true) _).grows _)
  | park => exact (Rests.park e _).grows _
  | told rule report =>
    have rests : Rests e (e.note (.settledBy rule report)) := .note trivial trivial trivial
    exact rests.grows _

/-- What came before stays: the layout, the journal, the calls and what they returned. -/
structure Follows (layout later : Layout) (e e' : Engine) : Prop where
  layout : layout.Extends later
  journal : e.journal <:+ e'.journal
  calls : e.calls.size ≤ e'.calls.size
  returned : ∀ call answer, returned? call e.journal = some answer →
    returned? call e'.journal = some answer

namespace Follows

theorem refl (layout : Layout) (e : Engine) : Follows layout layout e e :=
  ⟨.refl layout, List.suffix_refl _, Nat.le_refl _, fun _ _ => id⟩

theorem trans {middle : Layout} {e'' : Engine} (first : Follows layout middle e e')
    (second : Follows middle later e' e'') : Follows layout later e e'' :=
  ⟨first.layout.trans second.layout, first.journal.trans second.journal,
    Nat.le_trans first.calls second.calls,
    fun call answer found => second.returned call answer (first.returned call answer found)⟩

end Follows

theorem RunStep.follows (step : RunStep (layout, e) (later, e')) (h : Sound layout e) :
    Follows layout later e e' := by
  cases step with
  | eval _ step =>
    have grows := step.grows
    refine ⟨.refl layout, grows.journal.suffix, Nat.le_of_eq grows.calls.symm, ?_⟩
    intro call answer found
    rw [grows.journal.returned?, found]
  | enter wf inhabited value =>
    refine ⟨Layout.extends_extend h.new_call _, List.suffix_refl _, ?_, fun _ _ => id⟩
    rw [Engine.enter, Store.size_add]
    exact Nat.le_succ _
  | accept value =>
    have grows := complete_rests (e.enter value) e.calls.size (.ok true)
    refine ⟨Layout.extends_extend h.new_call _, grows.journal.suffix, ?_, ?_⟩
    · rw [grows.calls, Engine.enter, Store.size_add]
      exact Nat.le_succ _
    · intro call answer found
      rw [grows.journal.returned?]
      exact found
  | @leave _ _ call o found pending =>
    refine ⟨.refl layout, List.suffix_cons _ _, ?_, ?_⟩
    · exact Nat.le_of_eq (Store.size_update _ _ _).symm
    · intro id answer returned
      have other : call ≠ id := by
        rintro rfl
        rw [pending] at returned
        cases returned
      rw [← returned]
      exact returned?_cons_of_other (by simpa [Event.call?] using other) _
  | loosen => exact ⟨.refl layout, List.suffix_refl _, Nat.le_refl _, fun _ _ => id⟩
  | lend wf value lends kept =>
    exact ⟨Layout.extends_extend h.new_loose _, List.suffix_refl _, Nat.le_refl _, fun _ _ => id⟩
  | drop index => exact ⟨.refl layout, List.suffix_refl _, Nat.le_refl _, fun _ _ => id⟩
  | define templates => exact ⟨.refl layout, List.suffix_refl _, Nat.le_refl _, fun _ _ => id⟩
  | setTemplate definition negated template =>
    exact ⟨.refl layout, List.suffix_refl _, Nat.le_refl _, fun _ _ => id⟩
  | log logged =>
    refine ⟨.refl layout, List.suffix_cons _ _, Nat.le_refl _, fun call answer found => ?_⟩
    rw [← found]
    exact returned?_cons_of_other (logged.silent.other call) _

/-- **Every run keeps engines sound, and whatever came before stays.** -/
theorem Trace.sound_follows {start finish : Layout × Engine} (trace : Trace start finish)
    (h : Sound start.1 start.2) :
    Sound finish.1 finish.2 ∧ Follows start.1 finish.1 start.2 finish.2 := by
  induction trace with
  | refl => exact ⟨h, .refl _ _⟩
  | @tail middle finish _ step ih =>
    obtain ⟨sound, follows⟩ := ih
    obtain ⟨layout, e⟩ := middle
    obtain ⟨later, e'⟩ := finish
    exact ⟨step.sound sound, follows.trans (step.follows sound)⟩

theorem Trace.sound (trace : Trace (layout, e) (later, e')) (h : Sound layout e) : Sound later e' :=
  (Trace.sound_follows trace h).1

theorem Trace.follows (trace : Trace (layout, e) (later, e')) (h : Sound layout e) :
    Follows layout later e e' :=
  (Trace.sound_follows trace h).2

/-- Evaluation that goes on while no call returns. -/
theorem Runs.steady {region : Place → Prop} (runs : Runs layout active region e e')
    (live : ∀ call, active = some (.call call) → returned? call e.journal = none) :
    Steady (layout, e) (layout, e') := by
  obtain ⟨steps, -⟩ := runs
  have steady : Steady (layout, e) (layout, e') ∧
      ∀ call, active = some (.call call) → returned? call e'.journal = none := by
    induction steps with
    | refl => exact ⟨.refl, live⟩
    | tail _ step ih =>
      refine ⟨ih.1.tail ⟨.eval ih.2 step, step.grows.templates⟩, fun call same => ?_⟩
      rw [step.grows.journal.returned?]
      exact ih.2 call same
  exact steady.1

end Criteria
