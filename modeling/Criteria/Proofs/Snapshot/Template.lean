import Criteria.Proofs.Journal.Invocation
import Criteria.Proofs.Snapshot.Capture
import Criteria.Proofs.Snapshot.Definition
import Criteria.Proofs.Snapshot.Moment
import Criteria.Proofs.Snapshot.Use

/-!
# Built validators and what changes afterwards

A built validator is a snapshot of the rules that its clauses name: whatever is registered, replaced,
removed or edited later, its calls invoke the same bodies with the same parameters and come to the same
verdicts. It is no snapshot of their templates: a failure is put in the words that the captured
definition has when the step begins in which the answer is judged (`validators_capture_rules`).
-/

namespace Criteria
set_option autoImplicit false

variable {e s : Engine}

/-! ## Invocations that are seen -/

/-- All invocations stand at some place. -/
theorem invocations_history (e : Engine) : invocations (e.history Root.all) = invocations e.journal := by
  rw [invocations, invocations, Engine.history, ← List.filter_reverse, List.filterMap_filter]
  refine List.filterMap_congr fun event _ => ?_
  cases event <;> rfl

/-- A view hides nothing of an invocation. -/
theorem invocations_view (view : View) (journal : Journal) :
    invocations (journal.map view.event) = invocations journal := by
  rw [invocations, invocations, ← List.map_reverse, List.filterMap_map]
  refine List.filterMap_congr fun event _ => ?_
  cases event <;> rfl

/-- Alike engines have invoked the same bodies in the same order. -/
theorem Engine.Alike.invocations (h : e.Alike s) :
    invocations e.journal = invocations s.journal := by
  rw [← invocations_history, ← invocations_view .wordless, h.history, invocations_view,
    invocations_history]

/-! ## Building and calling in a session -/

/-- Whether a command calls the validator of the given name. -/
def Command.Calls (validator : String) (value : Json) : Command → Prop
  | .validate name tested | .validateWith name tested _ | .validateAsync name tested _ =>
    name = validator ∧ tested = value
  | _ => False

namespace Session

variable {s t : Session} {v : Validator}

/-- A step that builds a validator builds it in the registry of the step, as old as there are
definitions, and gives it its name. -/
theorem build_of_exec {within name : String} {clauses : ClauseSource}
    (built : (s.exec ⟨within, .build name clauses⟩).1 = .built v) :
    ∃ number own, s.registryNumber? within = some number ∧
      Validator.build s.engine.templates.size (s.registry number) own = .ok v ∧
      (s.exec ⟨within, .build name clauses⟩).2 =
        { s with validators := (name, v) :: s.validators }.note (.built v.size) := by
  rw [exec] at built ⊢
  cases opened : s.registryNumber? within with
  | none =>
    rw [opened] at built
    cases built
  | some number =>
    rw [opened] at built
    obtain ⟨⟨own, done⟩, after⟩ := build_of_answer built
    exact ⟨number, own, rfl, done, after⟩

/-- What a built validator holds was resolved in the registry of the step that built it. -/
theorem exec_build {within name : String} {clauses : ClauseSource}
    (built : (s.exec ⟨within, .build name clauses⟩).1 = .built v) :
    ∃ number own, s.registryNumber? within = some number ∧
      Clause.resolveAll (s.registry number) own = .ok v.checks ∧
      (s.exec ⟨within, .build name clauses⟩).2 =
        { s with validators := (name, v) :: s.validators }.note (.built v.size) := by
  obtain ⟨number, own, opened, done, after⟩ := build_of_exec built
  exact ⟨number, own, opened, (Validator.build_eq_ok.1 done).1, after⟩

/-- A step that calls a validator does to the engine what the call does. -/
theorem engine_exec_of_calls {step : Step} {holder : String} {value : Json}
    (opened : s.registryNumber? step.registry ≠ none) (held : s.validators.lookup holder = some v)
    (calls : step.command.Calls holder value) :
    (s.exec step).2.engine = (s.engine.call v value).2 := by
  obtain ⟨registry, command⟩ := step
  obtain ⟨number, named⟩ := Option.ne_none_iff_exists'.1 opened
  have named : s.registryNumber? registry = some number := named
  cases command with
  | validate name tested | validateWith name tested _ | validateAsync name tested _ =>
    obtain ⟨rfl, rfl⟩ := calls
    simp only [exec, execIn, named, held]
    rfl
  | _ => exact calls.elim

/-- A call and what follows: every judgement is of a question of the layout with this call, by the
templates of the moment. -/
theorem call_spans {layout : Layout} (h : s.Stands .empty) (sound : Sound layout s.engine) {step : Step}
    {value : Json} (built : v.Built) (calls : (s.exec step).2.engine = (s.engine.call v value).2)
    (later : List Step) : ∃ last, Spans layout last s (step :: later) ∧
      last (.call s.engine.calls.size) = some (.ofCall s.engine.calls.size v.checks value) := by
  obtain ⟨before, steady, -⟩ := call_made sound built.wellFormed value
  rw [← calls] at steady
  have after := Trace.sound steady.trace sound
  obtain ⟨last, further⟩ := after_spans later (h.exec step) after
  have follows := Trace.follows further.trace after
  exact ⟨last, .cons (.single steady.trace (steady.worded sound).journal) further sound,
    follows.layout _ _ (layout.withCall_self _ _ _)⟩

end Session

/-- The failure of a rule clause has the words of the given templates. -/
theorem Question.message_of_judge {q : Question} {templates : Templates} {answer : Answer}
    {f : Failure} (judged : q.judge templates answer = .error f) :
    f.message = match templates.ofPolarity q.negated with
      | some template => Message.render ⟨q.value, q.params, q.negated⟩ template
      | none => Message.generic q.rule := by
  cases answer with
  | ok holds =>
    rw [judge] at judged
    split at judged
    · obtain rfl := Except.error.inj judged
      rfl
    · cases judged
  | error cause =>
    obtain rfl := Except.error.inj judged
    rfl

/-! ## The templates of captured definitions -/

namespace Session

variable {s : Session} {steps : List Step} {d : Definition}

/-- A definition that is known when steps begin is the only one of its number ever after. -/
theorem known_of_number (h : s.Stands .empty) (numbered : s.Numbered) (knows : s.Knows d)
    {other : Definition} (later : (s.after steps).Knows other) (same : other.id = d.id) : other = d := by
  obtain before | new := (after_evolves steps h).known other later
  · exact numbered.unique other d before knows same
  · have bound := numbered.bound d knows
    omega

/-- The templates of a definition that was known when steps began change with the next step just if it
edits them. -/
theorem templatesOf_exec (h : s.Stands .empty) (numbered : s.Numbered) (knows : s.Knows d)
    (step : Step) :
    (∀ polarity template, (s.after steps).Edits step d polarity template →
      ((s.after steps).exec step).2.engine.templatesOf d.id =
        ((s.after steps).engine.templatesOf d.id).set polarity template) ∧
    ((∀ polarity template, ¬ (s.after steps).Edits step d polarity template) →
      ((s.after steps).exec step).2.engine.templatesOf d.id =
        (s.after steps).engine.templatesOf d.id) := by
  have bound : d.id < (s.after steps).engine.templates.size :=
    Nat.lt_of_lt_of_le (numbered.bound d knows) (after_evolves steps h).size
  refine ⟨fun polarity template edits => templatesOf_of_edits edits bound, fun spared => ?_⟩
  refine (exec_evolves (h.after steps) step).words d.id bound ?_
  rintro ⟨other, polarity, template, edits, same⟩
  obtain ⟨number, reference, opened, command, found⟩ := edits
  obtain rfl := known_of_number h numbered knows (knows_of_definition? found) same
  exact spared polarity template ⟨number, reference, opened, command, found⟩

end Session

/-! ## The words of leaves -/

namespace Session

variable {s : Session} {v : Validator}

/-- A leaf of the failure of a clause of a called validator has the words that the definition of its rule
clause has when the step begins in which it is judged. -/
theorem leaf_message (h : s.Stands .empty) {step : Step} {value : Json} (built : v.Built)
    (calls : (s.exec step).2.engine = (s.engine.call v value).2) (later : List Step) {i : Nat}
    {f leaf : Failure}
    (failed : v.outcome? s.engine.calls.size value i ((s.exec step).2.after later).engine.journal =
      some (.error f)) (mem : leaf ∈ f.flatten) (named : leaf.rule ≠ none) :
    ∃ path definition rule body negated params answer before moment,
      v.ownClause? path = some (.rule definition rule body negated params) ∧
      s.Noted (step :: later) (.judged ⟨.call s.engine.calls.size, path⟩ answer (.error leaf)) before
        moment ∧
      leaf.message = match (moment.engine.templatesOf definition).ofPolarity negated with
        | some template => Message.render ⟨value, params, negated⟩ template
        | none => Message.generic rule := by
  obtain ⟨moves, valid, reached⟩ := h.engine
  obtain ⟨layout, -, sound⟩ := sound_run valid
  rw [reached] at sound
  obtain ⟨last, spans, root⟩ := call_spans h sound built calls later
  have placed := (Trace.sound spans.trace sound).toPlaced
  obtain ⟨path, definition, rule, body, negated, params, answer, found, judged⟩ :=
    Validator.leaf_judged placed.flat failed mem named
  obtain ⟨front, before, split⟩ := List.append_of_mem judged
  have behind : .judged ⟨.call s.engine.calls.size, path⟩ answer (.error leaf) :: before <:+
      (s.after (step :: later)).engine.journal := ⟨front, split.symm⟩
  have ahead : s.engine.journal <:+ before := by
    rcases suffix_cases behind (Trace.follows spans.trace sound).journal with inside | outside
    · exact inside
    · exact absurd (outside.subset List.mem_cons_self)
        (sound.unjudged sound.new_call ⟨.call s.engine.calls.size, path⟩ answer _ rfl)
  obtain ⟨question, onward, moment, handed, noted, words⟩ := spans.judged _ _ _ _ behind ahead
  obtain ⟨_, asked⟩ :=
    Validator.handle?_of_clauseAt? root (Validator.clauseAt?_of_ownClause? found)
  cases handed.symm.trans asked
  exact ⟨path, definition, rule, body, negated, params, answer, before, moment, found, noted,
    Question.message_of_judge words.symm⟩

end Session

open Session in
/-- **Built validators capture rules and not templates.** Take any session that has just built a validator.
Whatever rules are registered, replaced and removed and whatever templates are edited from then on, in any
registry, between calls and settlements: the same bodies are invoked with the same values and parameters,
in the same order, as without all these changes, and calls, settlements and futures come to the same but
for messages. Each rule clause of the validator holds the definition that was registered under its name
when it was built, and the templates of this definition change just with the steps that edit this very
definition, however it is meant, and never with an edit of another one, whatever its name is. A leaf of
the failure of a clause has the words of the templates that this definition has when the step begins in
which the answer is judged. -/
theorem validators_capture_rules (home : String) (source : RegistrySource) (earlier : List Step)
    {within name : String} {clauses : ClauseSource} {v : Validator}
    (built : (((Session.fresh.openRegistry home source).2.after earlier).exec
      ⟨within, .build name clauses⟩).1 = .built v) :
    let s := (Session.fresh.openRegistry home source).2.after earlier
    let next := (s.exec ⟨within, .build name clauses⟩).2
    ∃ number, s.registryNumber? within = some number ∧
    (∀ steps, (∀ step ∈ steps, step.command.changes = true ∨
        step.command.uses = true ∧ next.registryNumber? step.registry ≠ none) →
      let changed := next.after steps
      let unchanged := next.after (steps.filter fun step => step.command.uses)
      changed.validators.lookup name = some v ∧ unchanged.validators.lookup name = some v ∧
      invocations changed.engine.journal = invocations unchanged.engine.journal ∧
      (∀ call, (changed.engine.outcome? call).map View.wordless.result =
        (unchanged.engine.outcome? call).map View.wordless.result) ∧
      ∀ step, step.command.uses = true → next.registryNumber? step.registry ≠ none →
        View.wordless.response (changed.exec step).1 = View.wordless.response (unchanged.exec step).1) ∧
    (∀ path definition rule body negated params,
      v.ownClause? path = some (.rule definition rule body negated params) →
      let captured : Definition := ⟨definition, rule, body⟩
      (s.registry number).lookup? rule = some captured ∧
      ∀ steps,
        (∀ other, (next.after steps).Knows other → other.id = definition → other = captured) ∧
        ∀ step,
          (∀ polarity template, (next.after steps).Edits step captured polarity template →
            ((next.after steps).exec step).2.engine.templatesOf definition =
              ((next.after steps).engine.templatesOf definition).set polarity template) ∧
          ((∀ polarity template, ¬ (next.after steps).Edits step captured polarity template) →
            ((next.after steps).exec step).2.engine.templatesOf definition =
              (next.after steps).engine.templatesOf definition)) ∧
    ∀ middle step holder value later,
      let t := next.after middle
      t.registryNumber? step.registry ≠ none → t.validators.lookup holder = some v →
      step.command.Calls holder value →
      ∀ i f leaf, v.outcome? t.engine.calls.size value i ((t.exec step).2.after later).engine.journal =
          some (.error f) → leaf ∈ f.flatten → leaf.rule ≠ none →
        ∃ path definition rule body negated params answer before moment,
          v.ownClause? path = some (.rule definition rule body negated params) ∧
          t.Noted (step :: later) (.judged ⟨.call t.engine.calls.size, path⟩ answer (.error leaf)) before
            moment ∧
          leaf.message = match (moment.engine.templatesOf definition).ofPolarity negated with
            | some template => Message.render ⟨value, params, negated⟩ template
            | none => Message.generic rule := by
  intro s next
  have stands : s.Stands .empty := reached_after home source earlier
  have numbered : s.Numbered := numbered_fresh home source earlier
  have stands' : next.Stands .empty := stands.exec _
  obtain ⟨number, own, opened, resolved, after⟩ := exec_build built
  have after : next = _ := after
  have named : next.validators.lookup name = some v := by
    rw [after]
    exact List.lookup_cons_self
  refine ⟨number, opened, fun steps kinds => ?_, fun path definition rule body negated params found => ?_,
    fun middle step holder value later open_now held calls i f leaf => ?_⟩
  · obtain ⟨moves, valid, reached⟩ := stands'.engine
    obtain ⟨layout, -, sound⟩ := sound_run valid
    rw [reached] at sound
    have start : next.Alike next := ⟨sound.alike_refl, fun _ => id, rfl, rfl, rfl⟩
    have alike := after_alike start kinds
    have kept : (next.after steps).validators = next.validators :=
      validators_after fun step mem => (kinds step mem).imp_right And.left
    refine ⟨?_, ?_, alike.engine.invocations, alike.engine.outcome?, fun step uses opened => ?_⟩
    · rw [kept]
      exact named
    · rw [← alike.validators, kept]
      exact named
    · refine (alike.exec uses ?_).1
      have uses_only : ∀ step ∈ steps.filter fun step => step.command.uses,
          step.command.uses = true := fun step mem => (List.mem_filter.1 mem).2
      rwa [registryNumber?, registryNames_after uses_only]
  · have captured := Validator.captured_of_ownClause? resolved found
    have knows : s.Knows ⟨definition, rule, body⟩ := knows_of_lookup? captured
    refine ⟨captured, fun steps => ?_⟩
    have whole : s.after (⟨within, .build name clauses⟩ :: steps) = next.after steps := rfl
    rw [← whole]
    exact ⟨fun other later same => known_of_number stands numbered knows later same,
      fun step => templatesOf_exec stands numbered knows step⟩
  · have standing := stands'.after middle
    exact leaf_message standing (standing.lookup_validators held)
      (engine_exec_of_calls open_now held calls) later

/-! ## A definition that is removed and reworded -/

/-- A rule that waits is defined and held. -/
def Step.defining : Step :=
  ⟨"main", .addDefinition "waiting" (.script [.park] .later) ⟨some "early", none⟩ (some "held")⟩

/-- A validator is built of the one clause that names this rule. -/
def Step.building : Step := ⟨"main", .build "v" (.clauses [.rule "waiting" false []])⟩

/-- This validator. -/
def Validator.held : Validator :=
  ⟨11, [.rule 10 "waiting" (.scripted (BodySource.scriptPlan [.park] .later)) false []]⟩

/-- The rule is removed, and another one gets its name and is edited. -/
def Step.replacing : List Step :=
  [⟨"main", .remove "waiting" none⟩, ⟨"main", .addRule "waiting" (.standard "defined") ⟨none, none⟩⟩,
    ⟨"main", .setTemplate (.registered "waiting") false (some "other")⟩]

/-- The template of the removed rule is cleared. -/
def Step.rewording : Step := ⟨"main", .setTemplate (.held "held") false none⟩

/-- The validator is called, its rule is replaced and reworded, and then its handle is settled. -/
def Step.calling : Step := ⟨"main", .validate "v" .null⟩
def Step.settling : List Step :=
  Step.replacing ++ [Step.rewording, ⟨"main", .settle (.numbered 0) (.ok false)⟩]

/-- A removed rule is reworded for the validator that has captured it, and not by an edit of its successor;
the failure of a call that waits meanwhile gets the words of the moment of the settlement. -/
theorem validators_capture_rules_reworded :
    let s := (Session.fresh.openRegistry "main" (.fresh false false)).2.after [Step.defining]
    let next := (s.exec Step.building).2
    let leaf := Question.failure ⟨10, "waiting", false, [], .null⟩ ⟨none, none⟩
    (s.exec Step.building).1 = .built .held ∧
    (next.after Step.replacing).engine.templatesOf 10 = ⟨some "early", none⟩ ∧
    ((next.after Step.replacing).exec Step.rewording).2.engine.templatesOf 10 = ⟨none, none⟩ ∧
    ∃ path definition rule body negated params answer before moment,
      Validator.held.ownClause? path = some (.rule definition rule body negated params) ∧
      next.Noted (Step.calling :: Step.settling) (.judged ⟨.call 0, path⟩ answer (.error leaf)) before
        moment ∧
      leaf.message = match (moment.engine.templatesOf definition).ofPolarity negated with
        | some template => Message.render ⟨.null, params, negated⟩ template
        | none => Message.generic rule := by
  intro s next leaf
  have built : (s.exec Step.building).1 = .built .held := rfl
  obtain ⟨number, opened, -, captured, worded⟩ :=
    validators_capture_rules "main" (.fresh false false) [Step.defining] built
  have early : (next.after Step.replacing).engine.templatesOf 10 = ⟨some "early", none⟩ := rfl
  refine ⟨built, early, ?_, ?_⟩
  · obtain ⟨-, edits⟩ := (captured [0] 10 "waiting" _ false [] rfl).2 Step.replacing
    have edited := (edits Step.rewording).1 false none ⟨1, .held "held", rfl, rfl, rfl⟩
    exact edited.trans (congrArg (Templates.set · false none) early)
  · have opened : (next.after []).registryNumber? "main" ≠ none := by
      rw [show (next.after []).registryNumber? "main" = some 1 from rfl]
      exact Option.some_ne_none 1
    exact worded [] Step.calling "v" .null Step.settling opened rfl ⟨rfl, rfl⟩ 0 leaf leaf rfl
      List.mem_cons_self nofun

end Criteria
