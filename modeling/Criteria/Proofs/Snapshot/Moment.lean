import Criteria.Proofs.Snapshot.Change

/-!
# The moment of a judgement

An answer is judged by the templates as they are when the step begins during which it is judged
(`Session.after_spans`): the step of the call for a rule that answers at once, and the step that settles
the handle for one that does so later.
-/

namespace Criteria
set_option autoImplicit false

variable {layout middle later : Layout} {e e' : Engine}

/-- Whether what was judged between two states of an engine was asked by a layout, and judged by the
templates of the first state. -/
abbrev Phrased (layout : Layout) (e e' : Engine) : Prop :=
  ∃ news, e'.journal = news ++ e.journal ∧ ∀ p answer result,
    Event.judged p answer result ∈ news → ∃ question onward,
      layout.handle? p = some (.asked p question onward) ∧
        result = question.judge (e.templatesOf question.definition) answer

/-- Defining templates, editing them and logging judges nothing. -/
theorem Engine.Manages.logs (h : e.Manages e') :
    ∃ news, e'.journal = news ++ e.journal ∧ ∀ event ∈ news, event.Logged := by
  obtain ⟨moves, all, rfl⟩ := h
  induction moves generalizing e with
  | nil => exact ⟨[], rfl, by simp⟩
  | cons m moves ih =>
    obtain ⟨valid, manages⟩ := all m List.mem_cons_self
    obtain ⟨news, grows, logged⟩ := ih (e := e.move m) fun m mem => all m (List.mem_cons_of_mem _ mem)
    cases m with
    | define | setTemplate => exact ⟨news, grows, logged⟩
    | log event =>
      refine ⟨news ++ [event], ?_, fun x mem => ?_⟩
      · rw [List.append_assoc]
        exact grows
      · rcases List.mem_append.1 mem with later | now
        · exact logged x later
        · exact List.mem_singleton.1 now ▸ valid
    | _ => exact manages.elim

namespace Session

variable {s : Session}

/-- Whether an event was noted in the course of steps, during the one that began in the given state. -/
def Noted (s : Session) (steps : List Step) (event : Event) (before : Journal) (moment : Session) :
    Prop :=
  ∃ earlier step rest, steps = earlier ++ step :: rest ∧ moment = s.after earlier ∧
    moment.engine.journal <:+ before ∧ event :: before <:+ (moment.exec step).2.engine.journal

/-- What steps do: every judgement is of a question of the layout, by the templates as they were when
the step began during which it was noted. -/
structure Spans (layout later : Layout) (s : Session) (steps : List Step) : Prop where
  trace : Trace (layout, s.engine) (later, (s.after steps).engine)
  judged : ∀ p answer result before,
    .judged p answer result :: before <:+ (s.after steps).engine.journal →
    s.engine.journal <:+ before → ∃ question onward moment,
      later.handle? p = some (.asked p question onward) ∧
      s.Noted steps (.judged p answer result) before moment ∧
      result = question.judge (moment.engine.templatesOf question.definition) answer

namespace Spans

theorem nil (layout : Layout) (s : Session) : Spans layout layout s [] :=
  ⟨.refl, fun _ _ _ _ behind ahead => absurd ahead (not_suffix_of_cons_suffix behind)⟩

/-- A single step. -/
theorem single {step : Step} (trace : Trace (layout, s.engine) (later, (s.exec step).2.engine))
    (phrased : Phrased later s.engine (s.exec step).2.engine) : Spans layout later s [step] := by
  refine ⟨trace, fun p answer result before behind ahead => ?_⟩
  obtain ⟨news, grows, judged⟩ := phrased
  have grows : (s.after [step]).engine.journal = news ++ s.engine.journal := grows
  obtain ⟨question, onward, handed, words⟩ :=
    judged p answer result (mem_of_since (grows ▸ behind) ahead)
  exact ⟨question, onward, s, handed, ⟨[], step, [], rfl, rfl, ahead, behind⟩, words⟩

theorem cons {step : Step} {rest : List Step} (first : Spans layout middle s [step])
    (further : Spans middle later (s.exec step).2 rest) (h : Sound layout s.engine) :
    Spans layout later s (step :: rest) where
  trace := first.trace.trans further.trace
  judged p answer result before behind ahead := by
    have follows := Trace.follows further.trace (Trace.sound first.trace h)
    rcases suffix_cases behind follows.journal with inside | outside
    · obtain ⟨question, onward, moment, handed, noted, words⟩ :=
        further.judged p answer result before behind inside
      obtain ⟨earlier, step', rest', rfl, began, since, during⟩ := noted
      exact ⟨question, onward, moment, handed,
        ⟨step :: earlier, step', rest', rfl, began, since, during⟩, words⟩
    · obtain ⟨question, onward, moment, handed, noted, words⟩ :=
        first.judged p answer result before outside ahead
      obtain ⟨earlier, step', rest', same, began, since, during⟩ := noted
      refine ⟨question, onward, moment, follows.layout.handle? handed,
        ⟨earlier, step', rest' ++ rest, ?_, began, since, during⟩, words⟩
      rw [← List.cons_append, ← List.append_assoc, ← same]
      rfl

end Spans

/-- One step. -/
theorem exec_spans (h : s.Stands .empty) (sound : Sound layout s.engine) (step : Step) :
    ∃ later, Spans layout later s [step] := by
  cases kind : step.command.changes with
  | true =>
    have manages := (Managed.exec s kind).engine
    obtain ⟨news, grows, logged⟩ := manages.logs
    obtain ⟨moves, all, same⟩ := manages
    obtain ⟨later, course⟩ := run_course sound fun m mem => (all m mem).1
    have trace := course.trace
    rw [← same] at trace
    exact ⟨later, .single trace ⟨news, grows, fun _ _ _ mem => (logged _ mem).elim⟩⟩
  | false =>
    obtain same | ⟨m, valid, spares, same⟩ := (Moved.exec h kind).engine
    · refine ⟨layout, .single (same ▸ .refl) ⟨[], by rw [same]; rfl, fun _ _ _ mem => ?_⟩⟩
      cases mem
    · obtain ⟨later, steady⟩ := move_steady sound valid spares.uncut
      rw [← same] at steady
      exact ⟨later, .single steady.trace (steady.worded sound).journal⟩

/-- **Any steps**: whatever they judge is judged by the templates of the moment. -/
theorem after_spans (steps : List Step) : ∀ {layout : Layout} {s : Session}, s.Stands .empty →
    Sound layout s.engine → ∃ later, Spans layout later s steps := by
  induction steps with
  | nil => exact fun {layout s} _ _ => ⟨layout, .nil layout s⟩
  | cons step rest ih =>
    intro layout s h sound
    obtain ⟨middle, first⟩ := exec_spans h sound step
    obtain ⟨later, further⟩ := ih (h.exec step) (Trace.sound first.trace sound)
    exact ⟨later, first.cons further sound⟩

end Session
end Criteria
