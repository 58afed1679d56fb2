import Criteria.Proofs.Snapshot.Wordless

/-!
# Changes of rules and validators in use

Between the calls of validators and the settlements of handles, rules can be registered, replaced and
removed and templates can be edited. Without all these changes the same calls and settlements are
answered alike (`Session.after_alike`): the same bodies are invoked with the same parameters, and only
messages differ.
-/

namespace Criteria
set_option autoImplicit false

/-- Whether a command calls validators, asks for futures, or makes, settles or drops handles. -/
def Command.uses : Command → Bool
  | .validate _ _ | .validateWith _ _ _ | .validateAsync _ _ _ | .poll _ | .makeHandle | .settle _ _
  | .dropHandle _ => true
  | _ => false

/-- What is seen of a response. -/
def View.response (view : View) : Response → Response
  | .result result => .result (view.result result)
  | .report report => .report (view.result report)
  | response => response

namespace Session

/-- Sessions with the same validators, futures and labels that have come to the same but for words. -/
structure Alike (t s : Session) : Prop where
  engine : t.engine.Alike s.engine
  names : ∀ name, s.registryNumber? name ≠ none → t.registryNumber? name ≠ none
  validators : t.validators = s.validators
  futures : t.futures = s.futures
  labels : t.labels = s.labels

variable {t s : Session}

namespace Alike

/-- Two sessions make the same response, as far as is seen, and stay alike. -/
abbrev Answers (x y : Response × Session) : Prop :=
  View.wordless.response x.1 = View.wordless.response y.1 ∧ x.2.Alike y.2

theorem call (h : t.Alike s) (v : Validator) (value : Json) :
    View.wordless.result (t.engine.call v value).1 = View.wordless.result (s.engine.call v value).1 ∧
      (t.engine.call v value).2.Alike (s.engine.call v value).2 :=
  call_attuned h.engine h.engine.size_calls rfl v value

/-- **Commands that use validators and handles** are answered alike, in whatever registries. -/
theorem execIn (h : t.Alike s) (number number' : Nat) {command : Command}
    (uses : command.uses = true) :
    Answers (t.execIn number command) (s.execIn number' command) := by
  have handles : ∀ reference, t.handle? reference = s.handle? reference := by
    intro reference
    cases reference with
    | unmade => rfl
    | numbered index => simp only [handle?, Engine.parked?, h.engine.parked_eq]
  have named : ∀ {name}, t.validators.lookup name = s.validators.lookup name :=
    congrArg (List.lookup _) h.validators
  cases command with
  | validate validator value =>
    rw [Session.execIn, Session.execIn, named]
    cases s.validators.lookup validator with
    | none => exact ⟨rfl, h⟩
    | some v =>
      obtain ⟨result, after⟩ := h.call v value
      exact ⟨congrArg Response.result result, { h with engine := after }⟩
  | validateWith validator value label =>
    rw [Session.execIn, Session.execIn, named]
    cases s.validators.lookup validator with
    | none => exact ⟨rfl, h⟩
    | some v =>
      obtain ⟨result, after⟩ := h.call v value
      have labels : (t.engine.calls.size, label) :: t.labels = (s.engine.calls.size, label) :: s.labels := by
        rw [h.engine.size_calls, h.labels]
      exact ⟨congrArg Response.result result, { h with engine := after, labels := labels }⟩
  | validateAsync validator value future =>
    rw [Session.execIn, Session.execIn, named]
    cases s.validators.lookup validator with
    | none => exact ⟨rfl, h⟩
    | some v =>
      have futures : (future, t.engine.calls.size) :: t.futures =
          (future, s.engine.calls.size) :: s.futures := by
        rw [h.engine.size_calls, h.futures]
      exact ⟨rfl, { h with engine := (h.call v value).2, futures := futures }⟩
  | poll future =>
    rw [Session.execIn, Session.execIn, h.futures]
    cases s.futures.lookup future with
    | none => exact ⟨rfl, h⟩
    | some call =>
      have outcome := h.engine.outcome? call
      dsimp only
      generalize t.engine.outcome? call = first at outcome ⊢
      generalize s.engine.outcome? call = second at outcome ⊢
      cases first with
      | none =>
        obtain rfl : second = none := Option.map_eq_none_iff.1 outcome.symm
        exact ⟨rfl, h⟩
      | some result =>
        obtain ⟨result', rfl, alike⟩ := Option.map_eq_some_iff.1 outcome.symm
        exact ⟨congrArg Response.result alike.symm, { h with futures := rfl }⟩
  | makeHandle =>
    refine ⟨?_, { h with engine := h.engine.park }⟩
    rw [Session.execIn, Session.execIn, h.engine.parked_eq]
  | settle reference answer =>
    rw [Session.execIn, Session.execIn, handles]
    cases kept : s.handle? reference with
    | none => exact ⟨rfl, h⟩
    | some handle =>
      cases reference with
      | unmade => cases kept
      | numbered index =>
        have within := h.engine.within (Engine.mem_of_parked? kept)
        obtain ⟨report, after⟩ := Attuned.settle h.engine within answer
        exact ⟨congrArg Response.report report, { h with engine := after }⟩
  | dropHandle reference =>
    cases reference with
    | unmade => exact ⟨rfl, h⟩
    | numbered index =>
      simp only [Session.execIn, handles]
      cases s.handle? (.numbered index) with
      | none => exact ⟨rfl, h⟩
      | some handle => exact ⟨rfl, { h with engine := h.engine.drop index }⟩
  | _ => cases uses

/-- A step that uses validators and handles is answered alike if its registry is open. -/
theorem exec (h : t.Alike s) {step : Step} (uses : step.command.uses = true)
    (opened : s.registryNumber? step.registry ≠ none) : Answers (t.exec step) (s.exec step) := by
  obtain ⟨number, first⟩ := Option.ne_none_iff_exists'.1 (h.names _ opened)
  obtain ⟨number', second⟩ := Option.ne_none_iff_exists'.1 opened
  rw [Session.exec, Session.exec, first, second]
  split
  next source same =>
    rw [same] at uses
    cases uses
  · exact h.execIn number number' uses

/-- Work on registries and definitions leaves sessions alike. -/
theorem managed {u : Session} (h : t.Alike s) (managed : Managed t u) : u.Alike s where
  engine := h.engine.manages managed.engine
  names name opened := managed.names name (h.names name opened)
  validators := managed.validators.trans h.validators
  futures := managed.futures.trans h.futures
  labels := managed.labels.trans h.labels

end Alike

/-- Using validators and handles changes the engine, the futures and the labels only. -/
theorem exec_of_uses {step : Step} (uses : step.command.uses = true) :
    ∃ engine futures labels, (s.exec step).2 = { s with engine, futures, labels } := by
  have effect := s.exec_effect step
  generalize (s.exec step).2 = t at effect ⊢
  cases effect with
  | nothing | validate | validateWith | validateAsync | poll | makeHandle | settle | dropHandle =>
    exact ⟨_, _, _, rfl⟩
  | _ => cases uses

/-- Using validators and handles opens no registry and closes none. -/
theorem registryNames_after {steps : List Step} : ∀ {s : Session},
    (∀ step ∈ steps, step.command.uses = true) →
      (s.after steps).registryNames = s.registryNames := by
  induction steps with
  | nil => exact fun _ => rfl
  | cons step rest ih =>
    intro s uses
    obtain ⟨engine, futures, labels, same⟩ := exec_of_uses (s := s) (uses step List.mem_cons_self)
    have first : (s.exec step).2.registryNames = s.registryNames := by rw [same]
    exact (ih fun step mem => uses step (List.mem_cons_of_mem _ mem)).trans first

/-- Neither work on registries and definitions nor using validators builds any. -/
theorem validators_of_changes_or_uses {step : Step}
    (kind : step.command.changes = true ∨ step.command.uses = true) :
    (s.exec step).2.validators = s.validators := by
  obtain changes | uses := kind
  · exact (Managed.exec s changes).validators
  · obtain ⟨engine, futures, labels, same⟩ := exec_of_uses (s := s) uses
    rw [same]

theorem validators_after {steps : List Step} : ∀ {s : Session},
    (∀ step ∈ steps, step.command.changes = true ∨ step.command.uses = true) →
      (s.after steps).validators = s.validators := by
  induction steps with
  | nil => exact fun _ => rfl
  | cons step rest ih =>
    intro s kinds
    exact (ih fun step mem => kinds step (List.mem_cons_of_mem _ mem)).trans
      (validators_of_changes_or_uses (kinds step List.mem_cons_self))

/-- **Validators in use do not notice changes of rules**: without these changes the session comes to the
same, but for words. -/
theorem after_alike {steps : List Step} : ∀ {t s : Session}, t.Alike s →
    (∀ step ∈ steps, step.command.changes = true ∨
      step.command.uses = true ∧ s.registryNumber? step.registry ≠ none) →
    (t.after steps).Alike (s.after (steps.filter fun step => step.command.uses)) := by
  induction steps with
  | nil => exact fun h _ => h
  | cons used rest ih =>
    intro t s h kinds
    have further := fun step mem => kinds step (List.mem_cons_of_mem _ mem)
    obtain changes | ⟨uses, opened⟩ := kinds used List.mem_cons_self
    · have other : used.command.uses = false := by
        generalize used.command = command at changes
        cases command <;> first | rfl | cases changes
      rw [List.filter_cons_of_neg (by simp [other])]
      exact ih (h.managed (Managed.exec t changes)) further
    · rw [List.filter_cons_of_pos (by simpa using uses)]
      refine ih (h.exec uses opened).2 fun step mem => ?_
      obtain ⟨engine, futures, labels, same⟩ := exec_of_uses (s := s) uses
      have names : (s.exec used).2.registryNames = s.registryNames := by rw [same]
      simpa only [registryNumber?, names] using further step mem

end Session
end Criteria
