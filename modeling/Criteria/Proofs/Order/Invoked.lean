import Criteria.Proofs.Journal.Invocation
import Criteria.Proofs.Run.Reach
import Criteria.Proofs.Settle.Lasting

/-!
# What invokes rule bodies

Delivering a result invokes no body, and neither does anything that a scripted body does to handles
(`Passive`, `performAll_passive`). Evaluation invokes bodies at places where nothing was started before,
below the active root (`Runs.invocations`), so once a call has returned none of its bodies is invoked
any more (`Trace.invocations_of_returned`).
-/

namespace Criteria
set_option autoImplicit false

theorem mem_invocations {i : Invocation} {journal : Journal} :
    i ∈ invocations journal ↔
      ∃ scripted, Event.invoked i.place i.rule scripted i.value i.params ∈ journal := by
  simp only [invocations, List.mem_filterMap, List.mem_reverse]
  constructor
  · rintro ⟨event, mem, noted⟩
    cases event with
    | invoked p rule scripted value params =>
      obtain rfl := Option.some.inj noted
      exact ⟨scripted, mem⟩
    | _ => cases noted
  · rintro ⟨scripted, mem⟩
    exact ⟨_, mem, rfl⟩

theorem issued_of_mem_invocations {i : Invocation} {journal : Journal}
    (mem : i ∈ invocations journal) : Issued i.place journal := by
  obtain ⟨scripted, mem⟩ := mem_invocations.1 mem
  exact ⟨_, _, _, _, mem⟩

/-! ## What invokes nothing -/

/-- Nothing was invoked between two states of an engine. -/
def Passive (e e' : Engine) : Prop := invocations e'.journal = invocations e.journal

namespace Passive

variable {e e' e'' : Engine}

theorem refl (e : Engine) : Passive e e := rfl

theorem trans (first : Passive e e') (second : Passive e' e'') : Passive e e'' :=
  Eq.trans second first

theorem note (e : Engine) {event : Event} (other : event.invocation? = none) :
    Passive e (e.note event) := by
  rw [Passive, Engine.note, invocations_cons, other]
  exact List.append_nil _

end Passive

section

variable (e : Engine)

theorem complete_passive (call : Nat) (result : Result) : Passive e (e.complete call result).2 := by
  unfold Engine.complete
  split
  · exact .refl e
  · exact Passive.refl e
  · exact Passive.note e rfl

theorem takeIn_passive (p : Place) (combinator : Combinator) (value : Json) (result : Result)
    {next : Result → Engine → Report × Engine} (further : ∀ result e, Passive e (next result e).2) :
    Passive e (e.takeIn p combinator value result next).2 := by
  have taken : ∀ progress, Passive e (e.putList p progress) := fun _ => rfl
  unfold Engine.takeIn
  split
  · exact .refl e
  · dsimp only
    split
    · split
      · exact (taken _).trans (further _ _)
      · exact taken _
    · exact taken _

theorem once_passive (p : Place) {act : Engine → Report × Engine}
    (acts : ∀ e, Passive e (act e).2) : Passive e (e.once p act).2 := by
  unfold Engine.once
  split
  · exact .note e rfl
  · exact acts (e.markSettled p)

theorem answer_passive (p : Place) (question : Question) (answer : Answer)
    {next : Result → Engine → Report × Engine} (further : ∀ result e, Passive e (next result e).2) :
    Passive e (e.answer p question answer next).2 :=
  once_passive e p fun e =>
    ((Passive.note e rfl).trans (further _ _)).trans (Passive.note _ rfl)

/-- **Delivery invokes no body.** -/
theorem deliver_passive : ∀ (route : Route) (result : Result) (e : Engine),
    Passive e (Engine.deliver route result e).2
  | .call call, result, e => complete_passive e call result
  | .list p combinator value onward, result, e =>
    takeIn_passive e p combinator value result (deliver_passive onward)
  | .detached p, _, e => once_passive e p fun e => .refl e
  | .answer p question onward, result, e =>
    answer_passive e p question (.ok result.holds) (deliver_passive onward)

theorem settle_passive (handle : Handle) (answer : Answer) :
    Passive e (Engine.settle handle answer e).2 :=
  match handle with
  | .detached p => once_passive e p fun e => .refl e
  | .asked p question onward => answer_passive e p question answer (deliver_passive onward)

theorem perform_passive (rule : String) (own : Handle) (action : Action) :
    Passive e (Engine.perform rule own e action) := by
  cases action with
  | park => exact .refl e
  | settle answer => exact (settle_passive e own answer).trans (.note _ rfl)
  | settleParked index answer =>
    rw [Engine.perform]
    split
    · exact .refl e
    · next handle _ => exact (settle_passive e handle answer).trans (.note _ rfl)

/-- A scripted body invokes no body. -/
theorem performAll_passive (rule : String) (own : Handle) : ∀ (actions : List Action) (e : Engine),
    Passive e (actions.foldl (Engine.perform rule own) e)
  | [], e => .refl e
  | action :: actions, e =>
    (perform_passive e rule own action).trans (performAll_passive rule own actions _)

/-- An answer at once invokes no body. -/
theorem heed_passive (handle : Handle) (evaluated : Reply × Engine) :
    Passive evaluated.2 (Engine.heed handle evaluated) := by
  obtain ⟨reply, after⟩ := evaluated
  cases reply with
  | now holds => exact settle_passive after handle _
  | later => exact .refl after

end

/-! ## What evaluation invokes -/

variable {layout later : Layout} {active : Option Root} {e e' : Engine}

/-- One step of evaluation invokes at most one body, where nothing was started before. -/
theorem EvalStep.invocations (step : EvalStep layout active e e') :
    ∃ news, Criteria.invocations e'.journal = Criteria.invocations e.journal ++ news ∧
      ∀ i ∈ news, active = some i.place.root ∧ ¬ e.Known i.place := by
  have quiet : ∀ {e'}, Passive e e' →
      ∃ news, Criteria.invocations e'.journal = Criteria.invocations e.journal ++ news ∧
        ∀ i ∈ news, active = some i.place.root ∧ ¬ e.Known i.place := fun passive =>
    ⟨[], Eq.trans passive (List.append_nil _).symm, fun _ mem => absurd mem List.not_mem_nil⟩
  cases step with
  | @invoke p rule scripted value params mine fresh =>
    refine ⟨[⟨p, rule, value, params⟩], invocations_cons _ _, fun i mem => ?_⟩
    obtain rfl := List.mem_singleton.1 mem
    exact ⟨mine, fresh⟩
  | openList => exact quiet rfl
  | settle _ _ answer => exact quiet (settle_passive e _ answer)
  | @pass p _ handle rule value params mine fresh =>
    have delivered := deliver_passive handle.route (.ok true)
      (e.note (.invoked p rule false value params))
    refine ⟨[⟨p, rule, value, params⟩], Eq.trans delivered (invocations_cons _ _), fun i mem => ?_⟩
    obtain rfl := List.mem_singleton.1 mem
    exact ⟨mine, fresh⟩
  | park => exact quiet rfl
  | told rule report => exact quiet (.note e rfl)

/-- **Evaluation invokes bodies in its region**, where nothing was started before. -/
theorem Runs.invocations {region : Place → Prop} (runs : Runs layout active region e e') :
    ∃ news, Criteria.invocations e'.journal = Criteria.invocations e.journal ++ news ∧
      ∀ i ∈ news, active = some i.place.root ∧ ¬ e.Known i.place ∧ region i.place := by
  obtain ⟨news, more, fresh⟩ : ∃ news,
      Criteria.invocations e'.journal = Criteria.invocations e.journal ++ news ∧
        ∀ i ∈ news, active = some i.place.root ∧ ¬ e.Known i.place := by
    obtain ⟨steps, -⟩ := runs
    suffices known : (∀ p, e.Known p → e'.Known p) ∧ ∃ news,
        Criteria.invocations e'.journal = Criteria.invocations e.journal ++ news ∧
          ∀ i ∈ news, active = some i.place.root ∧ ¬ e.Known i.place from known.2
    induction steps with
    | refl => exact ⟨fun _ => id, [], (List.append_nil _).symm, fun _ mem => absurd mem List.not_mem_nil⟩
    | @tail middle last _ step ih =>
      obtain ⟨known, news, more, fresh⟩ := ih
      obtain ⟨new, next, unknown⟩ := step.invocations
      have grows := step.grows
      refine ⟨fun p before => (known p before).imp (grows.opened p)
        (·.mono grows.journal.suffix), news ++ new, ?_, fun i mem => ?_⟩
      · rw [next, more, List.append_assoc]
      · rcases List.mem_append.1 mem with mem | mem
        · exact fresh i mem
        · exact (unknown i mem).imp id fun unknown before => unknown (known _ before)
  refine ⟨news, more, fun i mem => ⟨(fresh i mem).1, (fresh i mem).2, ?_⟩⟩
  have issued : Issued i.place e'.journal := issued_of_mem_invocations
    (more ▸ List.mem_append_right _ mem)
  exact (runs.grows.known i.place (.inr issued)).resolve_left (fresh i mem).2

/-! ## After the return -/

/-- The invocations at a place and below. -/
def invocationsBelow (place : Place) (journal : Journal) : List Invocation :=
  (invocations journal).filter fun i => place.Encloses i.place

/-- A step of a run invokes no body of a call that has returned. -/
theorem RunStep.invocations_of_returned (step : RunStep (layout, e) (later, e')) {call : Nat}
    (returned : returned? call e.journal ≠ none) :
    invocationsBelow (.ofCall call) e'.journal = invocationsBelow (.ofCall call) e.journal := by
  have quiet : ∀ {e'}, Passive e e' →
      invocationsBelow (.ofCall call) e'.journal = invocationsBelow (.ofCall call) e.journal :=
    fun passive => congrArg (List.filter _) passive
  cases step with
  | eval live step =>
    obtain ⟨news, more, fresh⟩ := step.invocations
    have elsewhere : ∀ i ∈ news, ¬ decide ((Place.ofCall call).Encloses i.place) = true := by
      intro i mem below
      have below : Root.call call = i.place.root := (of_decide_eq_true below).1
      exact returned (live call (below ▸ (fresh i mem).1))
    rw [invocationsBelow, more, List.filter_append, List.filter_eq_nil_iff.2 elsewhere,
      List.append_nil]
    rfl
  | enter => exact quiet rfl
  | accept value => exact quiet (complete_passive (e.enter value) _ _)
  | leave => exact quiet (Passive.note (e.updateCall _ _) rfl)
  | loosen => exact quiet rfl
  | lend => exact quiet rfl
  | drop => exact quiet rfl
  | define => exact quiet rfl
  | setTemplate => exact quiet rfl
  | @log _ _ event logged =>
    refine quiet (.note e ?_)
    cases event with
    | invoked => exact logged.elim
    | _ => rfl

/-- **No body of a call that has returned is invoked any more.** -/
theorem Trace.invocations_of_returned {start finish : Layout × Engine} (trace : Trace start finish)
    (h : Sound start.1 start.2) {call : Nat} (returned : returned? call start.2.journal ≠ none) :
    invocationsBelow (.ofCall call) finish.2.journal =
      invocationsBelow (.ofCall call) start.2.journal := by
  induction trace with
  | refl => rfl
  | @tail middle finish earlier step ih =>
    obtain ⟨⟨result, before⟩, found⟩ := Option.ne_none_iff_exists'.1 returned
    have still := (Trace.follows earlier h).returned _ _ found
    have known : returned? call middle.2.journal ≠ none := by
      rw [still]
      exact Option.some_ne_none _
    exact (step.invocations_of_returned known).trans ih

end Criteria
