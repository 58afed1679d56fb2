import Criteria.Proofs.Call.Completion
import Criteria.Proofs.Journal.Invocation
import Criteria.Proofs.Settle.Agreement
import Criteria.Proofs.Settle.Lasting
import Mathlib.Data.List.Forall2

/-!
# Answering at once or settling before returning

Where a body answers at once it may as well settle its own handle as its last action and then return
whatever it likes. `Recast` relates the two ways, in any of the bodies of a tree of checks, and `Retold`
says how the journals differ: the added settlement is noted with what it was told, and an answer that
comes after it is noted as a repeated settlement. Everything else is the same, at each step and so in
every run of moves.
-/

namespace Criteria
set_option autoImplicit false

/-! ## Recast bodies -/

/-- The same plan, or one that settles as its last action where the other answers at once. -/
def Plan.Recast (plan plan' : Plan) : Prop :=
  plan' = plan ∨
    ∃ holds, plan.reply = .now holds ∧ plan'.actions = plan.actions ++ [.settle (.ok holds)]

mutual

/-- Whether a body does as another one does, but may settle where that one answers at once. -/
def Body.Recast : Body → Body → Prop
  | .test holds, .test holds' => holds' = holds
  | .test holds, .scripted plan' =>
    ∀ p value params, Plan.Recast ⟨[], .now (holds value params)⟩ (plan' p value params)
  | .scripted plan, .scripted plan' =>
    ∀ p value params, Plan.Recast (plan p value params) (plan' p value params)
  | .validator age checks, .validator age' checks' => age' = age ∧ Check.AllRecast checks checks'
  | _, _ => False

/-- Whether two clauses differ in recast bodies at most. -/
def Check.Recast : Check → Check → Prop
  | .rule definition name body negated params, .rule definition' name' body' negated' params' =>
    definition' = definition ∧ name' = name ∧ body.Recast body' ∧ negated' = negated ∧
      params' = params
  | .group members, .group members' => Check.AllRecast members members'
  | _, _ => False

/-- Whether two lists of clauses differ in recast bodies at most. -/
def Check.AllRecast : List Check → List Check → Prop
  | [], [] => True
  | check :: rest, check' :: rest' => check.Recast check' ∧ Check.AllRecast rest rest'
  | _, _ => False

end

theorem Check.AllRecast.length : ∀ {checks checks' : List Check}, Check.AllRecast checks checks' →
    checks'.length = checks.length
  | [], [], _ => rfl
  | _ :: _, _ :: _, h => congrArg (· + 1) (Check.AllRecast.length h.2)

/-- Whether two validators differ in recast bodies at most. -/
def Validator.Recast (v v' : Validator) : Prop :=
  v'.age = v.age ∧ Check.AllRecast v.checks v'.checks

/-- Whether two moves differ in recast bodies at most; no body is evaluated outside of a call. -/
def Move.Recast : Move → Move → Prop
  | .call v value, .call v' value' => v.Recast v' ∧ value' = value
  | .evaluate _ _ _ _, _ => False
  | m, m' => m' = m

/-! ## How the journals differ -/

/-- Whether a journal tells the same as another one, but for settlements that were added. -/
inductive Retold : Journal → Journal → Prop where
  | nil : Retold [] []
  | same (event : Event) {journal journal' : Journal} :
    Retold journal journal' → Retold (event :: journal) (event :: journal')
  | invoked (p : Place) (rule : String) (scripted scripted' : Bool) (value : Json)
      (params : List Json) {journal journal' : Journal} :
    Retold journal journal' → Retold (.invoked p rule scripted value params :: journal)
      (.invoked p rule scripted' value params :: journal')
  /-- The body that has settled its handle instead of answering was told what followed. -/
  | answered (p : Place) (rule : String) (report : Report) {journal journal' : Journal} :
    Retold journal journal' → Retold (.told p report :: journal)
      (.settledBy rule report :: .told p report :: journal')
  /-- The handle was settled already, as it was when the other body answered. -/
  | void (p : Place) (rule : String) {journal journal' : Journal} :
    Retold journal journal' → Retold (.repeated p :: journal)
      (.settledBy rule (.ok ()) :: .repeated p :: journal')
  /-- The body has also answered at once. -/
  | again (p : Place) {journal journal' : Journal} : Retold journal journal' →
    Retold journal (.repeated p :: journal')

/-- An event apart from the log of what bodies did by themselves. -/
def Event.essence? : Event → Option Event
  | .repeated _ => none
  | .settledBy _ _ => none
  | .invoked p rule _ value params => some (.invoked p rule false value params)
  | event => some event

/-- What a body was told that settled a handle. -/
def Event.settledBy? : Event → Option (String × Report)
  | .settledBy rule report => some (rule, report)
  | _ => none

namespace Retold

theorem refl : ∀ journal : Journal, Retold journal journal
  | [] => .nil
  | event :: earlier => .same event (refl earlier)

theorem recording : Recording Retold := fun event _ _ _ h => h.same event

variable {journal journal' : Journal}

/-- The same has happened, in the same order. -/
theorem essence (h : Retold journal journal') :
    journal.filterMap Event.essence? = journal'.filterMap Event.essence? := by
  induction h with
  | nil => rfl
  | same event _ ih => rw [List.filterMap_cons, List.filterMap_cons, ih]
  | invoked _ _ _ _ _ _ _ ih => exact congrArg (List.cons _) ih
  | answered _ _ _ _ ih => exact congrArg (List.cons _) ih
  | void _ _ _ ih => exact ih
  | again _ _ ih => exact ih

/-- What bodies were told is the same, with what the added settlements were told in between. -/
theorem settledBy (h : Retold journal journal') :
    (journal.filterMap Event.settledBy?).Sublist (journal'.filterMap Event.settledBy?) := by
  induction h with
  | nil => exact .refl _
  | same event _ ih =>
    rw [List.filterMap_cons, List.filterMap_cons]
    split
    · exact ih
    · exact ih.cons_cons _
  | invoked _ _ _ _ _ _ _ ih => exact ih
  | answered _ _ _ _ ih => exact ih.cons _
  | void _ _ _ ih => exact ih.cons _
  | again _ _ ih => exact ih

/-- The same bodies were invoked in the same order. -/
theorem invocations (h : Retold journal journal') :
    Criteria.invocations journal = Criteria.invocations journal' := by
  induction h with
  | nil => rfl
  | same _ _ ih => rw [invocations_cons, invocations_cons, ih]
  | invoked _ _ _ _ _ _ _ ih =>
    rw [invocations_cons, invocations_cons, ih]
    rfl
  | answered _ _ _ _ ih => simpa [invocations_cons, Event.invocation?] using ih
  | void _ _ _ ih => simpa [invocations_cons, Event.invocation?] using ih
  | again _ _ ih => simpa [invocations_cons, Event.invocation?] using ih

end Retold

/-! ## Settling -/

section

variable {e s : Engine}

theorem Agrees.note_retold (h : Agrees Retold e s) (event : Event) :
    Agrees Retold (e.note event) (s.note event) :=
  h.note event event (.same event)

theorem once_retold (h : Agrees Retold e s) (p : Place)
    {act act' : Engine → Report × Engine}
    (acts : ∀ ⦃e s : Engine⦄, Agrees Retold e s → Alike Retold (act e) (act' s)) :
    Alike Retold (e.once p act) (s.once p act') := by
  unfold Engine.once
  rw [h.isSettled p]
  split
  · exact ⟨rfl, h.note_retold _⟩
  · exact acts (h.markSettled p)

/-- The same answer is judged alike. -/
theorem answer_retold (h : Agrees Retold e s) (p : Place) (question : Question) (answer : Answer)
    {next : Result → Engine → Report × Engine}
    (further : ∀ (result : Result) ⦃e s : Engine⦄, Agrees Retold e s →
      Alike Retold (next result e) (next result s)) :
    Alike Retold (e.answer p question answer next) (s.answer p question answer next) := by
  refine once_retold h p fun e s h => ?_
  rw [h.templatesOf]
  obtain ⟨told, after⟩ := further (question.judge (s.templatesOf _) answer)
    (h.note_retold (.judged p answer _))
  refine ⟨told, ?_⟩
  dsimp only
  rw [told]
  exact after.note_retold _

/-- A result goes the same way. -/
theorem deliver_retold : ∀ (route : Route) (result : Result) ⦃e s : Engine⦄, Agrees Retold e s →
    Alike Retold (Engine.deliver route result e) (Engine.deliver route result s)
  | .call call, result, _, _, h => h.complete Retold.recording call result
  | .list p combinator value onward, result, _, _, h =>
    h.takeIn p combinator value result fun decision _ _ h => deliver_retold onward decision h
  | .detached p, _, _, _, h => once_retold h p fun _ _ h => ⟨rfl, h⟩
  | .answer p question onward, result, _, _, h =>
    answer_retold h p question (.ok result.holds) fun decision _ _ h =>
      deliver_retold onward decision h

theorem settle_retold (h : Agrees Retold e s) (handle : Handle) (answer : Answer) :
    Alike Retold (Engine.settle handle answer e) (Engine.settle handle answer s) :=
  match handle with
  | .detached p => once_retold h p fun _ _ h => ⟨rfl, h⟩
  | .asked p question onward =>
    answer_retold h p question answer fun decision _ _ h => deliver_retold onward decision h

/-- Settling a handle and being told so, instead of answering at once. -/
theorem settleInCall_retold (h : Agrees Retold e s) (rule : String) (p : Place)
    (question : Question) (onward : Route) (answer : Answer) :
    Agrees Retold (Engine.settle (.asked p question onward) answer e).2
      (Engine.perform rule (.asked p question onward) s (.settle answer)) := by
  simp only [Engine.perform, Engine.settle, Engine.answer, Engine.once, h.isSettled p]
  split
  · exact ⟨h.state, .void p rule h.journal⟩
  · have marked := h.markSettled p
    rw [marked.templatesOf]
    obtain ⟨told, after⟩ := deliver_retold onward
      (question.judge ((s.markSettled p).templatesOf question.definition) answer)
      (marked.note_retold (.judged p answer _))
    dsimp only
    rw [told]
    exact ⟨after.state, .answered p rule _ after.journal⟩

/-- An answer that comes after the handle was settled. -/
theorem Agrees.late (h : Agrees Retold e s) {handle : Handle}
    (settled : s.isSettled handle.place = true) (answer : Answer) :
    Agrees Retold e (Engine.settle handle answer s).2 := by
  rw [settle_again settled answer]
  exact ⟨h.state, .again _ h.journal⟩

theorem perform_retold (h : Agrees Retold e s) (rule : String) (own : Handle) (action : Action) :
    Agrees Retold (Engine.perform rule own e action) (Engine.perform rule own s action) := by
  cases action with
  | park => exact h.park own
  | settle answer =>
    obtain ⟨told, after⟩ := settle_retold h own answer
    simp only [Engine.perform, told]
    exact after.note_retold _
  | settleParked index answer =>
    rw [Engine.perform, Engine.perform, h.parked? index]
    split
    · exact h
    · next handle _ =>
      obtain ⟨told, after⟩ := settle_retold h handle answer
      simp only [told]
      exact after.note_retold _

theorem performAll_retold (rule : String) (own : Handle) :
    ∀ (actions : List Action) {e s : Engine}, Agrees Retold e s →
      Agrees Retold (actions.foldl (Engine.perform rule own) e)
        (actions.foldl (Engine.perform rule own) s)
  | [], _, _, h => h
  | action :: actions, _, _, h =>
    performAll_retold rule own actions (perform_retold h rule own action)

/-! ## Evaluating -/

/-- What may have come of evaluating two bodies with a handle: the same, or the second one has settled
the handle where the first one answers at once. -/
def Recasts (rule : String) (handle : Handle) (a b : Reply × Engine) : Prop :=
  Alike Retold a b ∨ ∃ holds middle, a.1 = .now holds ∧ Agrees Retold a.2 middle ∧
    b.2 = Engine.perform rule handle middle (.settle (.ok holds))

/-- Following a recast plan. -/
theorem plan_retold (h : Agrees Retold e s) (rule : String) (handle : Handle) {plan plan' : Plan}
    (recast : plan.Recast plan') :
    Recasts rule handle (plan.reply, plan.actions.foldl (Engine.perform rule handle) e)
      (plan'.reply, plan'.actions.foldl (Engine.perform rule handle) s) := by
  have acted := performAll_retold rule handle plan.actions h
  obtain rfl | ⟨holds, reply, actions⟩ := recast
  · exact .inl ⟨rfl, acted⟩
  · refine .inr ⟨holds, _, reply, acted, ?_⟩
    rw [actions, List.foldl_append]
    rfl

theorem runList_retold (h : Agrees Retold e s) (combinator : Combinator) (size : Nat) (value : Json)
    (p : Place) (onward : Route) {start start' : Route → Engine → Engine}
    (starts : ∀ (route : Route) ⦃e s : Engine⦄, Agrees Retold e s →
      Agrees Retold (start route e) (start' route s)) :
    Alike Retold (Engine.runList combinator size value p onward start e)
      (Engine.runList combinator size value p onward start' s) := by
  unfold Engine.runList
  split
  · exact ⟨rfl, (deliver_retold onward _ h).2⟩
  · have started := starts (.list p combinator value onward)
      (h.putList p (.start combinator size))
    exact ⟨started.passed p, started⟩

/-- A body that has settled its handle is as good as one that answers. -/
theorem heed_retold {rule : String} {p : Place} {question : Question} {onward : Route}
    {a b : Reply × Engine} (h : Recasts rule (.asked p question onward) a b) :
    Agrees Retold (Engine.heed (.asked p question onward) a)
      (Engine.heed (.asked p question onward) b) := by
  obtain ⟨reply, e⟩ := a
  obtain ⟨reply', s⟩ := b
  obtain ⟨same, agrees⟩ | ⟨holds, middle, same, agrees, added⟩ := h
  · obtain rfl : reply = reply' := same
    cases reply with
    | now holds => exact (settle_retold agrees _ _).2
    | later => exact agrees
  · obtain rfl : reply = .now holds := same
    obtain rfl : s = _ := added
    have inCall := settleInCall_retold agrees rule p question onward (.ok holds)
    cases reply' with
    | now _ =>
      have settled := settle_settles middle (.asked p question onward) (.ok holds)
      exact inCall.late settled _
    | later => exact inCall

end

mutual

/-- Evaluating a body and the recast one. -/
theorem evaluate_retold (rule : String) (params : List Json) :
    (body body' : Body) → body.Recast body' → ∀ (value : Json) (p : Place) (handle : Handle)
      ⦃e s : Engine⦄, Agrees Retold e s →
        Recasts rule handle (Engine.evaluate rule value params p handle body e)
          (Engine.evaluate rule value params p handle body' s)
  | .test holds, .test _, same => by
    intro value p handle e s h
    obtain rfl := same
    rw [Engine.evaluate, Engine.evaluate]
    exact .inl ⟨rfl, h.note_retold _⟩
  | .test holds, .scripted plan', recast => by
    intro value p handle e s h
    rw [Engine.evaluate, Engine.evaluate]
    have invoked := h.note (.invoked p rule false value params)
      (.invoked p rule true value params) (.invoked p rule false true value params)
    exact plan_retold invoked rule handle (recast p value params)
  | .scripted plan, .scripted plan', recast => by
    intro value p handle e s h
    rw [Engine.evaluate, Engine.evaluate]
    exact plan_retold (h.note_retold _) rule handle (recast p value params)
  | .validator age checks, .validator age' checks', ⟨_, recast⟩ => by
    intro value p handle e s h
    rw [Engine.evaluate, Engine.evaluate, recast.length]
    exact .inl ⟨rfl, (runList_retold (h.note_retold _) .all checks.length value p handle.route
      fun into _ _ h => startAll_retold checks checks' recast value p 0 into h).2⟩

/-- Starting a clause and the recast one. -/
theorem start_retold : (check check' : Check) → check.Recast check' → ∀ (value : Json) (p : Place)
    (into : Route) ⦃e s : Engine⦄, Agrees Retold e s →
      Agrees Retold (Engine.start value p into check e) (Engine.start value p into check' s)
  | .rule definition name body negated params, .rule _ _ body' _ _,
      ⟨same, named, recast, signed, bound⟩ => by
    intro value p into e s h
    obtain rfl := same
    obtain rfl := named
    obtain rfl := signed
    obtain rfl := bound
    rw [Engine.start_rule, Engine.start_rule]
    exact heed_retold (evaluate_retold _ _ body body' recast value p _ h)
  | .group members, .group members', recast => by
    intro value p into e s h
    have recast : Check.AllRecast members members' := recast
    rw [Engine.start, Engine.start, recast.length]
    exact (runList_retold h .any members.length value p into
      fun into _ _ h => startAll_retold members members' recast value p 0 into h).2

theorem startAll_retold : (checks checks' : List Check) → Check.AllRecast checks checks' →
    ∀ (value : Json) (p : Place) (position : Nat) (into : Route) ⦃e s : Engine⦄,
      Agrees Retold e s → Agrees Retold (Engine.startAll value p position checks into e)
        (Engine.startAll value p position checks' into s)
  | [], [], _ => by
    intro value p position into e s h
    rw [Engine.startAll, Engine.startAll]
    exact h
  | check :: rest, check' :: rest', ⟨first, more⟩ => by
    intro value p position into e s h
    rw [Engine.startAll, Engine.startAll, h.isRejected p]
    split
    · exact h
    · exact startAll_retold rest rest' more value p (position + 1) into
        (start_retold check check' first value _ into h)

end

/-! ## Runs -/

section

variable {e s : Engine}

/-- A call of a recast validator returns the same. -/
theorem call_retold (h : Agrees Retold e s) {v v' : Validator} (recast : v.Recast v')
    (value : Json) : Alike Retold (e.call v value) (s.call v' value) := by
  rw [Engine.call_eq, Engine.call_eq, recast.2.length, ← h.calls]
  exact Agrees.conclude Retold.recording (runList_retold (h.enter value) .all v.checks.length value
    (.ofCall e.calls.size) (.call e.calls.size) fun into _ _ h =>
      startAll_retold v.checks v'.checks recast.2 value _ 0 into h) e.calls.size

theorem move_retold (h : Agrees Retold e s) {m m' : Move} (recast : m.Recast m') :
    Agrees Retold (e.move m) (s.move m') := by
  cases m with
  | call v value =>
    cases m' with
    | call v' value' =>
      obtain ⟨recast, rfl⟩ := recast
      exact (call_retold h recast value').2
    | _ => cases recast
  | evaluate => cases recast
  | settle index answer =>
    obtain rfl : m' = .settle index answer := recast
    rw [Engine.move, Engine.move, h.parked? index]
    split
    · exact (settle_retold h _ answer).2
    · exact h
  | drop index =>
    obtain rfl : m' = .drop index := recast
    exact h.dropParked index
  | make =>
    obtain rfl : m' = .make := recast
    exact h.parkDetached
  | define templates =>
    obtain rfl : m' = .define templates := recast
    exact h.define templates
  | setTemplate definition negated template =>
    obtain rfl : m' = .setTemplate definition negated template := recast
    exact h.setTemplate definition negated template
  | log event =>
    obtain rfl : m' = .log event := recast
    exact h.note_retold event

/-- Runs of moves that differ in recast bodies. -/
theorem run_retold {moves moves' : List Move} (recast : List.Forall₂ Move.Recast moves moves') :
    ∀ {e s : Engine}, Agrees Retold e s → Agrees Retold (e.run moves) (s.run moves') := by
  induction recast with
  | nil => exact fun h => h
  | cons first _ ih => exact fun h => ih (move_retold h first)

end

/-- **Answering at once and settling before returning are interchangeable.** Replace in a run of moves
any of the bodies that are started by validators: wherever a body answers at once, let it instead settle
its own handle with this answer as its last action, and then return whatever it likes. Then the engine
comes to the same state, with the same returns and completions of all calls and the same kept handles;
the journals tell the same in the same order, but for the added settlements and the answers that come
too late; the same bodies are invoked in the same order with the same values and parameters; all calls
have the same outcome; and whatever is done next, a further call returns the same and a settlement is
told the same. -/
theorem in_call_settlement_interchangeable {moves moves' : List Move}
    (recast : List.Forall₂ Move.Recast moves moves') (start : Engine) :
    let e := start.run moves
    let s := start.run moves'
    e.silenced = s.silenced ∧
      Retold e.journal s.journal ∧
      e.journal.filterMap Event.essence? = s.journal.filterMap Event.essence? ∧
      (e.journal.filterMap Event.settledBy?).Sublist (s.journal.filterMap Event.settledBy?) ∧
      invocations e.journal = invocations s.journal ∧
      (∀ call, e.outcome? call = s.outcome? call) ∧
      (∀ (v v' : Validator) (value : Json), v.Recast v' →
        (e.call v value).1 = (s.call v' value).1) ∧
      ∀ index answer, (e.parked? index).map (fun handle => (Engine.settle handle answer e).1) =
        (s.parked? index).map fun handle => (Engine.settle handle answer s).1 := by
  have agrees := run_retold recast (e := start) ⟨rfl, .refl start.journal⟩
  refine ⟨agrees.state, agrees.journal, agrees.journal.essence, agrees.journal.settledBy,
    agrees.journal.invocations, agrees.outcome?, fun v v' value recast =>
      (call_retold agrees recast value).1, fun index answer => ?_⟩
  rw [agrees.parked? index]
  exact Option.map_congr fun handle _ => (settle_retold agrees handle answer).1

/-- A body that answers no at once. -/
def Body.refusing : Body := .test fun _ _ => false

/-- A body that settles its handle with no and then answers yes. -/
def Body.wavering : Body := .scripted fun _ _ _ => ⟨[.settle (.ok false)], .now true⟩

/-- One of two alternatives: the one with the given body, or one that waits. -/
def Validator.either (body : Body) : Validator :=
  ⟨2, [.group [.rule 0 "first" body false [], .rule 1 "waiting" .waiting false []]]⟩

theorem Validator.either_recast :
    (Validator.either .refusing).Recast (Validator.either .wavering) :=
  ⟨rfl, ⟨⟨rfl, rfl, fun _ _ _ => .inr ⟨false, rfl, rfl⟩, rfl, rfl⟩,
    ⟨rfl, rfl, fun _ _ _ => .inl rfl, rfl, rfl⟩, trivial⟩, trivial⟩

/-- The contradictory answer is of no effect: with the refusal of the other alternative, which comes
after the return, the call has failed in both runs. -/
theorem in_call_settlement_interchangeable_wavering :
    let e := Engine.empty.run [.call (.either .refusing) .null, .settle 0 (.ok false)]
    let s := Engine.empty.run [.call (.either .wavering) .null, .settle 0 (.ok false)]
    e.outcome? 0 = s.outcome? 0 ∧ Retold e.journal s.journal ∧
      e.journal.length = 8 ∧ s.journal.length = 10 := by
  have recast : List.Forall₂ Move.Recast
      [.call (.either .refusing) .null, .settle 0 (.ok false)]
      [.call (.either .wavering) .null, .settle 0 (.ok false)] :=
    .cons ⟨Validator.either_recast, rfl⟩ (.cons rfl .nil)
  obtain ⟨-, journal, -, -, -, outcomes, -⟩ :=
    in_call_settlement_interchangeable recast Engine.empty
  exact ⟨outcomes 0, journal, by rfl, by rfl⟩

end Criteria
