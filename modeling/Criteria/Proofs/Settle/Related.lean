import Criteria.Proofs.Run.Conduct
import Criteria.Proofs.Settle.Agreement

/-!
# Two runs side by side

Two conducts may differ in what completions do, in what is recorded, and in whether settled handles are
settled again. If a relation of their states is kept by each of these and by each single change of the
engines (`Conduct.Related`), then it is kept by all parts of the engine, and what they give back is the
same: the changes are the same in both as long as nothing but the journals tells the engines apart.
-/

namespace Criteria
set_option autoImplicit false

/-- The single changes of an engine that runs are made of. -/
inductive Engine.Change : (Engine → Engine) → Prop where
  | note {event : Event} (other : ∀ p, event ≠ .repeated p) : Change (·.note event)
  | markSettled (p : Place) : Change (·.markSettled p)
  | putList (p : Place) (progress : Progress) : Change (·.putList p progress)
  | updateCall (call : Nat) (update : Call → Call) : Change (·.updateCall call update)
  | enter (value : Json) : Change (·.enter value)
  | park (handle : Handle) : Change (·.park handle)
  | dropParked (index : Nat) : Change (·.dropParked index)
  | parkDetached : Change (·.parkDetached)
  | takeLoose : Change (·.takeLoose)
  | define (templates : Templates) : Change (·.define templates)
  | setTemplate (definition : Nat) (negated : Bool) (template : Option String) :
      Change (·.setTemplate definition negated template)

namespace Conduct

section

variable {σ : Type} (c : Conduct σ)

/-- A scripted body settles a settled handle, and notes that it was told nothing. -/
def void (rule : String) (p : Place) (s : σ) : σ :=
  if c.spares then s else c.note (.settledBy rule (.ok ())) (c.note (.repeated p) s)

variable {c} {s : σ} {handle : Handle}

theorem settle_again (settled : (c.shows s).isSettled handle.place = true) (answer : Answer) :
    c.settle handle answer s = (.ok (), c.again handle.place s) := by
  cases handle <;> exact if_pos settled

theorem once_first {p : Place} (unsettled : (c.shows s).isSettled p = false)
    (act : σ → Report × σ) : c.once p act s = act (c.change (·.markSettled p) s) :=
  if_neg (Bool.eq_false_iff.1 unsettled)

theorem deliver_again (settled : (c.shows s).isSettled handle.place = true) (source : Place)
    (result : Result) :
    c.deliver handle.route source result s = (.ok (), c.again handle.place s) := by
  cases handle <;> exact if_pos settled

theorem settleFor_again (settled : (c.shows s).isSettled handle.place = true) (rule : String)
    (answer : Answer) : c.settleFor rule handle answer s = c.void rule handle.place s := by
  rw [settleFor, settle_again settled, settled, Bool.and_true, void, again]
  split <;> rfl

theorem settleFor_first (unsettled : (c.shows s).isSettled handle.place = false) (rule : String)
    (answer : Answer) : c.settleFor rule handle answer s =
      c.note (.settledBy rule (c.settle handle answer s).1) (c.settle handle answer s).2 := by
  rw [settleFor, unsettled, Bool.and_false]
  rfl

end

variable {α σ τ : Type}

/-- The same answer, and states that are related. -/
def Tandem (R : σ → τ → Prop) (a : α × σ) (b : α × τ) : Prop := a.1 = b.1 ∧ R a.2 b.2

/-- A relation of states that are the same but for the journals, which is kept by all that two conducts
do at a time. -/
structure Related (c : Conduct σ) (d : Conduct τ) (R : σ → τ → Prop) : Prop where
  silenced : ∀ {s t}, R s t → (c.shows s).silenced = (d.shows t).silenced
  change : ∀ {s t act}, R s t → Engine.Change act → R (c.change act s) (d.change act t)
  again : ∀ {s t p}, R s t → (c.shows s).isSettled p = true → R (c.again p s) (d.again p t)
  void : ∀ {s t p} (rule : String), R s t → (c.shows s).isSettled p = true →
    R (c.void rule p s) (d.void rule p t)
  hears : ∀ {s t} (call : Nat) (result : Result), R s t → R (c.hears call result s) (d.hears call result t)
  takes : ∀ {s t} (member p : Place) (result : Result) (progress : Progress), R s t →
    R (c.takes member p result progress s) (d.takes member p result progress t)

namespace Related

variable {c : Conduct σ} {d : Conduct τ} {R : σ → τ → Prop} (h : Related c d R) {s : σ} {t : τ}
include h

/-- What is read off the engines is the same. -/
theorem agrees (r : R s t) : Agrees (fun _ _ => True) (c.shows s) (d.shows t) :=
  ⟨h.silenced r, trivial⟩

theorem note (r : R s t) {event : Event} (other : ∀ p, event ≠ .repeated p) :
    R (c.note event s) (d.note event t) :=
  h.change r (.note other)

/-! ## Delivering and settling -/

theorem complete (r : R s t) (call : Nat) (result : Result) :
    Tandem R (c.complete call result s) (d.complete call result t) := by
  unfold Conduct.complete
  rw [(h.agrees r).calls]
  split
  · exact ⟨rfl, r⟩
  · exact ⟨rfl, h.change r (.updateCall _ _)⟩
  · exact ⟨rfl, h.hears _ _ (h.note (h.change r (.updateCall _ _)) nofun)⟩

theorem takeIn (r : R s t) (p : Place) (combinator : Combinator) (value : Json) (member : Place)
    (result : Result) {next : Result → σ → Report × σ} {next' : Result → τ → Report × τ}
    (further : ∀ (decision : Result) ⦃s t⦄, R s t → Tandem R (next decision s) (next' decision t)) :
    Tandem R (c.takeIn p combinator value member result next s)
      (d.takeIn p combinator value member result next' t) := by
  unfold Conduct.takeIn
  rw [(h.agrees r).list p]
  cases (d.shows t).lists.get? p with
  | none => exact ⟨rfl, r⟩
  | some progress =>
    have taken := h.takes member p result progress r
    dsimp only
    generalize progress.take combinator value result = intake
    cases intake.decision with
    | none => exact ⟨rfl, h.change taken (.putList p _)⟩
    | some decision =>
      dsimp only
      have put := h.change taken (.putList p { intake.progress with awaited := false })
      split
      · obtain ⟨told, after⟩ := further decision put
        exact ⟨congrArg (combinator.tell intake.report) told, after⟩
      · exact ⟨rfl, put⟩

theorem once (r : R s t) (p : Place) {act : σ → Report × σ} {act' : τ → Report × τ}
    (acts : ∀ ⦃s t⦄, R s t → Tandem R (act s) (act' t)) :
    Tandem R (c.once p act s) (d.once p act' t) := by
  unfold Conduct.once
  rw [← (h.agrees r).isSettled p]
  split
  · next settled => exact ⟨rfl, h.again r settled⟩
  · exact acts (h.change r (.markSettled p))

theorem judge (r : R s t) (p : Place) (question : Question) (answer : Answer)
    {next : Result → σ → Report × σ} {next' : Result → τ → Report × τ}
    (further : ∀ (result : Result) ⦃s t⦄, R s t → Tandem R (next result s) (next' result t)) :
    Tandem R (c.judge p question answer next s) (d.judge p question answer next' t) := by
  unfold Conduct.judge
  rw [(h.agrees r).templatesOf]
  have judged : ∀ result, R (c.note (.judged p answer result) s) (d.note (.judged p answer result) t) :=
    fun _ => h.note r nofun
  obtain ⟨told, after⟩ := further (question.judge ((d.shows t).templatesOf _) answer) (judged _)
  refine ⟨told, ?_⟩
  dsimp only
  rw [told]
  exact h.note after nofun

theorem answer (r : R s t) (p : Place) (question : Question) (answer : Answer)
    {next : Result → σ → Report × σ} {next' : Result → τ → Report × τ}
    (further : ∀ (result : Result) ⦃s t⦄, R s t → Tandem R (next result s) (next' result t)) :
    Tandem R (c.answer p question answer next s) (d.answer p question answer next' t) :=
  h.once r p fun _ _ r => h.judge r p question answer further

/-- A result goes the same way. -/
theorem deliver : ∀ (route : Route) (source : Place) (result : Result) ⦃s t⦄, R s t →
    Tandem R (c.deliver route source result s) (d.deliver route source result t)
  | .call call, _, result, _, _, r => h.complete r call result
  | .list p combinator value onward, source, result, _, _, r =>
    h.takeIn r p combinator value source result fun decision _ _ r => deliver onward p decision r
  | .detached p, _, _, _, _, r => h.once r p fun _ _ r => ⟨rfl, r⟩
  | .answer p question onward, _, result, _, _, r =>
    h.answer r p question (.ok result.holds) fun decision _ _ r => deliver onward p decision r

theorem settle (r : R s t) (handle : Handle) (answer : Answer) :
    Tandem R (c.settle handle answer s) (d.settle handle answer t) := by
  cases handle with
  | detached p => exact h.once r p fun _ _ r => ⟨rfl, r⟩
  | asked p question onward => exact h.answer r p question answer (h.deliver onward p)

theorem settleFor (r : R s t) (rule : String) (handle : Handle) (answer : Answer) :
    R (c.settleFor rule handle answer s) (d.settleFor rule handle answer t) := by
  have same := (h.agrees r).isSettled handle.place
  cases settled : (c.shows s).isSettled handle.place with
  | true =>
    rw [settleFor_again settled, settleFor_again (same.symm.trans settled)]
    exact h.void rule r settled
  | false =>
    rw [settleFor_first settled, settleFor_first (same.symm.trans settled)]
    obtain ⟨told, after⟩ := h.settle r handle answer
    rw [told]
    exact h.note after nofun

/-! ## Evaluating -/

theorem perform (r : R s t) (rule : String) (own : Handle) (action : Action) :
    R (c.perform rule own s action) (d.perform rule own t action) := by
  cases action with
  | park => exact h.change r (.park own)
  | settle answer => exact h.settleFor r rule own answer
  | settleParked index answer =>
    rw [Conduct.perform, Conduct.perform, (h.agrees r).parked? index]
    cases (d.shows t).parked? index with
    | none => exact r
    | some handle => exact h.settleFor r rule handle answer

theorem performAll (rule : String) (own : Handle) : ∀ (actions : List Action) {s : σ} {t : τ}, R s t →
    R (actions.foldl (c.perform rule own) s) (actions.foldl (d.perform rule own) t)
  | [], _, _, r => r
  | action :: actions, _, _, r => performAll rule own actions (h.perform r rule own action)

theorem runList (r : R s t) (combinator : Combinator) (size : Nat) (value : Json) (p : Place)
    (onward : Route) {start : Route → σ → σ} {start' : Route → τ → τ}
    (starts : ∀ (route : Route) ⦃s t⦄, R s t → R (start route s) (start' route t)) :
    Tandem R (c.runList combinator size value p onward start s)
      (d.runList combinator size value p onward start' t) := by
  unfold Conduct.runList
  split
  · exact ⟨rfl, (h.deliver onward p _ r).2⟩
  · have started := starts (.list p combinator value onward)
      (h.change r (.putList p (.start combinator size)))
    exact ⟨(h.agrees started).passed p, started⟩

theorem heed {a : Reply × σ} {b : Reply × τ} (tandem : Tandem R a b) (handle : Handle) :
    R (c.heed handle a) (d.heed handle b) := by
  obtain ⟨reply, s⟩ := a
  obtain ⟨reply', t⟩ := b
  obtain ⟨same, r⟩ := tandem
  obtain rfl : reply = reply' := same
  cases reply with
  | now holds => exact (h.settle r handle _).2
  | later => exact r

mutual

theorem evaluate (rule : String) (params : List Json) : (body : Body) →
    ∀ (value : Json) (p : Place) (handle : Handle) ⦃s : σ⦄ ⦃t : τ⦄, R s t →
      Tandem R (c.evaluate rule value params p handle body s)
        (d.evaluate rule value params p handle body t)
  | .test holds => by
    intro value p handle s t r
    rw [Conduct.evaluate, Conduct.evaluate]
    exact ⟨rfl, h.note r nofun⟩
  | .scripted plan => by
    intro value p handle s t r
    rw [Conduct.evaluate, Conduct.evaluate]
    exact ⟨rfl, h.performAll rule handle _ (h.note r nofun)⟩
  | .validator age checks => by
    intro value p handle s t r
    rw [Conduct.evaluate, Conduct.evaluate]
    have invoked : R (c.note (.invoked p rule false value params) s)
        (d.note (.invoked p rule false value params) t) := h.note r nofun
    exact ⟨rfl, (h.runList invoked .all checks.length value p handle.route
      fun into _ _ r => Related.startAll checks value p 0 into r).2⟩

theorem start : (check : Check) → ∀ (value : Json) (p : Place) (into : Route) ⦃s : σ⦄ ⦃t : τ⦄, R s t →
    R (c.start value p into check s) (d.start value p into check t)
  | .rule definition name body negated params => by
    intro value p into s t r
    rw [Conduct.start, Conduct.start]
    exact h.heed (Related.evaluate name params body value p _ r) _
  | .group members => by
    intro value p into s t r
    rw [Conduct.start, Conduct.start]
    exact (h.runList r .any members.length value p into
      fun into _ _ r => Related.startAll members value p 0 into r).2

theorem startAll : (checks : List Check) → ∀ (value : Json) (p : Place) (position : Nat)
    (into : Route) ⦃s : σ⦄ ⦃t : τ⦄, R s t →
      R (c.startAll value p position checks into s) (d.startAll value p position checks into t)
  | [] => by
    intro value p position into s t r
    rw [Conduct.startAll, Conduct.startAll]
    exact r
  | check :: rest => by
    intro value p position into s t r
    rw [Conduct.startAll, Conduct.startAll, (h.agrees r).isRejected p]
    split
    · exact r
    · exact Related.startAll rest value p (position + 1) into (Related.start check value _ into r)

end

/-! ## Moves -/

theorem conclude {a : Bool × σ} {b : Bool × τ} (tandem : Tandem R a b) (call : Nat) :
    Tandem R (c.conclude call a) (d.conclude call b) := by
  obtain ⟨passed, s⟩ := a
  obtain ⟨passed', t⟩ := b
  obtain ⟨same, r⟩ := tandem
  obtain rfl : passed = passed' := same
  have r : R s t := r
  simp only [Conduct.conclude, (h.agrees r).calls]
  exact ⟨rfl, h.note (h.change r (.updateCall call _)) nofun⟩

/-- A call returns the same. -/
theorem call (r : R s t) (v : Validator) (value : Json) :
    Tandem R (c.call v value s) (d.call v value t) := by
  rw [Conduct.call, Conduct.call, (h.agrees r).calls]
  exact h.conclude (h.runList (h.change r (.enter value)) .all _ value _ _ fun into _ _ r =>
    h.startAll v.checks value _ 0 into r) _

/-- A body that is evaluated by itself replies the same, and leaves its handle settled or not. -/
theorem evaluateLoose (r : R s t) (definition : Definition) (value : Json) (params : List Json)
    (handle : Option Handle) :
    Tandem (Tandem R) (c.evaluateLoose definition value params handle s)
      (d.evaluateLoose definition value params handle t) := by
  unfold Conduct.evaluateLoose
  rw [(h.agrees r).loosePlace]
  obtain ⟨replies, after⟩ := h.evaluate definition.name params definition.body value
    (d.shows t).loosePlace (handle.getD (.detached (d.shows t).loosePlace)) (h.change r .takeLoose)
  exact ⟨replies, (h.agrees after).isSettled _, after⟩

/-- A move keeps the relation if noting its event does. -/
theorem move (r : R s t) (m : Move)
    (log : ∀ event, m = .log event → R (c.note event s) (d.note event t)) :
    R (c.move s m) (d.move t m) := by
  cases m with
  | call v value => exact (h.call r v value).2
  | settle index answer =>
    rw [Conduct.move, Conduct.move, (h.agrees r).parked? index]
    cases (d.shows t).parked? index with
    | none => exact r
    | some handle => exact (h.settle r handle answer).2
  | drop index => exact h.change r (.dropParked index)
  | make => exact h.change r .parkDetached
  | evaluate definition value params handle =>
    cases handle with
    | none => exact (h.evaluateLoose r definition value params none).2.2
    | some index =>
      rw [Conduct.move, Conduct.move, (h.agrees r).parked? index]
      cases (d.shows t).parked? index with
      | none => exact r
      | some handle => exact (h.evaluateLoose r definition value params handle).2.2
  | define templates => exact h.change r (.define templates)
  | setTemplate definition negated template => exact h.change r (.setTemplate definition negated template)
  | log event => exact log event rfl

/-- **A run keeps the relation** if noting the events from outside does. -/
theorem run : ∀ {moves : List Move},
    (∀ event, .log event ∈ moves → ∀ {s t}, R s t → R (c.note event s) (d.note event t)) →
    ∀ {s t}, R s t → R (c.run s moves) (d.run t moves)
  | [], _, _, _, r => r
  | m :: moves, log, _, _, r => by
    have first := h.move r m fun event same => log event (same ▸ List.mem_cons_self) r
    exact run (fun event mem => log event (List.mem_cons_of_mem _ mem)) first

end Related
end Conduct
end Criteria
