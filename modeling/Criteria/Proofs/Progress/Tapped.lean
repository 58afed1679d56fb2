import Criteria.Proofs.Progress.Submission
import Criteria.Proofs.Run.Conduct

/-!
# Submissions are what lists take in

`Conduct.tapped` is the engine with a log, to which each list adds the result of a member at the moment
when it takes it in, with the record that it then holds. The engine goes on as it does without the log, and
what is logged in a run are the submissions of the run (`Conduct.run_tapped`).
-/

namespace Criteria
set_option autoImplicit false

namespace Conduct

/-- Lists log what they take in. -/
def tapped : Conduct (Engine × List Submission) where
  shows s := s.1
  change act s := (act s.1, s.2)
  shows_change _ _ := rfl
  spares := false
  hears _ _ s := s
  takes member list result record s := (s.1, s.2 ++ [⟨member, list, result, record⟩])

/-- Whether a function does with a log what one of the engine does without, and logs what is said. -/
def Taps (act : Engine × List Submission → Engine × List Submission) (plain : Engine → Engine)
    (log : Engine → List Submission) : Prop :=
  ∀ e earlier, act (e, earlier) = (plain e, earlier ++ log e)

/-- Whether it also gives the same answer. -/
def TapsBoth {α : Type} (act : Engine × List Submission → α × Engine × List Submission)
    (plain : Engine → α × Engine) (log : Engine → List Submission) : Prop :=
  ∀ e earlier, act (e, earlier) = ((plain e).1, (plain e).2, earlier ++ log e)

theorem TapsBoth.taps {α : Type} {act : Engine × List Submission → α × Engine × List Submission}
    {plain : Engine → α × Engine} {log : Engine → List Submission} (h : TapsBoth act plain log) :
    Taps (fun s => (act s).2) (fun e => (plain e).2) log :=
  fun e earlier => congrArg Prod.snd (h e earlier)

/-! ## Delivering and settling -/

theorem complete_tapped (call : Nat) (result : Result) :
    TapsBoth (tapped.complete call result) (·.complete call result) fun _ => [] := by
  intro e earlier
  unfold complete Engine.complete
  dsimp only [tapped]
  rw [List.append_nil]
  cases e.calls.get? call with
  | none => rfl
  | some record =>
    obtain ⟨value, failure, returned, completed⟩ := record
    cases returned <;> cases result <;> rfl

theorem takeIn_tapped (p : Place) (combinator : Combinator) (value : Json) (member : Place)
    (result : Result) {next : Result → Engine × List Submission → Report × Engine × List Submission}
    {plain : Result → Engine → Report × Engine} {log : Result → Engine → List Submission}
    (further : ∀ decision, TapsBoth (next decision) (plain decision) (log decision)) :
    TapsBoth (tapped.takeIn p combinator value member result next)
      (·.takeIn p combinator value result plain)
      (Submission.takeIn p combinator value member result log) := by
  intro e earlier
  unfold takeIn Engine.takeIn Submission.takeIn
  dsimp only [tapped]
  cases e.lists.get? p with
  | none => rw [List.append_nil]
  | some record =>
    dsimp only
    generalize record.take combinator value result = intake
    cases intake.decision with
    | none => rfl
    | some decision =>
      dsimp only
      split
      · rw [further decision, List.append_assoc]
        rfl
      · rfl

theorem once_tapped (p : Place) {act : Engine × List Submission → Report × Engine × List Submission}
    {plain : Engine → Report × Engine} {log : Engine → List Submission}
    (acts : TapsBoth act plain log) :
    TapsBoth (tapped.once p act) (·.once p plain)
      fun e => if e.isSettled p then [] else log (e.markSettled p) := by
  intro e earlier
  dsimp only
  by_cases settled : e.isSettled p = true
  · have again : tapped.once p act (e, earlier) = (.ok (), e.note (.repeated p), earlier) :=
      if_pos settled
    rw [again, Engine.once, if_pos settled, if_pos settled, List.append_nil]
  · have first : tapped.once p act (e, earlier) = act (e.markSettled p, earlier) := if_neg settled
    rw [first, Engine.once, if_neg settled, if_neg settled]
    exact acts _ earlier

theorem detached_tapped (p : Place) :
    TapsBoth (tapped.once p fun s => (.ok (), s)) (·.once p fun e => (.ok (), e)) fun _ => [] := by
  have nothing : TapsBoth (fun s : Engine × List Submission => ((.ok () : Report), s))
      (fun e => (.ok (), e)) fun _ => [] :=
    fun _ earlier => congrArg (Prod.mk _) (Prod.ext rfl (List.append_nil earlier).symm)
  intro e earlier
  simpa only [ite_self] using once_tapped p nothing e earlier

theorem answer_tapped (p : Place) (question : Question) (given : Answer)
    {next : Result → Engine × List Submission → Report × Engine × List Submission}
    {plain : Result → Engine → Report × Engine} {log : Result → Engine → List Submission}
    (further : ∀ result, TapsBoth (next result) (plain result) (log result)) :
    TapsBoth (tapped.answer p question given next) (·.answer p question given plain)
      (Submission.answer p question given log) := by
  let judge (e : Engine) : Result := question.judge (e.templatesOf question.definition) given
  have judged : TapsBoth (tapped.judge p question given next)
      (fun e =>
        let after := plain (judge e) (e.note (.judged p given (judge e)))
        (after.1, after.2.note (.told p after.1)))
      fun e => log (judge e) (e.note (.judged p given (judge e))) := by
    intro e earlier
    have goes := further (judge e) (e.note (.judged p given (judge e))) earlier
    exact congrArg (fun after => (after.1, tapped.note (.told p after.1) after.2)) goes
  exact once_tapped p judged

/-- A result is taken in by the lists on its way. -/
theorem deliver_tapped : ∀ (route : Route) (source : Place) (result : Result),
    TapsBoth (tapped.deliver route source result) (Engine.deliver route result)
      (Submission.deliver route source result)
  | .call call, _, result => complete_tapped call result
  | .list p combinator value onward, source, result =>
    takeIn_tapped p combinator value source result (deliver_tapped onward p)
  | .detached p, _, _ => detached_tapped p
  | .answer p question onward, _, result =>
    answer_tapped p question (.ok result.holds) (deliver_tapped onward p)

theorem settle_tapped (handle : Handle) (given : Answer) :
    TapsBoth (tapped.settle handle given) (Engine.settle handle given)
      (Submission.settle handle given) := by
  cases handle with
  | detached p => exact detached_tapped p
  | asked p question onward => exact answer_tapped p question given (deliver_tapped onward p)

theorem settleFor_tapped (rule : String) (handle : Handle) (given : Answer) :
    Taps (tapped.settleFor rule handle given)
      (fun e => (Engine.settle handle given e).2.note
        (.settledBy rule (Engine.settle handle given e).1))
      (Submission.settle handle given) := by
  intro e earlier
  have told : tapped.settleFor rule handle given (e, earlier) =
      tapped.note (.settledBy rule (tapped.settle handle given (e, earlier)).1)
        (tapped.settle handle given (e, earlier)).2 := rfl
  rw [told, settle_tapped handle given e earlier]
  rfl

/-! ## Evaluating -/

theorem perform_tapped (rule : String) (own : Handle) (action : Action) :
    Taps (tapped.perform rule own · action) (·.perform rule own action)
      (Submission.perform own · action) := by
  intro e earlier
  cases action with
  | park => exact Prod.ext rfl (List.append_nil earlier).symm
  | settle given => exact settleFor_tapped rule own given e earlier
  | settleParked index given =>
    dsimp only [perform, Engine.perform, Submission.perform, tapped]
    cases e.parked? index with
    | none => rw [List.append_nil]
    | some handle => exact settleFor_tapped rule handle given e earlier

theorem performAll_tapped (rule : String) (own : Handle) : ∀ actions : List Action,
    Taps (actions.foldl (tapped.perform rule own)) (actions.foldl (Engine.perform rule own))
      (Submission.performAll rule own actions)
  | [] => fun _ earlier => Prod.ext rfl (List.append_nil earlier).symm
  | action :: actions => by
    intro e earlier
    have first := perform_tapped rule own action e earlier
    rw [Submission.performAll, ← List.append_assoc]
    exact (congrArg (actions.foldl (tapped.perform rule own)) first).trans
      (performAll_tapped rule own actions _ _)

theorem runList_tapped (combinator : Combinator) (size : Nat) (value : Json) (p : Place)
    (onward : Route) {start : Route → Engine × List Submission → Engine × List Submission}
    {plain : Route → Engine → Engine} {log : Route → Engine → List Submission}
    (starts : ∀ route, Taps (start route) (plain route) (log route)) :
    TapsBoth (tapped.runList combinator size value p onward start)
      (Engine.runList combinator size value p onward plain)
      (Submission.runList combinator size value p onward log) := by
  intro e earlier
  unfold runList Engine.runList Submission.runList
  split
  · exact congrArg (Prod.mk _) ((deliver_tapped onward p _).taps e earlier)
  · have started := starts (.list p combinator value onward) (e.putList p (.start combinator size))
      earlier
    exact congrArg (fun s => ((tapped.shows s).passed p, s)) started

theorem heed_tapped (handle : Handle) (reply : Reply) :
    Taps (fun s => tapped.heed handle (reply, s)) (fun e => Engine.heed handle (reply, e))
      fun e => Submission.heed handle (reply, e) := by
  cases reply with
  | now holds => exact (settle_tapped handle _).taps
  | later => exact fun _ earlier => Prod.ext rfl (List.append_nil earlier).symm

mutual

theorem evaluate_tapped (rule : String) (value : Json) (params : List Json) (p : Place)
    (handle : Handle) : (body : Body) →
    TapsBoth (tapped.evaluate rule value params p handle body)
      (Engine.evaluate rule value params p handle body)
      (Submission.evaluate rule value params p handle body)
  | .test holds => by
    intro e earlier
    rw [evaluate, Engine.evaluate, Submission.evaluate, List.append_nil]
    rfl
  | .scripted plan => by
    intro e earlier
    rw [evaluate, Engine.evaluate, Submission.evaluate]
    exact congrArg (Prod.mk _) (performAll_tapped rule handle _ _ earlier)
  | .validator age checks => by
    intro e earlier
    rw [evaluate, Engine.evaluate, Submission.evaluate]
    exact congrArg (Prod.mk _) ((runList_tapped .all checks.length value p handle.route
      (startAll_tapped value p 0 checks)).taps _ earlier)

theorem start_tapped (value : Json) (p : Place) (into : Route) : (check : Check) →
    Taps (tapped.start value p into check) (Engine.start value p into check)
      (Submission.start value p into check)
  | .rule definition name body negated params => by
    intro e earlier
    rw [start, Engine.start_rule, Submission.start, evaluate_tapped name value params p _ body e earlier,
      ← List.append_assoc]
    exact heed_tapped _ _ _ _
  | .group members => by
    intro e earlier
    rw [start, Engine.start, Submission.start]
    exact (runList_tapped .any members.length value p into
      (startAll_tapped value p 0 members)).taps e earlier

theorem startAll_tapped (value : Json) (p : Place) (position : Nat) : (checks : List Check) →
    ∀ into, Taps (tapped.startAll value p position checks into)
      (Engine.startAll value p position checks into)
      (Submission.startAll value p position checks into)
  | [] => by
    intro into e earlier
    rw [startAll, Engine.startAll, Submission.startAll, List.append_nil]
  | check :: rest => by
    intro into e earlier
    have shown : tapped.shows (e, earlier) = e := rfl
    rw [startAll, Engine.startAll, Submission.startAll, shown]
    split
    · rw [List.append_nil]
    · have first := start_tapped value (p.member position) into check e earlier
      have others := startAll_tapped value p (position + 1) rest into
      rw [← List.append_assoc]
      exact (congrArg _ first).trans (others _ _)

end

/-! ## Moves -/

theorem call_tapped (v : Validator) (value : Json) :
    TapsBoth (tapped.call v value) (·.call v value) (Submission.call v value) := by
  intro e earlier
  have ran := runList_tapped .all v.checks.length value (.ofCall e.calls.size) (.call e.calls.size)
    (startAll_tapped value (.ofCall e.calls.size) 0 v.checks) (e.enter value) earlier
  exact congrArg (tapped.conclude e.calls.size) ran

theorem evaluateLoose_tapped (d : Definition) (value : Json) (params : List Json)
    (handle : Option Handle) :
    Taps (fun s => (tapped.evaluateLoose d value params handle s).2.2)
      (fun e => (e.evaluateLoose d value params handle).2.2)
      (Submission.evaluateLoose d value params handle) := fun e earlier =>
  (evaluate_tapped d.name value params e.loosePlace _ d.body).taps e.takeLoose earlier

theorem move_tapped (m : Move) :
    Taps (tapped.move · m) (·.move m) (Submission.move · m) := by
  intro e earlier
  cases m with
  | call v value => exact (call_tapped v value).taps e earlier
  | settle index given =>
    dsimp only [move, Engine.move, Submission.move, tapped]
    cases e.parked? index with
    | none => rw [List.append_nil]
    | some handle => exact (settle_tapped handle given).taps e earlier
  | evaluate d value params handle =>
    cases handle with
    | none => exact evaluateLoose_tapped d value params none e earlier
    | some index =>
      dsimp only [move, Engine.move, Submission.move, tapped]
      cases e.parked? index with
      | none => rw [List.append_nil]
      | some handle => exact evaluateLoose_tapped d value params (some handle) e earlier
  | _ => exact Prod.ext rfl (List.append_nil earlier).symm

/-- **What lists take in along a run** are the submissions of the run, in order, and the run is that of the
engine. -/
theorem run_tapped : ∀ moves : List Move,
    Taps (tapped.run · moves) (·.run moves) (Submission.run moves)
  | [] => fun _ earlier => Prod.ext rfl (List.append_nil earlier).symm
  | m :: moves => by
    intro e earlier
    rw [Submission.run, ← List.append_assoc]
    exact (congrArg (tapped.run · moves) (move_tapped m e earlier)).trans (run_tapped moves _ _)

end Conduct
end Criteria
