import Criteria.Proofs.Progress.Rising
import Criteria.Proofs.Run.Reach

/-!
# All that a run submits is in time

Evaluation settles handles, and in between it only notes events, opens lists and keeps handles. So what the
evaluation of a body and of checks submits is in time by induction on the checks (`startAll_hands`), what a move
submits is (`move_hands`), and so is all that a run submits (`run_submits`).
-/

namespace Criteria
set_option autoImplicit false

variable {layout later : Layout} {active : Option Root} {e : Engine}

/-! ## Scripted bodies -/

theorem perform_hands (h : Sound layout e) (rule : String) {own : Handle} (lends : layout.Lends e.journal own)
    (action : Action) :
    Hands layout e.journal (Engine.perform rule own e action).journal (Submission.perform own e action) := by
  cases action with
  | park => exact .refl layout e.journal
  | settle answer => exact (settle_hands h lends.owns answer).noted fun _ => id
  | settleParked index answer =>
    rw [Engine.perform, Submission.perform]
    cases kept : e.parked? index with
    | none => exact .refl layout e.journal
    | some handle => exact (settle_hands h (h.lends_parked? kept).owns answer).noted fun _ => id

theorem performAll_hands (rule : String) {own : Handle} :
    ∀ (actions : List Action) {e : Engine}, Sound layout e → layout.Lends e.journal own → e.Held active own →
      Hands layout e.journal (actions.foldl (Engine.perform rule own) e).journal
        (Submission.performAll rule own actions e)
  | [], e, _, _, _ => .refl layout e.journal
  | action :: actions, _, h, lends, held =>
    have first := perform_runs h rule lends held action
    (perform_hands h rule lends action).trans
      (performAll_hands rule actions (first.sound h) (first.lends lends) (first.held held))

/-! ## Checks -/

theorem Submission.runList_of_inhabited (combinator : Combinator) {size : Nat} (inhabited : size ≠ 0)
    (value : Json) (place : Place) (onward : Route) (start : Route → Engine → List Submission) (e : Engine) :
    runList combinator size value place onward start e =
      start (.list place combinator value onward) (e.putList place (.start combinator size)) := by
  rw [runList, if_neg inhabited]

/-- Invoking a body submits nothing. -/
theorem invoked_hands (e : Engine) (p : Place) (rule : String) (scripted : Bool) (value : Json)
    (params : List Json) :
    Hands layout e.journal (e.note (.invoked p rule scripted value params)).journal [] :=
  .note (fun _ => id) e.journal

/-- What an evaluated body has answered is settled. -/
theorem heed_hands {handle : Handle} {evaluated : Reply × Engine} (h : Sound layout evaluated.2)
    (owns : layout.Owns evaluated.2.journal handle) :
    Hands layout evaluated.2.journal (Engine.heed handle evaluated).journal (Submission.heed handle evaluated) := by
  obtain ⟨reply, e⟩ := evaluated
  cases reply with
  | now holds => exact settle_hands h owns (.ok holds)
  | later => exact .refl layout e.journal

mutual

/-- Evaluating the body at a place. -/
theorem evaluate_hands (rule : String) (params : List Json) : (body : Body) →
    ∀ ⦃e : Engine⦄ ⦃value : Json⦄ ⦃p : Place⦄ ⦃handle : Handle⦄, Sound layout e →
      Invited layout active e body value p handle →
      Hands layout e.journal (Engine.evaluate rule value params p handle body e).2.journal
        (Submission.evaluate rule value params p handle body e)
  | .test holds => by
    intro e value p handle _ _
    rw [Engine.evaluate, Submission.evaluate]
    exact invoked_hands e p rule false value params
  | .scripted plan => by
    intro e value p handle h invited
    have begun := invited.invoke (by simp) rule true params
    have owned := invited.owns _ ⟨_, _, _, _, List.mem_cons_self⟩ begun.grows.journal.suffix
    rw [Engine.evaluate, Submission.evaluate]
    exact (invoked_hands e p rule true value params).trans
      (performAll_hands rule _ (begun.sound h) ⟨owned, invited.free (by simp)⟩ (begun.held invited.held))
  | .validator age checks => by
    intro e value p handle h invited
    rw [Engine.evaluate, Submission.evaluate]
    by_cases empty : checks = []
    · subst empty
      have begun := Grows.invoke e p rule false value params
      have owned := invited.owns _ ⟨_, _, _, _, List.mem_cons_self⟩ begun.journal.suffix
      have invoked := h.invoke rule false value params invited.above invited.root
      refine (invoked_hands e p rule false value params).trans ?_
      cases handle with
      | detached q => exact settle_hands invoked owned (.ok true)
      | asked q question onward => exact settle_hands invoked owned (.ok true)
    · obtain ⟨found, -, sound, opened, fresh⟩ := invited.opens h empty rule params
      rw [runList_of_inhabited _ (by simpa using empty), Submission.runList_of_inhabited _ (by simpa using empty)]
      exact (invoked_hands e p rule false value params).trans
        (startAll_hands checks found (fun j check here => by rwa [Nat.zero_add]) invited.mine sound opened
          fun j _ => fresh j)

/-- Starting the check of a member. -/
theorem start_hands : (check : Check) → ∀ ⦃e : Engine⦄ ⦃p : Place⦄ ⦃i : Nat⦄ ⦃o : Opening⦄,
      layout.opening? p = some o → o.checks[i]? = some check → active = some p.root → Sound layout e →
      e.Opened p → e.Fresh (p.member i) →
      Hands layout e.journal (Engine.start o.value (p.member i) (o.route p) check e).journal
        (Submission.start o.value (p.member i) (o.route p) check e)
  | .rule definition name body negated params => by
    intro e p i o found here mine h opened fresh
    have invited := invited_member mine found here opened fresh
    obtain ⟨evaluated, issued, -⟩ := evaluate_runs name params body e o.value (p.member i) _ h invited
    rw [Engine.start_rule, Submission.start]
    exact (evaluate_hands name params body h invited).trans
      (heed_hands (evaluated.sound h) (invited.owns _ issued evaluated.grows.journal.suffix))
  | .group members => by
    intro e p i o found here mine h opened fresh
    obtain ⟨member, inhabited, opens⟩ := openGroup_runs mine found here h opened fresh
    rw [Engine.start, Submission.start, runList_of_inhabited _ (by simpa using inhabited),
      Submission.runList_of_inhabited _ (by simpa using inhabited)]
    exact startAll_hands members member (fun j check here => by rwa [Nat.zero_add]) mine (opens.sound h)
      (Engine.opened_putList.2 (.inl rfl)) fun j _ => (fresh.member j).grows opens.grows

/-- Starting the checks of a list from a position on. -/
theorem startAll_hands : (checks : List Check) → ∀ ⦃e : Engine⦄ ⦃p : Place⦄ ⦃k : Nat⦄ ⦃o : Opening⦄,
      layout.opening? p = some o → (∀ j check, checks[j]? = some check → o.checks[k + j]? = some check) →
      active = some p.root → Sound layout e → e.Opened p → (∀ j, k ≤ j → e.Fresh (p.member j)) →
      Hands layout e.journal (Engine.startAll o.value p k checks (o.route p) e).journal
        (Submission.startAll o.value p k checks (o.route p) e)
  | [] => by
    intro e p k o _ _ _ _ _ _
    rw [Engine.startAll, Submission.startAll]
    exact .refl layout e.journal
  | check :: rest => by
    intro e p k o found here mine h opened fresh
    rw [Engine.startAll, Submission.startAll]
    split
    · exact .refl layout e.journal
    · have head : o.checks[k]? = some check := here 0 check rfl
      have free := fresh k (Nat.le_refl k)
      obtain ⟨first, -⟩ := start_runs check found head mine h opened free
      exact (start_hands check found head mine h opened free).trans
        (startAll_hands rest found (getElem?_rest here) mine (first.sound h) (first.grows.opened p opened)
          (Engine.Fresh.after fresh first.grows))

end

/-! ## Moves -/

/-- A call, laid out. -/
theorem call_hands (h : Sound layout e) {v : Validator} (wf : v.wellFormed = true) (value : Json) :
    Hands (layout.withCall e.calls.size v.checks value) e.journal (e.call v value).2.journal
      (Submission.call v value e) := by
  by_cases empty : v.checks = []
  · rw [Engine.call_of_empty empty, Submission.call, Submission.runList, if_pos (by simp [empty])]
    exact (complete_hands e.calls.size (.ok true) (e.enter value)).noted fun _ => id
  · have here : (layout.withCall e.calls.size v.checks value).opening? (.ofCall e.calls.size) =
      some (.ofCall e.calls.size v.checks value) := layout.withCall_self e.calls.size v.checks value
    obtain ⟨opens, opened, fresh⟩ := opened_runs h empty value
    rw [Engine.call_of_inhabited empty, Submission.call,
      Submission.runList_of_inhabited _ (by simpa using empty)]
    refine Submits.noted ?_ fun _ => id
    exact startAll_hands v.checks here (fun j check found => by rwa [Nat.zero_add]) rfl
      (opens.sound (h.enter wf empty value)) opened fun j _ => fresh j

/-- A loose evaluation, laid out. -/
theorem evaluateLoose_hands (h : Sound layout e) {d : Definition} (built : d.body.Built) (value : Json)
    (params : List Json) {handle : Handle} (lends : layout.Lends e.journal handle)
    (kept : some handle ∈ e.parked ∨ handle = .detached e.loosePlace) :
    ∃ later, Trace (layout, e)
        (later, (Engine.evaluate d.name value params e.loosePlace handle d.body e.takeLoose).2) ∧
      Hands later e.journal (Engine.evaluate d.name value params e.loosePlace handle d.body e.takeLoose).2.journal
        (Submission.evaluate d.name value params e.loosePlace handle d.body e.takeLoose) := by
  obtain ⟨later, begins, -, invited⟩ := evaluate_invited h built value lends kept
  have runs := (evaluate_runs d.name params d.body _ value _ handle (begins.sound h) invited).1
  exact ⟨later, .trans (.single begins) (runs.steady fun _ impossible => by cases impossible).trace,
    evaluate_hands d.name params d.body (begins.sound h) invited⟩

/-- **What a move submits is in time.** -/
theorem move_hands (h : Sound layout e) {m : Move} (valid : m.Valid) :
    ∃ later, Trace (layout, e) (later, e.move m) ∧
      Hands later e.journal (e.move m).journal (Submission.move e m) := by
  cases m with
  | call v value =>
    obtain ⟨-, steady, -⟩ := call_made h (Validator.Built.wellFormed valid) value
    exact ⟨_, steady.trace, call_hands h (Validator.Built.wellFormed valid) value⟩
  | evaluate d value params handle =>
    cases handle with
    | none =>
      have lends : layout.Lends e.journal (.detached e.loosePlace) := ⟨rfl, trivial⟩
      exact evaluateLoose_hands h valid value params lends (.inr rfl)
    | some index =>
      rw [Engine.move, Submission.move]
      cases kept : e.parked? index with
      | none => exact ⟨layout, .refl, .refl layout e.journal⟩
      | some handle =>
        exact evaluateLoose_hands h valid value params (h.lends_parked? kept)
          (.inl (Engine.mem_of_parked? kept))
  | settle index answer =>
    refine ⟨layout, move_trace_stays h valid id, ?_⟩
    rw [Engine.move, Submission.move]
    cases kept : e.parked? index with
    | none => exact .refl layout e.journal
    | some handle => exact settle_hands h (h.lends_parked? kept).owns answer
  | log event =>
    exact ⟨layout, move_trace_stays h valid id,
      .note (Event.Logged.silent valid).plain.untouched e.journal⟩
  | drop | make | define | setTemplate =>
    exact ⟨layout, move_trace_stays h valid id, .refl layout e.journal⟩

/-- What is submitted from the very beginning. -/
abbrev Submitted (layout : Layout) : Journal → List Submission → Prop :=
  Submits layout (fun _ => []) []

/-- Lists that are not laid out yet have not been submitted anything. -/
theorem Submitted.extend {log : List Submission} (submitted : Submitted layout e.journal log)
    (h : Placed layout e) (ext : layout.Extends later) : Submitted later e.journal log :=
  Submits.extend submitted ext fun p o _ unknown =>
    Opening.results_eq_nil (h.untouched fun opened => by
      obtain ⟨own, found⟩ := h.opened p opened
      cases unknown.symm.trans found)

/-- **What a run submits is in time.** -/
theorem run_submits {moves : List Move} : ∀ {layout : Layout} {e : Engine} {log : List Submission},
    Sound layout e → (∀ m ∈ moves, m.Valid) → Submitted layout e.journal log →
      ∃ later, Trace (layout, e) (later, e.run moves) ∧
        Submitted later (e.run moves).journal (log ++ Submission.run moves e) := by
  induction moves with
  | nil =>
    intro layout e log _ _ submitted
    rw [Submission.run, List.append_nil]
    exact ⟨layout, .refl, submitted⟩
  | cons m moves ih =>
    intro layout e log h valid submitted
    obtain ⟨middle, first, hands⟩ := move_hands h (valid m List.mem_cons_self)
    have goes := (submitted.extend h.toPlaced (Trace.follows first h).layout).trans hands
    obtain ⟨later, rest, all⟩ := ih (Trace.sound first h) (fun m mem => valid m (List.mem_cons_of_mem _ mem)) goes
    rw [List.append_assoc] at all
    exact ⟨later, first.trans rest, all⟩

end Criteria
