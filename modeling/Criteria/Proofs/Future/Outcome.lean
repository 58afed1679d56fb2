import Criteria.Proofs.Future.Abandoned
import Criteria.Proofs.Future.Replacement
import Criteria.Proofs.Nested.Clause

/-!
# The outcome of a future

A future stands for a call. It is ready with what the call returned if that is a failure, and otherwise
with what the completion of the call receives. As long as the completion has received nothing, the
future is pending if a kept handle leads to the call, and abandoned if none does; then the completion
never runs. A call is abandoned only if a handle of its own, or of the validators that it uses as rules,
was dropped unsettled.
-/

namespace Criteria
set_option autoImplicit false

/-! ## Handles that are still there -/

namespace Engine

/-- Whether the way of a result to where it goes passes the handle of a place. -/
def leadsThrough (e : Engine) (p : Place) : Route → Bool
  | .call _ => false
  | .list place _ _ onward => e.isAwaited place && e.leadsThrough p onward
  | .detached place => place == p
  | .answer place _ onward => place == p || (!e.isSettled place && e.leadsThrough p onward)

/-- Whether the handle of a place is still there: it is kept, or a validator that answers through it
waits for a handle that is kept. -/
def Keeps (e : Engine) (p : Place) : Prop :=
  ∃ handle, some handle ∈ e.parked ∧ e.leadsThrough p handle.route = true

/-- Whether the handle of a place was handed out and is gone without having been settled. -/
def Dropped (e : Engine) (p : Place) : Prop :=
  Issued p e.journal ∧ e.isSettled p = false ∧ ¬ e.Keeps p

end Engine

section

variable {layout : Layout} {e : Engine} {call : Nat}

/-- What passes an unsettled handle leads where the handle leads. -/
theorem Placed.leadsTo_of_leadsThrough (h : Placed layout e) {p : Place} {handle : Handle}
    (handed : layout.handle? p = some handle) (leads : e.leadsTo call handle.route = true) :
    (route : Route) → layout.Begun e route → e.leadsThrough p route = true →
      e.leadsTo call route = true
  | .call _, _ => fun impossible => by cases impossible
  | .detached q, root => fun passes => by
    obtain rfl : q = p := eq_of_beq passes
    rw [Layout.handle?, root] at handed
    cases handed
  | .list q combinator value onward, ⟨⟨o, found, same⟩, opened⟩ => by
    obtain ⟨-, -, rfl⟩ : o.combinator = combinator ∧ o.value = value ∧ o.onward = onward := by
      simpa [Opening.route] using same
    simp only [Engine.leadsThrough, Engine.leadsTo, Bool.and_eq_true]
    exact And.imp id (h.leadsTo_of_leadsThrough handed leads o.onward (h.begun_onward found opened))
  | .answer q question onward, owns => by
    intro passes
    rw [Engine.leadsThrough, Bool.or_eq_true] at passes
    obtain here | further := passes
    · obtain rfl : q = p := eq_of_beq here
      cases handed.symm.trans owns.1
      exact leads
    · simp only [Bool.and_eq_true] at further
      rw [Engine.leadsTo, further.1, h.leadsTo_of_leadsThrough handed leads onward
        (h.begun_judgement owns) further.2]
      rfl

/-! ## The outcome of a call that has returned -/

variable {v : Validator} {value : Json} {result : Result} {before : Journal}

/-- What an engine has on record of a call that has returned. -/
theorem Sound.call_record (h : Sound layout e)
    (root : layout (.call call) = some (.ofCall call v.checks value))
    (returned : returned? call e.journal = some (result, before)) : ∃ failure,
      e.calls.get? call =
        some ⟨value, failure, some result, (completions call e.journal).head?⟩ := by
  obtain ⟨⟨⟨tested, failure, answer, completed⟩, held, tests, same, -, received⟩, -⟩ :=
    h.reported call _ root
  rw [returned] at same
  obtain rfl : tested = value := tests
  obtain rfl : answer = some result := same
  obtain rfl : completed = (completions call e.journal).head? := received
  exact ⟨failure, held⟩

theorem Sound.outcome?_of_failed (h : Sound layout e)
    (root : layout (.call call) = some (.ofCall call v.checks value)) {f : Failure}
    (returned : returned? call e.journal = some (.error f, before)) :
    e.outcome? call = some (.error f) := by
  obtain ⟨failure, held⟩ := h.call_record root returned
  rw [Engine.outcome?, held]

theorem Sound.outcome?_of_received (h : Sound layout e)
    (root : layout (.call call) = some (.ofCall call v.checks value)) {received : Result}
    (returned : returned? call e.journal = some (.ok true, before))
    (mem : received ∈ completions call e.journal) : e.outcome? call = some received := by
  obtain ⟨failure, held⟩ := h.call_record root returned
  obtain ⟨-, all⟩ := h.delivered_of_accepted root returned
  rw [all, Option.mem_toList] at mem
  rw [all, mem, Option.toList_some, List.head?_cons] at held
  rw [Engine.outcome?, held]

theorem Sound.outcome?_of_silent (h : Sound layout e)
    (root : layout (.call call) = some (.ofCall call v.checks value))
    (returned : returned? call e.journal = some (.ok true, before))
    (silent : completions call e.journal = []) :
    e.outcome? call = if e.canComplete call then none else some (.error (.abandoned value)) := by
  obtain ⟨failure, held⟩ := h.call_record root returned
  rw [silent] at held
  rw [Engine.outcome?, held]
  rfl

/-- **A call is abandoned only if a handle was dropped** that its clauses, or those of validators in it,
had handed out. -/
theorem Sound.canComplete_of_kept (h : Sound layout e) (relayed : Relayed layout e.journal)
    (root : layout (.call call) = some (.ofCall call v.checks value))
    (undecided : (Opening.ofCall call v.checks value).decision? (.ofCall call) e.journal = none)
    (started : Check.AllStarted value (.ofCall call) e.journal 0 v.checks)
    (kept : ∀ path definition name body negated params,
      v.clauseAt? path = some (.rule definition name body negated params) →
        body.isValidator = false → ¬ e.Dropped ⟨.call call, path⟩) :
    e.canComplete call = true := by
  have found : layout.opening? (.ofCall call) = some (.ofCall call v.checks value) := root
  obtain ⟨path, definition, name, body, negated, params, clause, leaf, issued, unsettled, handle,
    handed, leads⟩ := Validator.clause_of_waits root
      (h.waits_of_list found undecided started (Check.allWait h relayed v.checks))
  have leads := leads (beq_self_eq_true call)
  obtain ⟨holder, mem, passes⟩ : e.Keeps ⟨.call call, path⟩ :=
    Classical.byContradiction fun gone =>
      kept path definition name body negated params clause leaf ⟨issued, unsettled, gone⟩
  cases can : e.canComplete call with
  | true => rfl
  | false =>
    have reaches := h.toPlaced.leadsTo_of_leadsThrough handed leads holder.route
      (h.parked holder mem).owns.begun passes
    rw [Engine.canComplete_eq_false.1 can holder mem] at reaches
    cases reaches

/-- **What is abandoned stays so**: the completion never receives anything. -/
theorem Sound.abandoned (h : Sound layout e)
    (root : layout (.call call) = some (.ofCall call v.checks value))
    (silent : completions call e.journal = []) (cut : e.canComplete call = false)
    {further : List Move} (valid : ∀ m ∈ further, m.Valid) :
    completions call (e.run further).journal = [] ∧
      (e.run further).outcome? call = e.outcome? call := by
  obtain ⟨same, cut'⟩ := run_apart h valid (h.calls call _ root).2.2 cut
  obtain ⟨later, course⟩ := run_course h valid
  have after := Trace.sound course.trace h
  have root' := (Trace.follows course.trace h).layout _ _ root
  obtain ⟨⟨c, held, -, -, -, received⟩, -⟩ := h.reported call _ root
  obtain ⟨⟨c', held', -, -, -, received'⟩, -⟩ := after.reported call _ root'
  obtain rfl : c' = c := Option.some.inj (held'.symm.trans (same.trans held))
  refine ⟨?_, by rw [Engine.outcome?, Engine.outcome?, same, cut, cut']⟩
  rw [← List.head?_eq_none_iff, ← received', received, silent]
  rfl

/-- As long as the completion has received nothing, the future is pending, or abandoned for good. -/
theorem Sound.pending_or_abandoned (h : Sound layout e)
    (root : layout (.call call) = some (.ofCall call v.checks value))
    (returned : returned? call e.journal = some (.ok true, before))
    (silent : completions call e.journal = []) :
    e.outcome? call = none ∨
      e.outcome? call = some (.error (.abandoned value)) ∧
        ∀ further, (∀ m ∈ further, m.Valid) →
          completions call (e.run further).journal = [] ∧
          (e.run further).outcome? call = some (.error (.abandoned value)) := by
  have outcome := h.outcome?_of_silent root returned silent
  cases can : e.canComplete call with
  | true => exact .inl (by rw [outcome, can]; rfl)
  | false =>
    have gone : e.outcome? call = some (.error (.abandoned value)) := by
      rw [outcome, can]
      rfl
    refine .inr ⟨gone, fun further valid => ?_⟩
    rw [← gone]
    exact h.abandoned root silent can valid

/-- The future is pending if nothing that the call waits for was dropped. -/
theorem Sound.pending_of_kept (h : Sound layout e) (relayed : Relayed layout e.journal)
    (root : layout (.call call) = some (.ofCall call v.checks value))
    (returned : returned? call e.journal = some (.ok true, before))
    (silent : completions call e.journal = []) (onward : before <:+ e.journal)
    (started : firstFailure? ((Opening.ofCall call v.checks value).results (.ofCall call) before) = none →
      Check.AllStarted value (.ofCall call) before 0 v.checks)
    (kept : ∀ path definition name body negated params,
      v.clauseAt? path = some (.rule definition name body negated params) →
        body.isValidator = false → ¬ e.Dropped ⟨.call call, path⟩) :
    e.outcome? call = none := by
  obtain ⟨clean, received⟩ := h.delivered_of_accepted root returned
  have undecided := Option.toList_eq_nil_iff.1 (received.symm.trans silent)
  have can := h.canComplete_of_kept relayed root undecided
    (Check.AllStarted.mono onward _ _ 0 v.checks (started clean)) kept
  rw [h.outcome?_of_silent root returned silent, can]
  rfl

/-- A call whose outcome is pending can complete. -/
theorem Engine.canComplete_of_pending {c : Call} (held : e.calls.get? call = some c)
    (pending : e.outcome? call = none) : e.canComplete call = true := by
  rw [outcome?, held] at pending
  split at pending
  · cases ‹some c = none›
  · cases pending
  · cases pending
  · split at pending
    next can => exact can
    · cases pending

/-- A call that can complete has a kept handle that is not settled and leads to it. -/
theorem Engine.exists_of_canComplete (can : e.canComplete call = true) :
    ∃ index handle, e.parked? index = some handle ∧ e.isSettled handle.place = false ∧
      e.leadsTo call handle.route = true := by
  obtain ⟨slot, mem, leads⟩ := List.any_eq_true.1 can
  obtain ⟨index, here⟩ := List.mem_iff_getElem?.1 mem
  cases slot with
  | none => cases leads
  | some handle =>
    have leads : e.leadsTo call handle.route = true := leads
    refine ⟨index, handle, by rw [parked?, here]; rfl, ?_, leads⟩
    cases handle with
    | detached p => cases leads
    | asked p question onward =>
      simp only [Handle.route, leadsTo, Bool.and_eq_true, Bool.not_eq_true'] at leads
      exact leads.1

end

/-! ## Futures of a session -/

/-- What polling a future answers, given the outcome of its call. -/
def Response.ofOutcome : Option Result → Response
  | none => .pending
  | some outcome => .result outcome

namespace Session

variable {s : Session} {registry : String} {number : Nat}

theorem exec_poll (opened : s.registryNumber? registry = some number) {future : String} {call : Nat}
    (held : s.futures.lookup future = some call) :
    (s.exec ⟨registry, .poll future⟩).1 = .ofOutcome (s.engine.outcome? call) := by
  simp only [exec, opened, execIn, held]
  cases s.engine.outcome? call <;> rfl

variable (opened : s.registryNumber? registry = some number) {name : String} {v : Validator}
  (named : s.validators.lookup name = some v)
include opened named

theorem exec_validateWith (value label : Json) :
    s.exec ⟨registry, .validateWith name value label⟩ =
      (.result (s.engine.call v value).1, { s with
        engine := (s.engine.call v value).2
        labels := (s.engine.calls.size, label) :: s.labels }) := by
  simp only [exec, opened, execIn, named]
  rfl

theorem exec_validateAsync (value : Json) (future : String) :
    s.exec ⟨registry, .validateAsync name value future⟩ =
      (.nothing, { s with
        engine := (s.engine.call v value).2
        futures := (future, s.engine.calls.size) :: s.futures }) := by
  simp only [exec, opened, execIn, named]
  rfl

end Session

/-- **Futures agree with completions.** Whether a call of a validator is kept as a future or its
completion is noted, the same steps lead to the same state, and the future stays under its name as long
as no step takes it. In every state that a run reaches after the call, the future is ready with the
failure that the call returned, or else with what the completion has received. If it has received
nothing, the future is pending or ready with the failure of abandonment, which carries the tested value
and names no rule and no cause. Once it is abandoned, the completion never receives anything. While it
is pending, a handle is kept that is not settled and leads to the call, so it is not pending when all
kept handles are settled; and it is not abandoned unless a rule clause of the call, or of a validator in
it, has its handle dropped unsettled. -/
theorem futures_agree {s : Session} (stands : s.Stands .empty) {registry : String} {number : Nat}
    (opened : s.registryNumber? registry = some number) {name : String} {v : Validator}
    (named : s.validators.lookup name = some v) (value label : Json) (future : String) :
    let call := s.engine.calls.size
    let awaiting := (s.exec ⟨registry, .validateAsync name value future⟩).2
    let noting := (s.exec ⟨registry, .validateWith name value label⟩).2
    let abandoned : Failure :=
      { message := "Validation was abandoned before every rule settled", value, rule := none
        negated := false, params := [], nested := [], cause := none }
    (∀ steps, (awaiting.after steps).engine = (noting.after steps).engine ∧
      ∃ later, (∀ m ∈ later, m.Valid) ∧ (noting.after steps).engine = noting.engine.run later) ∧
    (∀ steps, (∀ step ∈ steps, ¬ step.command.Takes future) →
      (awaiting.after steps).futures.lookup future = some call) ∧
    (∀ (t : Session) registry number held, t.registryNumber? registry = some number →
      t.futures.lookup held = some call →
        (t.exec ⟨registry, .poll held⟩).1 = .ofOutcome (t.engine.outcome? call)) ∧
    ∃ result : Result,
      (s.exec ⟨registry, .validateWith name value label⟩).1 = .result result ∧
      (result = .ok true ∨ ∃ f, result = .error f) ∧
      ∀ later, (∀ m ∈ later, m.Valid) →
        let now := noting.engine.run later
        (∀ f, result = .error f → now.outcome? call = some (.error f)) ∧
        (∀ received, result = .ok true → received ∈ completions call now.journal →
          now.outcome? call = some received) ∧
        (result = .ok true → completions call now.journal = [] →
          (now.outcome? call = none ∨
            now.outcome? call = some (.error abandoned) ∧
              ∀ further, (∀ m ∈ further, m.Valid) →
                completions call (now.run further).journal = [] ∧
                (now.run further).outcome? call = some (.error abandoned)) ∧
          ((∀ path definition name body negated params,
            v.clauseAt? path = some (.rule definition name body negated params) →
              body.isValidator = false → ¬ now.Dropped ⟨.call call, path⟩) →
            now.outcome? call = none)) ∧
        (now.outcome? call = none → ∃ index handle, now.parked? index = some handle ∧
          now.isSettled handle.place = false ∧ now.leadsTo call handle.route = true) ∧
        ((∀ index handle, now.parked? index = some handle → now.isSettled handle.place = true) →
          now.outcome? call ≠ none) := by
  intro call awaiting noting abandoned
  have built : v.Built := stands.lookup_validators named
  obtain ⟨earlier, valid, reached⟩ := stands.engine
  have noted := Session.exec_validateWith opened named value label
  have awaited := Session.exec_validateAsync opened named value future
  have noted_engine : noting.engine = (s.engine.call v value).2 := by
    rw [show noting = _ from congrArg Prod.snd noted]
  have same : awaiting.core = noting.core := by
    rw [show noting = _ from congrArg Prod.snd noted, show awaiting = _ from congrArg Prod.snd awaited]
    rfl
  have mixed : ∀ later, (∀ m ∈ later, m.Valid) → ∀ m ∈ earlier ++ later, m.Valid :=
    fun later laterValid m mem => (List.mem_append.1 mem).elim (valid m) (laterValid m)
  have accepts_or_fails : (s.engine.call v value).1 = .ok true ∨
      ∃ f, (s.engine.call v value).1 = .error f := by
    obtain ⟨_, _, -, -, -, -, -, -, answers, -⟩ := run_call (mixed [] (by simp)) built value reached
    exact answers ▸ clear_answerNow _
  have standing : noting.Stands noting.engine := (stands.exec _).now
  refine ⟨fun steps => ⟨?_, ?_⟩, fun steps untaken => ?_,
    fun t registry number held opened found => Session.exec_poll opened found,
    (s.engine.call v value).1, by rw [noted], ?_, fun later laterValid => ?_⟩
  · have alike := congrArg Session.engine (Session.core_after steps same)
    exact alike
  · obtain ⟨later, laterValid, ends⟩ := (standing.after steps).engine
    exact ⟨later, laterValid, ends.symm⟩
  · rw [Session.lookup_futures_after untaken, show awaiting = _ from congrArg Prod.snd awaited]
    exact List.lookup_cons_self
  · exact accepts_or_fails
  · intro now
    obtain ⟨layout, before, trace, sound, root, -, onward, returned, -, started⟩ :=
      run_call (mixed later laterValid) built value reached
    rw [← noted_engine] at trace sound onward returned
    have pending : now.outcome? call = none → ∃ index handle, now.parked? index = some handle ∧
        now.isSettled handle.place = false ∧ now.leadsTo call handle.route = true := by
      intro pending
      obtain ⟨failure, held⟩ := sound.call_record root returned
      exact Engine.exists_of_canComplete (Engine.canComplete_of_pending held pending)
    have settled : (∀ index handle, now.parked? index = some handle →
        now.isSettled handle.place = true) → now.outcome? call ≠ none := by
      intro settled none_yet
      obtain ⟨index, handle, kept, unsettled, -⟩ := pending none_yet
      rw [settled index handle kept] at unsettled
      cases unsettled
    refine ⟨fun f fails => ?_, fun received accepts mem => ?_, fun accepts silent => ⟨?_, fun kept => ?_⟩,
      pending, settled⟩
    · rw [fails] at returned
      exact sound.outcome?_of_failed root returned
    · rw [accepts] at returned
      exact sound.outcome?_of_received root returned mem
    · rw [accepts] at returned
      exact sound.pending_or_abandoned root returned silent
    · rw [accepts] at returned
      exact sound.pending_of_kept (Trace.relayed trace) root returned silent onward started kept

/-! ## A future that is abandoned -/

/-- A session that has a validator whose clauses wait. -/
def Session.waiting : Session :=
  { Session.empty with registryNames := [("main", 0)], validators := [("waiting", .waiting)] }

theorem Session.stands_waiting : Session.waiting.Stands .empty := by
  refine ⟨.refl _, fun _ _ impossible => (by cases impossible), by simp [waiting, empty], ?_⟩
  intro entry mem
  obtain rfl := List.mem_singleton.1 mem
  exact Validator.built_waiting

/-- Drops the handles of the waiting clauses. -/
def Step.drops : List Step :=
  [⟨"main", .dropHandle (.numbered 0)⟩, ⟨"main", .dropHandle (.numbered 1)⟩,
    ⟨"main", .dropHandle (.numbered 2)⟩]

/-- A future is pending while its handles are kept. When they are dropped it is abandoned for good, with
the tested value in its failure. -/
theorem futures_agree_dropped :
    let awaiting := (Session.waiting.exec ⟨"main", .validateAsync "waiting" (.str "late") "future"⟩).2
    let dropped := awaiting.after Step.drops
    (awaiting.exec ⟨"main", .poll "future"⟩).1 = .pending ∧
      (dropped.exec ⟨"main", .poll "future"⟩).1 = .result (.error
        { message := "Validation was abandoned before every rule settled", value := .str "late"
          rule := none, negated := false, params := [], nested := [], cause := none }) ∧
      ∀ further, (∀ m ∈ further, m.Valid) →
        completions 0 (dropped.engine.run further).journal = [] := by
  intro awaiting dropped
  have opened : Session.waiting.registryNumber? "main" = some 0 := by decide
  have named : Session.waiting.validators.lookup "waiting" = some .waiting := rfl
  obtain ⟨-, stays, polls, result, returns, -, states⟩ :=
    futures_agree Session.stands_waiting opened named (.str "late") .null "future"
  have accepts : result = .ok true := (Response.result.inj returns).symm
  have valid : ∀ m ∈ [Move.drop 0, .drop 1, .drop 2], m.Valid := by simp [Move.Valid]
  obtain ⟨-, -, silent, -, settled⟩ := states _ valid
  have gone : ∀ index handle, dropped.engine.parked? index = some handle → False := by
    intro index handle kept
    have none_kept : dropped.engine.parked = [none, none, none] := rfl
    have mem := Engine.mem_of_parked? kept
    rw [none_kept] at mem
    simp at mem
  have unkept := settled fun index handle kept => (gone index handle kept).elim
  obtain impossible | ⟨abandoned, onward⟩ := (silent accepts rfl).1
  · exact absurd impossible unkept
  have untaken : ∀ step ∈ Step.drops, ¬ step.command.Takes "future" := by
    simp [Step.drops, Command.Takes]
  refine ⟨(polls awaiting "main" 0 "future" (by decide) (stays [] (by simp))).trans ?_,
    (polls dropped "main" 0 "future" (by decide) (stays Step.drops untaken)).trans ?_,
    fun further further_valid => (onward further further_valid).1⟩
  · rfl
  · exact congrArg Response.ofOutcome abandoned

end Criteria
