import Criteria.Proofs.Journal.Invocation
import Criteria.Proofs.Polarity.Evaluation
import Criteria.Proofs.Settle.InCall

/-!
# Duality of negation

A run and the turned run are dual after each of their moves (`run_dual`): the same happens at the same
moments, and errors differ in the flags and the messages of the failures of the turned clauses only. The
two are in step because the number of a kept handle always belongs to the same clause, so what is done
through it can be turned from the outset (`foretold_run`).
-/

namespace Criteria
set_option autoImplicit false

variable {chosen : Place → Bool} {t : Turning} {e s : Engine}

/-! ## Moves -/

/-- What the body of a move that evaluates one by itself replies. -/
def Engine.reply? (e : Engine) : Move → Option Reply
  | .evaluate d value params none => some (e.evaluateLoose d value params none).1
  | .evaluate d value params (some index) =>
    (e.parked? index).map fun handle => (e.evaluateLoose d value params (some handle)).1
  | _ => none

/-- Whether a move lends the handle of a chosen clause to a body. -/
def Move.lends (marked : Nat → Bool) : Move → Bool
  | .evaluate _ _ _ handle => handle.any marked
  | _ => false

/-- Settling a kept handle from outside, with a turned answer if it belongs to a chosen clause. -/
theorem move_settle_dual (h : Dual t e s) (index : Nat) (answer : Answer) :
    InStep t (e.move (.settle index answer))
      (s.move (.settle index (answer.turn (t.marked index)))) := by
  intro foretold
  have kept := h.parked? index
  simp only [Engine.move] at foretold ⊢
  cases held : e.parked? index with
  | none =>
    rw [held] at kept
    rw [kept]
    exact h
  | some handle =>
    rw [held] at kept
    rw [held, kept] at foretold
    have before := foretold.before (Onward.advances.settle _ _ e) (Onward.advances.settle _ _ s)
    rw [before.marks index handle held] at foretold
    rw [kept, before.marks index handle held]
    exact (settle_dual h (h.free_of_parked? held) answer foretold).2

/-- Evaluating a body with a kept handle. -/
theorem move_lend_dual (h : Dual t e s) (d : Definition) (value : Json) (params : List Json)
    (index : Nat) (eligible : d.body.Eligible t.chosen (t.marked index) e.loosePlace) :
    let m : Move := .evaluate d value params (some index)
    let m' := m.turn t.chosen t.marked e
    Foretold t (e.move m) (s.move m') → Dual t (e.move m) (s.move m') ∧
      s.reply? m' = (e.reply? m).map (Reply.turn (t.marked index)) := by
  intro m m' foretold
  have kept := h.parked? index
  simp only [m, m', Engine.move, Move.turn, Engine.reply?] at foretold ⊢
  cases held : e.parked? index with
  | none =>
    rw [held] at kept
    rw [kept]
    exact ⟨h, rfl⟩
  | some handle =>
    rw [held] at kept
    rw [held, kept] at foretold
    have before := foretold.before (Onward.advances.evaluateLoose _ _ _ _ e)
      (Onward.advances.evaluateLoose _ _ _ _ s)
    have owned : t.marked index = handle.isChosen t.chosen := before.marks index handle held
    have free : ∀ lent, some handle = some lent → lent.Free t.chosen := by
      rintro _ ⟨⟩
      exact h.free_of_parked? held
    obtain ⟨replied, after⟩ :=
      evaluateLoose_dual h d value params (some handle) owned eligible free foretold
    rw [kept]
    exact ⟨after, congrArg some replied⟩

/-- **A move and the turned move** keep engines dual, and a body that is evaluated replies with the turned
answer. -/
theorem move_dual (h : Dual t e s) (m : Move) (eligible : m.Eligible t.chosen t.marked e)
    (foretold : Foretold t (e.move m) (s.move (m.turn t.chosen t.marked e))) :
    Dual t (e.move m) (s.move (m.turn t.chosen t.marked e)) ∧
      s.reply? (m.turn t.chosen t.marked e) =
        (e.reply? m).map (Reply.turn (m.lends t.marked)) := by
  cases m with
  | call v value => exact ⟨(call_dual h value eligible foretold).2, rfl⟩
  | settle index answer => exact ⟨move_settle_dual h index answer foretold, rfl⟩
  | drop index => exact ⟨h.dropParked index, rfl⟩
  | make => exact ⟨h.parkDetached, rfl⟩
  | evaluate d value params handle =>
    cases handle with
    | none =>
      obtain ⟨replied, after⟩ :=
        evaluateLoose_dual h d value params none rfl eligible nofun foretold
      exact ⟨after, congrArg some replied⟩
    | some index => exact move_lend_dual h d value params index eligible foretold
  | define templates => exact ⟨h.define templates, rfl⟩
  | setTemplate definition negated template =>
    exact ⟨h.setTemplate definition negated template, rfl⟩
  | log event => exact ⟨h.note (.logged eligible), rfl⟩

/-- **Runs and turned runs are dual**, move by move. -/
theorem run_dual (moves : List Move) : ∀ {e s : Engine}, e.Eligible t.chosen t.marked moves →
    Dual t e s →
    (∀ before, before <+: moves →
      Foretold t (e.run before) (s.run (e.turnMoves t.chosen t.marked before))) →
      Dual t (e.run moves) (s.run (e.turnMoves t.chosen t.marked moves)) := by
  induction moves with
  | nil => exact fun _ h _ => h
  | cons m moves ih =>
    intro e s eligible h foretold
    obtain ⟨first, rest⟩ := eligible
    have moved := (move_dual h m first (foretold [m] (List.prefix_append [m] moves))).1
    apply ih rest moved
    intro before part
    exact foretold (m :: before) ((List.prefix_cons_inj m).2 part)

/-! ## What is foretold of a run -/

/-- The journal has grown and the numbers of handles are still those of the same handles, if these are
kept. -/
structure Later (e e' : Engine) : Prop where
  journal : e.journal <:+ e'.journal
  room : e.parked.length ≤ e'.parked.length
  slots : ∀ index handle, index < e.parked.length → e'.parked? index = some handle →
    e.parked? index = some handle

theorem Onward.later {e e' : Engine} (h : Onward e e') : Later e e' where
  journal := h.journal
  room := h.parked.length_le
  slots _ _ inside kept := (h.parked? inside).symm.trans kept

namespace Later

theorem advances : Advances Later where
  refl e := (Onward.advances.refl e).later
  trans first second :=
    { journal := first.journal.trans second.journal
      room := Nat.le_trans first.room second.room
      slots := fun index handle inside kept => first.slots index handle inside
        (second.slots index handle (Nat.lt_of_lt_of_le inside first.room) kept) }
  note e event := (Onward.advances.note e event).later
  markSettled e p := (Onward.advances.markSettled e p).later
  putList e p progress := (Onward.advances.putList e p progress).later
  updateCall e call change := (Onward.advances.updateCall e call change).later
  park e handle := (Onward.advances.park e handle).later
  enter e value := (Onward.advances.enter e value).later
  takeLoose e := (Onward.advances.takeLoose e).later

/-- Forgetting a handle leaves a gap, which nothing fills. -/
theorem dropParked (e : Engine) (index : Nat) : Later e (e.dropParked index) where
  journal := List.suffix_refl _
  room := Nat.le_of_eq List.length_set.symm
  slots other handle _ kept := by
    rw [Engine.parked?, Engine.dropParked, List.getElem?_set] at kept
    split at kept
    · split at kept <;> cases kept
    · exact kept

theorem move (m : Move) (e : Engine) : Later e (e.move m) :=
  advances.move m e (dropParked e) (fun _ => ⟨List.suffix_refl _, Nat.le_refl _, fun _ _ _ => id⟩)
    fun _ _ _ => ⟨List.suffix_refl _, Nat.le_refl _, fun _ _ _ => id⟩

theorem run (moves : List Move) : ∀ e : Engine, Later e (e.run moves) := by
  induction moves with
  | nil => exact advances.refl
  | cons m moves ih => exact fun e => advances.trans (move m e) (ih (e.move m))

end Later

/-- A number is that of the same handle at all times of a run. -/
theorem slot_unique {moves before before' : List Move} (part : before <+: moves)
    (part' : before' <+: moves) {index : Nat} {handle handle' : Handle}
    (kept : (e.run before).parked? index = some handle)
    (kept' : (e.run before').parked? index = some handle') : handle = handle' := by
  obtain ⟨more, rfl⟩ | ⟨more, rfl⟩ := List.prefix_or_prefix_of_prefix part part'
  · rw [Engine.run_append] at kept'
    have same := (Later.run more _).slots index handle' (Engine.lt_of_parked? kept) kept'
    exact Option.some.inj (kept.symm.trans same)
  · rw [Engine.run_append] at kept
    have same := (Later.run more _).slots index handle (Engine.lt_of_parked? kept') kept
    exact Option.some.inj (same.symm.trans kept')

/-- A number is marked if and only if it is that of a chosen clause, whenever it is that of a handle. -/
theorem marks_of_parked? {moves before : List Move} (part : before <+: moves) {index : Nat}
    {handle : Handle} (kept : (e.run before).parked? index = some handle) :
    e.marks chosen moves index = handle.isChosen chosen := by
  unfold Engine.marks
  cases own : handle.isChosen chosen with
  | true =>
    apply List.any_eq_true.2
    refine ⟨before, (List.mem_inits before moves).2 part, ?_⟩
    rw [kept]
    exact own
  | false =>
    apply List.any_eq_false.2
    intro before' mem
    cases kept' : (e.run before').parked? index with
    | none => simp
    | some handle' =>
      have same := slot_unique part ((List.mem_inits before' moves).1 mem) kept kept'
      rw [← same, Option.any_some, own]
      simp

/-- A run from the beginning and the turned run. -/
def Turning.ofRun (chosen : Place → Bool) (moves : List Move) : Turning where
  chosen := chosen
  marked := Engine.empty.marks chosen moves
  plain := (Engine.empty.run moves).journal
  turned :=
    (Engine.empty.run
      (Engine.empty.turnMoves chosen (Engine.empty.marks chosen moves) moves)).journal

/-- **What runs come to is foretold** at each of their moves. -/
theorem foretold_run (chosen : Place → Bool) {moves before : List Move} (part : before <+: moves) :
    Foretold (.ofRun chosen moves) (Engine.empty.run before)
      (Engine.empty.run
        (Engine.empty.turnMoves chosen (Engine.empty.marks chosen moves) before)) where
  marks _ _ kept := marks_of_parked? part kept
  plain event mem := by
    obtain ⟨after, rfl⟩ := part
    rw [Turning.ofRun, Engine.run_append]
    exact (Later.run after _).journal.subset mem
  turned event mem := by
    obtain ⟨after, whole⟩ := part
    have turned : (Turning.ofRun chosen moves).turned = (Engine.empty.run
        (Engine.empty.turnMoves chosen (Engine.empty.marks chosen moves)
          (before ++ after))).journal := by rw [whole]; rfl
    rw [turned, Engine.turnMoves_append, Engine.run_append]
    exact (Later.run _ _).journal.subset mem

/-! ## What is seen of dual engines -/

/-- What can be asked of a call in both engines: nothing yet, a result and its counterpart, or that the
call was abandoned. -/
inductive Outcomes (t : Turning) : Option Result → Option Result → Prop where
  | pending : Outcomes t none none
  | decided {result result' : Result} (paired : t.pairing.Results result result') :
      Outcomes t (some result) (some result')
  | abandoned (value : Json) :
      Outcomes t (some (.error (.abandoned value))) (some (.error (.abandoned value)))

namespace Dual

theorem canComplete (h : Dual t e s) (call : Nat) : s.canComplete call = e.canComplete call := by
  have leads : ∀ handle : Handle,
      s.leadsTo call (handle.turn t.chosen).route = e.leadsTo call handle.route := by
    intro handle
    rw [h.leadsTo call]
    cases handle <;> rfl
  rw [Engine.canComplete, Engine.canComplete, h.parked, List.any_map]
  congr 1
  funext slot
  cases slot with
  | none => rfl
  | some handle => exact leads handle

/-- Futures of calls correspond. -/
theorem outcomes (h : Dual t e s) (call : Nat) : Outcomes t (e.outcome? call) (s.outcome? call) := by
  have calls := h.calls call
  unfold Engine.outcome?
  rw [h.canComplete call]
  generalize e.calls.get? call = record at calls ⊢
  generalize s.calls.get? call = record' at calls ⊢
  cases calls with
  | none => exact .pending
  | @some c d paired =>
    obtain ⟨value, failure, returned, completed⟩ := c
    obtain ⟨value', failure', returned', completed'⟩ := d
    obtain ⟨same, -, returns, received⟩ := paired
    obtain rfl : value = value' := same
    have returns : Option.Rel t.pairing.Results returned returned' := returns
    have received : Option.Rel t.pairing.Results completed completed' := received
    -- A failure that was returned decides; otherwise the completion does, if it has run.
    have waits : Outcomes t
        (if e.canComplete call then none else some (.error (.abandoned value)))
        (if e.canComplete call then none else some (.error (.abandoned value))) := by
      split
      · exact .pending
      · exact .abandoned value
    cases returns with
    | none =>
      cases received with
      | none => exact waits
      | some paired => exact .decided paired
    | some answer =>
      cases answer with
      | error paired => exact .decided (.error paired)
      | ok _ =>
        cases received with
        | none => exact waits
        | some paired => exact .decided paired

/-- The same bodies are invoked. -/
theorem invocations (h : Dual t e s) : invocations e.journal = invocations s.journal := by
  have events := h.journal
  generalize e.journal = events at *
  generalize s.journal = events' at *
  induction events with
  | nil => rfl
  | cons first _ ih =>
    rw [invocations_cons, invocations_cons, ih]
    cases first <;> rfl

/-- Whatever one engine has noted, the other has noted the like. -/
theorem noted (h : Dual t e s) {event : Event} (mem : event ∈ e.journal) :
    ∃ event' ∈ s.journal, event.Dual t event' := by
  obtain ⟨index, inside, rfl⟩ := List.mem_iff_getElem.1 mem
  have inside' : index < s.journal.length := by
    rw [← h.journal.length_eq]
    exact inside
  exact ⟨s.journal[index], List.getElem_mem inside', h.journal.get inside inside'⟩

/-- A rejection fails a clause with its cause in both engines. -/
theorem rejection (h : Dual t e s) {p : Place} {cause : String} {result : Result}
    (judged : .judged p (.error cause) result ∈ e.journal) :
    ∃ f f', result = .error f ∧ .judged p (.error cause) (.error f') ∈ s.journal ∧
      f.Turned (t.chosen p) f' ∧ f.cause = some cause ∧ f'.cause = some cause := by
  obtain ⟨event', mem, dual⟩ := h.noted judged
  cases dual with
  | logged logged => cases logged
  | judged _ question templates _ =>
    obtain ⟨accepts, -⟩ | ⟨f, f', refuses, refuses', turned, causes⟩ :=
      question.judge_turn (t.chosen p) templates (.error cause)
    · cases accepts
    · obtain ⟨first, second⟩ := causes cause rfl
      rw [refuses'] at mem
      exact ⟨f, f', refuses, mem, turned, first, second⟩

end Dual

/-- **Negation duality.** Choose any rule clauses of the validators of a run, by the places at which they
are put to values, whose rules are not validators and whose handles are lent to none. In the turned run
each chosen clause has the other polarity, and every answer given for it is the other one, by its own body
at once or through its handle, by another body, or from outside; rejections stay as they are. After each
move both runs have come to the same: the same bodies have been invoked in the same order with the same
values and parameters, the same handles are kept and settled, calls have returned and completed and
settlements were told of success or failure at the same moments, and the futures of the calls are pending,
accepted, failed or abandoned alike. The errors are the same but for the flag and the message of the
failures of the chosen clauses. A body that is evaluated by itself replies the same, turned if it has the
handle of a chosen clause. A rejection fails its clause with the same cause in both runs. -/
theorem negation_duality {chosen : Place → Bool} {moves : List Move}
    (eligible : Engine.empty.Eligible chosen (Engine.empty.marks chosen moves) moves) :
    let t := Turning.ofRun chosen moves
    ∀ before, before <+: moves →
      let e := Engine.empty.run before
      let s := Engine.empty.run (Engine.empty.turnMoves chosen t.marked before)
      Dual t e s ∧
        invocations e.journal = invocations s.journal ∧
        (∀ call, Outcomes t (e.outcome? call) (s.outcome? call)) ∧
        (∀ m, before ++ [m] <+: moves →
          s.reply? (m.turn chosen t.marked e) = (e.reply? m).map (Reply.turn (m.lends t.marked))) ∧
        ∀ p cause result, .judged p (.error cause) result ∈ e.journal →
          ∃ f f', result = .error f ∧ .judged p (.error cause) (.error f') ∈ s.journal ∧
            f.Turned (chosen p) f' ∧ f.cause = some cause ∧ f'.cause = some cause := by
  intro t before part e s
  have dual : ∀ before, before <+: moves → Dual t (Engine.empty.run before)
      (Engine.empty.run (Engine.empty.turnMoves chosen t.marked before)) := by
    intro before part
    apply run_dual before _ (.empty t)
    · exact fun earlier sooner => foretold_run chosen (sooner.trans part)
    · obtain ⟨after, rfl⟩ := part
      exact (Engine.eligible_append chosen t.marked).1 eligible |>.1
  have h : Dual t e s := dual before part
  refine ⟨h, h.invocations, h.outcomes, fun m next => ?_, fun p cause result => h.rejection⟩
  have foretold := foretold_run chosen next
  rw [Engine.turnMoves_append, Engine.run_append, Engine.run_append] at foretold
  obtain ⟨after, whole⟩ := next
  have following : e.Eligible chosen t.marked [m] := by
    have all := eligible
    rw [← whole, Engine.eligible_append, Engine.eligible_append] at all
    rw [whole] at all
    exact all.1.2
  exact (move_dual h m following.1 foretold).2

/-- Chooses the second alternative of the first clause of validators that are called. -/
def Place.isSecond (p : Place) : Bool := p.path == [1, 0]

/-- Calls a validator twice, whose second alternative refuses at first and is then rejected. -/
def Move.unmet : List Move :=
  [.define ⟨none, none⟩, .define ⟨some "yes", some "no"⟩, .call (.either .wavering) .null,
    .settle 0 (.ok false), .call (.either .wavering) .null, .settle 1 (.error "gone")]

/-- One of two alternatives, the second of which is negated. -/
def Validator.eitherNot (body : Body) : Validator :=
  ⟨2, [.group [.rule 0 "first" body false [], .rule 1 "waiting" .waiting true []]]⟩

/-- The turned moves: the second alternative is negated, and its rule accepts at first. -/
def Move.unmetTurned : List Move :=
  [.define ⟨none, none⟩, .define ⟨some "yes", some "no"⟩, .call (.eitherNot .wavering) .null,
    .settle 0 (.ok true), .call (.eitherNot .wavering) .null, .settle 1 (.error "gone")]

/-- The second alternative is refused in both runs, in other words; its rejection is refused with the same
cause. -/
theorem negation_duality_unmet :
    let e := Engine.empty.run Move.unmet
    let s := Engine.empty.run Move.unmetTurned
    let first := Failure.ofRule "first" (Message.generic "first") .null
    let plain (cause) : Failure := ⟨"yes", .null, some "waiting", false, [], [], cause⟩
    let negated (cause) : Failure := ⟨"no", .null, some "waiting", true, [], [], cause⟩
    Engine.empty.Eligible Place.isSecond (Engine.empty.marks Place.isSecond Move.unmet)
        Move.unmet ∧
      Dual (.ofRun Place.isSecond Move.unmet) e s ∧
      e.outcome? 0 = some (.error (.aggregate .null [first, plain none])) ∧
      s.outcome? 0 = some (.error (.aggregate .null [first, negated none])) ∧
      e.outcome? 1 = some (.error (.aggregate .null [first, plain (some "gone")])) ∧
      s.outcome? 1 = some (.error (.aggregate .null [first, negated (some "gone")])) := by
  have eligible : Engine.empty.Eligible Place.isSecond
      (Engine.empty.marks Place.isSecond Move.unmet) Move.unmet := by
    have called : ∀ call, Check.AllEligible Place.isSecond (.ofCall call) 0
        (Validator.either .wavering).checks := fun _ => ⟨⟨trivial, trivial, trivial⟩, trivial⟩
    exact ⟨trivial, trivial, called 0, trivial, called 1, trivial, trivial⟩
  have turned : Engine.empty.turnMoves Place.isSecond (Turning.ofRun Place.isSecond
      Move.unmet).marked Move.unmet = Move.unmetTurned := by rfl
  obtain ⟨dual, -⟩ := negation_duality eligible Move.unmet (List.prefix_refl _)
  rw [turned] at dual
  exact ⟨eligible, dual, by rfl, by rfl, by rfl, by rfl⟩

end Criteria
