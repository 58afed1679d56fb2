import Criteria.Proofs.Run.Advance

/-!
# Runs in which something else goes on

By itself an engine only notes what completions receive. A `Conduct` says what else goes on in a run: what
completions do with what they have received, what is done as a list takes in a result, and whether
settlements of settled handles are made at all. The functions here follow those of the engine, for any
state that shows one; where nothing else goes on they are those of the engine (`Conduct.run_plain`).
-/

namespace Criteria
set_option autoImplicit false

/-- What goes on in a run besides what the engine does. -/
structure Conduct (σ : Type) where
  /-- The engine of a state. -/
  shows : σ → Engine
  /-- Changes the engine of a state. -/
  change : (Engine → Engine) → σ → σ
  shows_change : ∀ act s, shows (change act s) = act (shows s)
  /-- Whether settlements of settled handles are left out. -/
  spares : Bool
  /-- The completion of a call acts on what it has received. -/
  hears : Nat → Result → σ → σ
  /-- The list at the second place is about to take in the result of the member at the first one, with
  the record that it holds. -/
  takes : Place → Place → Result → Progress → σ → σ

namespace Conduct

variable {σ : Type} (c : Conduct σ)

/-- Notes what happened. -/
def note (event : Event) (s : σ) : σ := c.change (·.note event) s

/-! ## Delivering results -/

/-- A call takes the result of its list. -/
def complete (call : Nat) (result : Result) (s : σ) : Report × σ :=
  match (c.shows s).calls.get? call, result with
  | none, _ => (.ok (), s)
  | some { returned := none, .. }, .error f =>
    (.error f, c.change (·.updateCall call fun r => { r with failure := some f }) s)
  | some _, result =>
    let s := c.change (·.updateCall call fun r => { r with completed := some result }) s
    (result.map fun _ => (), c.hears call result (c.note (.completed call result) s))

/-- The list at a place takes the result of a member; its decision, if still awaited, goes to `next`. -/
def takeIn (place : Place) (combinator : Combinator) (value : Json) (member : Place) (result : Result)
    (next : Result → σ → Report × σ) (s : σ) : Report × σ :=
  match (c.shows s).lists.get? place with
  | none => (.ok (), s)
  | some progress =>
    let s := c.takes member place result progress s
    let intake := progress.take combinator value result
    match intake.decision with
    | some decision =>
      let s := c.change (·.putList place { intake.progress with awaited := false }) s
      if progress.awaited then
        let (raised, s) := next decision s
        (combinator.tell intake.report raised, s)
      else (intake.report, s)
    | none => (intake.report, c.change (·.putList place intake.progress) s)

/-- A settled handle is settled again. -/
def again (place : Place) (s : σ) : σ := if c.spares then s else c.note (.repeated place) s

/-- Settles the handle of a place: the first time by `act`, later without effect. -/
def once (place : Place) (act : σ → Report × σ) (s : σ) : Report × σ :=
  if (c.shows s).isSettled place then (.ok (), c.again place s)
  else act (c.change (·.markSettled place) s)

/-- Judges the first answer to the question of a place. -/
def judge (place : Place) (question : Question) (answer : Answer) (next : Result → σ → Report × σ)
    (s : σ) : Report × σ :=
  let result := question.judge ((c.shows s).templatesOf question.definition) answer
  let (report, s) := next result (c.note (.judged place answer result) s)
  (report, c.note (.told place report) s)

/-- Answers the question of a place. -/
def answer (place : Place) (question : Question) (answer : Answer) (next : Result → σ → Report × σ)
    (s : σ) : Report × σ :=
  c.once place (c.judge place question answer next) s

/-- Sends the result of what stands at `source` along its route. -/
def deliver : Route → Place → Result → σ → Report × σ
  | .call call, _, result, s => c.complete call result s
  | .list place combinator value onward, source, result, s =>
    c.takeIn place combinator value source result (deliver onward place) s
  | .detached place, _, _, s => c.once place (fun s => (.ok (), s)) s
  | .answer place question onward, _, result, s =>
    c.answer place question (.ok result.holds) (deliver onward place) s

/-- Settles a handle with an answer. -/
def settle (handle : Handle) (answer : Answer) (s : σ) : Report × σ :=
  match handle with
  | .detached place => c.once place (fun s => (.ok (), s)) s
  | .asked place question onward => c.answer place question answer (c.deliver onward place) s

/-! ## Evaluating -/

/-- Settles a handle for a scripted body, which notes what it was told. -/
def settleFor (rule : String) (handle : Handle) (answer : Answer) (s : σ) : σ :=
  if c.spares && (c.shows s).isSettled handle.place then s
  else
    let (report, s) := c.settle handle answer s
    c.note (.settledBy rule report) s

/-- Performs one action of a scripted body. -/
def perform (rule : String) (own : Handle) (s : σ) : Action → σ
  | .park => c.change (·.park own) s
  | .settle answer => c.settleFor rule own answer s
  | .settleParked index answer =>
    match (c.shows s).parked? index with
    | none => s
    | some handle => c.settleFor rule handle answer s

/-- Evaluates a list of checks. -/
def runList (combinator : Combinator) (size : Nat) (value : Json) (place : Place) (onward : Route)
    (start : Route → σ → σ) (s : σ) : Bool × σ :=
  if size = 0 then
    (combinator.identity, (c.deliver onward place (.ok combinator.identity) s).2)
  else
    let s := start (.list place combinator value onward)
      (c.change (·.putList place (.start combinator size)) s)
    ((c.shows s).passed place, s)

/-- Settles the handle of a rule clause if the body answered at once. -/
def heed (handle : Handle) : Reply × σ → σ
  | (.now holds, s) => (c.settle handle (.ok holds) s).2
  | (.later, s) => s

mutual

/-- Invokes a rule body at a place, with a handle for its answer. -/
def evaluate (rule : String) (value : Json) (params : List Json) (place : Place) (handle : Handle) :
    Body → σ → Reply × σ
  | .test holds, s => (.now (holds value params), c.note (.invoked place rule false value params) s)
  | .scripted plan, s =>
    ((plan place value params).reply, (plan place value params).actions.foldl (c.perform rule handle)
      (c.note (.invoked place rule true value params) s))
  | .validator _ checks, s =>
    (.later, (c.runList .all checks.length value place handle.route (startAll value place 0 checks)
      (c.note (.invoked place rule false value params) s)).2)

/-- Starts the check of a place. -/
def start (value : Json) (place : Place) (into : Route) : Check → σ → σ
  | .rule definition name body negated params, s =>
    let handle := .asked place ⟨definition, name, negated, params, value⟩ into
    c.heed handle (evaluate name value params place handle body s)
  | .group members, s =>
    (c.runList .any members.length value place into (startAll value place 0 members) s).2

/-- Starts the checks of the list at a place one after the other. -/
def startAll (value : Json) (place : Place) (position : Nat) : List Check → Route → σ → σ
  | [], _, s => s
  | check :: rest, into, s =>
    if (c.shows s).isRejected place then s
    else
      startAll value place (position + 1) rest into
        (start value (place.member position) into check s)

end

/-! ## Moves -/

/-- Ends a call, given what its list has come to by then. -/
def conclude (call : Nat) : Bool × σ → Result × σ
  | (passed, s) =>
    let result : Result := match ((c.shows s).calls.get? call).bind (·.failure) with
      | some f => .error f
      | none => .ok passed
    (result, c.note (.returned call result)
      (c.change (·.updateCall call fun r => { r with returned := some result }) s))

/-- Calls a validator. -/
def call (v : Validator) (value : Json) (s : σ) : Result × σ :=
  let call := (c.shows s).calls.size
  c.conclude call (c.runList .all v.checks.length value (.ofCall call) (.call call)
    (c.startAll value (.ofCall call) 0 v.checks) (c.change (·.enter value) s))

/-- Evaluates the body of a definition outside of any call. -/
def evaluateLoose (d : Definition) (value : Json) (params : List Json) (handle : Option Handle)
    (s : σ) : Reply × Bool × σ :=
  let place := (c.shows s).loosePlace
  let handle := handle.getD (.detached place)
  let (reply, s) := c.evaluate d.name value params place handle d.body (c.change (·.takeLoose) s)
  (reply, (c.shows s).isSettled handle.place, s)

/-- Makes a move. -/
def move (s : σ) : Move → σ
  | .call validator value => (c.call validator value s).2
  | .settle index answer =>
    match (c.shows s).parked? index with
    | some handle => (c.settle handle answer s).2
    | none => s
  | .drop index => c.change (·.dropParked index) s
  | .make => c.change (·.parkDetached) s
  | .evaluate definition value params none => (c.evaluateLoose definition value params none s).2.2
  | .evaluate definition value params (some index) =>
    match (c.shows s).parked? index with
    | some handle => (c.evaluateLoose definition value params (some handle) s).2.2
    | none => s
  | .define templates => c.change (·.define templates) s
  | .setTemplate definition negated template => c.change (·.setTemplate definition negated template) s
  | .log event => c.note event s

/-- Makes moves in order. -/
def run (s : σ) (moves : List Move) : σ := moves.foldl c.move s

/-! ## Where nothing else goes on -/

/-- Completions act on engines, and settlements of settled handles may be left out. -/
def acting (spares : Bool) (hears : Nat → Result → Engine → Engine) : Conduct Engine where
  shows e := e
  change act e := act e
  shows_change _ _ := rfl
  spares := spares
  hears := hears
  takes _ _ _ _ e := e

/-- Nothing else goes on. -/
def plain : Conduct Engine := acting false fun _ _ e => e

theorem deliver_plain : ∀ (route : Route) (source : Place),
    plain.deliver route source = Engine.deliver route
  | .call call, source => rfl
  | .list place combinator value onward, source => by
    funext result e
    rw [deliver, deliver_plain onward place]
    rfl
  | .detached place, source => rfl
  | .answer place question onward, source => by
    funext result e
    rw [deliver, deliver_plain onward place]
    rfl

theorem settle_plain (handle : Handle) (answer : Answer) :
    plain.settle handle answer = Engine.settle handle answer := by
  funext e
  cases handle with
  | detached place => rfl
  | asked place question onward =>
    rw [settle, deliver_plain]
    rfl

theorem settleFor_plain (rule : String) (handle : Handle) (answer : Answer) (e : Engine) :
    plain.settleFor rule handle answer e =
      (Engine.settle handle answer e).2.note (.settledBy rule (Engine.settle handle answer e).1) := by
  rw [settleFor, settle_plain]
  rfl

theorem perform_plain (rule : String) (own : Handle) :
    plain.perform rule own = Engine.perform rule own := by
  funext e action
  cases action with
  | park => rfl
  | settle answer => exact settleFor_plain rule own answer e
  | settleParked index answer =>
    simp only [perform, settleFor_plain]
    rfl

theorem runList_plain (combinator : Combinator) (size : Nat) (value : Json) (place : Place)
    (onward : Route) (start : Route → Engine → Engine) :
    plain.runList combinator size value place onward start =
      Engine.runList combinator size value place onward start := by
  funext e
  rw [runList, deliver_plain]
  rfl

theorem heed_plain (handle : Handle) : plain.heed handle = Engine.heed handle := by
  funext ⟨reply, e⟩
  cases reply with
  | now holds => exact congrArg Prod.snd (congrFun (settle_plain handle _) e)
  | later => rfl

mutual

theorem evaluate_plain (rule : String) (value : Json) (params : List Json) (place : Place)
    (handle : Handle) : (body : Body) → (e : Engine) →
    plain.evaluate rule value params place handle body e =
      Engine.evaluate rule value params place handle body e
  | .test holds, e => by
    rw [evaluate, Engine.evaluate]
    rfl
  | .scripted plan, e => by
    rw [evaluate, Engine.evaluate, perform_plain]
    rfl
  | .validator age checks, e => by
    rw [evaluate, Engine.evaluate, runList_plain, startAll_plain value place 0 checks]
    rfl

theorem start_plain (value : Json) (place : Place) (into : Route) : (check : Check) →
    (e : Engine) → plain.start value place into check e = Engine.start value place into check e
  | .rule definition name body negated params, e => by
    rw [start, Engine.start_rule, heed_plain, evaluate_plain]
  | .group members, e => by
    rw [start, Engine.start, runList_plain, startAll_plain value place 0 members]

theorem startAll_plain (value : Json) (place : Place) (position : Nat) : (checks : List Check) →
    plain.startAll value place position checks = Engine.startAll value place position checks
  | [] => by
    funext into e
    rw [startAll, Engine.startAll]
  | check :: rest => by
    funext into e
    rw [startAll, Engine.startAll, start_plain, startAll_plain value place (position + 1) rest]
    rfl

end

theorem call_plain (v : Validator) (value : Json) (e : Engine) :
    plain.call v value e = e.call v value := by
  rw [call, runList_plain, startAll_plain]
  rfl

theorem evaluateLoose_plain (d : Definition) (value : Json) (params : List Json)
    (handle : Option Handle) (e : Engine) :
    plain.evaluateLoose d value params handle e = e.evaluateLoose d value params handle := by
  rw [evaluateLoose, evaluate_plain]
  rfl

theorem move_plain (e : Engine) (m : Move) : plain.move e m = e.move m := by
  cases m with
  | call v value => exact congrArg Prod.snd (call_plain v value e)
  | settle index answer =>
    rw [move]
    simp only [settle_plain]
    rfl
  | evaluate d value params handle =>
    cases handle with
    | none => rw [move, evaluateLoose_plain, Engine.move]
    | some index =>
      rw [move]
      simp only [evaluateLoose_plain]
      rfl
  | _ => rfl

/-- **Where nothing else goes on** a run is that of the engine. -/
theorem run_plain (e : Engine) (moves : List Move) : plain.run e moves = e.run moves := by
  rw [run, Engine.run, funext fun e => funext (move_plain e)]

end Conduct
end Criteria
