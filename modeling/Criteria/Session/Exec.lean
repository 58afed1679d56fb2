import Criteria.Session.Inspect

/-!
# Running a session

`exec` carries out one step. A step that names something that is not there answers `missing` and
changes nothing. `run` carries out steps in order and collects, for each, the response and the
notices of what happened during it.
-/

namespace Criteria
set_option autoImplicit false

namespace Session

/-- The view of a definition: its name and its templates as they are now. -/
def view (s : Session) (d : Definition) : Response :=
  .definition d.name (s.engine.templatesOf d.id)

/-- Evaluates a rule body by itself. -/
def evaluate (s : Session) (d : Definition) (value : Json) (params : List Json)
    (handle : Option Handle) : Response × Session :=
  let (reply, settled, engine) := s.engine.evaluateLoose d value params handle
  (.evaluated reply settled, { s with engine })

/-- Builds a validator in a registry and gives it a name. A failed build changes nothing. -/
def build (s : Session) (number : Nat) (name : String) (source : ClauseSource) :
    Response × Session :=
  let age := s.engine.templates.size
  let built := match source with
    | .document json => Validator.ofJson age (s.registry number) json
    | .clauses list => Validator.build age (s.registry number) list
  match built with
  | .ok v => (.built v, { s with validators := (name, v) :: s.validators }.note (.built v.size))
  | .error e => (.notBuilt e, s)

/-- Calls a validator. The number of the call is `s.engine.calls.size`. -/
def call (s : Session) (v : Validator) (value : Json) : Result × Session :=
  let (result, engine) := s.engine.call v value
  (result, { s with engine })

/-- Carries out a command in the registry of the given number. -/
def execIn (s : Session) (number : Nat) : Command → Response × Session
  | .openRegistry _ => (.missing, s)
  | .addRule name body templates =>
    match s.body? body with
    | none => (.missing, s)
    | some body =>
      let (d, s) := s.define name body templates
      let s := s.register number d
      (.size (s.registry number).size, s)
  | .addDefinition name body templates hold =>
    match s.body? body with
    | none => (.missing, s)
    | some body =>
      let (d, s) := s.define name body templates
      let s := (s.register number d).hold hold d
      (s.view d, s)
  | .install rules =>
    let s := s.install number rules
    (.size (s.registry number).size, s)
  | .lookup definition hold =>
    match s.definition? number definition with
    | some d => (s.view d, s.hold hold d)
    | none => (.nothing, s)
  | .remove name hold =>
    match (s.registry number).lookup? name with
    | some d =>
      let s := { s with registries := s.registries.update number fun r => r.erase name }
      (s.view d, (s.note (.removed number name)).hold hold d)
    | none => (.nothing, s)
  | .setTemplate definition negated template =>
    match s.definition? number definition with
    | some d =>
      let s := { s with engine := s.engine.setTemplate d.id negated template }
      (s.view d, s)
    | none => (.missing, s)
  | .contains name => (.flag ((s.registry number).contains name), s)
  | .names => (.names (s.registry number).names, s)
  | .evaluate definition value params handle =>
    match s.definition? number definition with
    | none => (.missing, s)
    | some d =>
      match handle with
      | none => s.evaluate d value params none
      | some handle =>
        match s.handle? handle with
        | some handle => s.evaluate d value params (some handle)
        | none => (.missing, s)
  | .build name source => s.build number name source
  | .validate validator value =>
    match s.validators.lookup validator with
    | some v =>
      let (result, s) := s.call v value
      (.result result, s)
    | none => (.missing, s)
  | .validateWith validator value label =>
    match s.validators.lookup validator with
    | some v =>
      let (result, s) := { s with labels := (s.engine.calls.size, label) :: s.labels }.call v value
      (.result result, s)
    | none => (.missing, s)
  | .validateAsync validator value future =>
    match s.validators.lookup validator with
    | some v =>
      let (_, s) := { s with futures := (future, s.engine.calls.size) :: s.futures }.call v value
      (.nothing, s)
    | none => (.missing, s)
  | .poll future =>
    match s.futures.lookup future with
    | none => (.missing, s)
    | some call =>
      match s.engine.outcome? call with
      | none => (.pending, s)
      | some result =>
        (.result result, { s with futures := s.futures.filter fun (name, _) => name != future })
  | .makeHandle => (.handle s.engine.parked.length, { s with engine := s.engine.parkDetached })
  | .settle handle answer =>
    match s.handle? handle with
    | some handle =>
      let (report, engine) := s.engine.settle handle answer
      (.report report, { s with engine })
    | none => (.missing, s)
  | .isSettled handle =>
    match s.handle? handle with
    | some handle => (.flag (s.engine.isSettled handle.place), s)
    | none => (.missing, s)
  | .dropHandle handle =>
    match handle, s.handle? handle with
    | .numbered index, some _ => (.dropped true, { s with engine := s.engine.dropParked index })
    | _, _ => (.dropped false, s)
  | .inspectRegistry => (.text (Inspect.registry (s.registry number)), s)
  | .inspectDefinition definition =>
    match s.definition? number definition with
    | some d => (.text (Inspect.definition d.name (s.engine.templatesOf d.id)), s)
    | none => (.missing, s)
  | .inspectValidator validator =>
    match s.validators.lookup validator with
    | some v => (.text (Inspect.validator v), s)
    | none => (.missing, s)
  | .inspectHandle handle =>
    match s.handle? handle with
    | some handle => (.text (Inspect.handle (s.engine.isSettled handle.place)), s)
    | none => (.missing, s)
  | .unknown => (.missing, s)

/-- Carries out a step. -/
def exec (s : Session) (step : Step) : Response × Session :=
  match step.command with
  | .openRegistry source =>
    let (number, s) := s.openRegistry step.registry source
    (.size (s.registry number).size, s)
  | command =>
    match s.registryNumber? step.registry with
    | some number => s.execIn number command
    | none => (.missing, s)

/-- What a session lets see of an event: invocations of scripted bodies, what these were told, and
labelled completions. The log of registrations, removals, builds and repeated settlements is seen
only by those who ask for it. -/
def notice? (s : Session) (logged : Bool) : Event → Option Notice
  | .invoked _ rule scripted value params =>
    if scripted then some (.called rule value params) else none
  | .judged _ _ _ => none
  | .told _ _ => none
  | .settledBy rule report => some (.settledBy rule report)
  | .completed call result => (s.labels.lookup call).map fun label => .completed label result
  | .returned _ _ => none
  | .registered _ rule replaced => if logged then some (.registered rule replaced) else none
  | .removed _ rule => if logged then some (.removed rule) else none
  | .built checks => if logged then some (.built checks) else none
  | .repeated _ => if logged then some .repeated else none

/-- The notices of what happened since an earlier state of the session, in order. -/
def noticesSince (s earlier : Session) (logged : Bool) : List Notice :=
  let news := s.engine.journal.take (s.engine.journal.length - earlier.engine.journal.length)
  news.reverse.filterMap (s.notice? logged)

/-- Carries out steps in order. -/
def run (logged : Bool) : Session → List Step → List (Response × List Notice)
  | _, [] => []
  | s, step :: rest =>
    let (response, next) := s.exec step
    (response, next.noticesSince s logged) :: run logged next rest

end Session

/-- What comes of a script: the notices of making its registry, and an entry for each step. -/
structure Transcript where
  setup : List Notice
  steps : List (Response × List Notice)

/-- Runs a script in a fresh session whose registry `main` comes from the given source. -/
def Transcript.ofScript (logged : Bool) (source : RegistrySource) (steps : List Step) :
    Transcript :=
  let (_, s) := Session.fresh.openRegistry "main" source
  ⟨s.noticesSince Session.fresh logged, s.run logged steps⟩

end Criteria
