import Criteria.Proofs.Registry.Log
import Criteria.Proofs.Snapshot.Definition

/-!
# The history of a registry

The history of a registry is what was added to it and removed from it, in order: by commands, by installing
standard rules and by making the registry with some. A step adds to the history of one registry at most, and does
to this registry and to its log what the changes of the history do (`Session.exec_does`). So whatever a session
has done, each of its registries is what its history makes of the empty one, and its log is what this history
notes (`registry_follows_history`).
-/

namespace Criteria
set_option autoImplicit false

/-- Whether definitions that are added later have later numbers. -/
def Registry.Rising (changes : List Change) : Prop :=
  changes.Pairwise fun c c' => ∀ d d', c = .add d → c' = .add d' → d.id < d'.id

/-- Whether the definitions that changes add have numbers in a range, later ones later numbers. -/
structure Registry.Numbered (low high : Nat) (changes : List Change) : Prop where
  le : low ≤ high
  bound : ∀ d, .add d ∈ changes → low ≤ d.id ∧ d.id < high
  rising : Rising changes

namespace Registry.Numbered

variable {low middle high : Nat} {changes more : List Change}

theorem none (le : low ≤ high) : Numbered low high [] :=
  ⟨le, fun _ mem => (List.not_mem_nil mem).elim, .nil⟩

/-- A change that adds nothing keeps any range. -/
theorem remove (le : low ≤ high) (name : String) : Numbered low high [.remove name] := by
  refine ⟨le, fun d mem => ?_, List.pairwise_singleton _ _⟩
  cases List.mem_singleton.1 mem

theorem add (d : Definition) : Numbered d.id (d.id + 1) [.add d] := by
  refine ⟨Nat.le_succ _, fun d' mem => ?_, List.pairwise_singleton _ _⟩
  cases List.mem_singleton.1 mem
  exact ⟨Nat.le_refl _, Nat.lt_succ_self _⟩

theorem append (first : Numbered low middle changes) (second : Numbered middle high more) :
    Numbered low high (changes ++ more) where
  le := Nat.le_trans first.le second.le
  bound d mem := by
    rcases List.mem_append.1 mem with early | late
    · exact ⟨(first.bound d early).1, Nat.lt_of_lt_of_le (first.bound d early).2 second.le⟩
    · exact ⟨Nat.le_trans first.le (second.bound d late).1, (second.bound d late).2⟩
  rising := by
    refine List.pairwise_append.2 ⟨first.rising, second.rising, ?_⟩
    rintro _ early _ late d d' rfl rfl
    exact Nat.lt_of_lt_of_le (first.bound d early).2 (second.bound d' late).1

end Registry.Numbered

namespace Session

/-! ## What steps do to registries -/

/-- The changes that installing rules makes, with definitions numbered from `first` on. -/
def installs (first : Nat) : List StandardRule → List Registry.Change
  | [] => []
  | rule :: rest => .add ⟨first, rule.name, rule.body⟩ :: installs (first + 1) rest

/-- What a command does to the registry in which it works. -/
def changesIn (s : Session) : Command → List Registry.Change
  | .addRule name body _ | .addDefinition name body _ _ =>
    match s.body? body with
    | some body => [.add ⟨s.engine.templates.size, name, body⟩]
    | none => []
  | .install rules => installs s.engine.templates.size rules
  | .remove name _ => [.remove name]
  | _ => []

/-- The rules that a registry is made with; the shared one is there already. -/
def rulesOf : RegistrySource → List StandardRule
  | .fresh defaults extras => startRules defaults extras
  | .shared => []

/-- What a step does to the registry of the given number. -/
def changes (s : Session) (number : Nat) (step : Step) : List Registry.Change :=
  match step.command with
  | .openRegistry source =>
    if s.registries.size = number then installs s.engine.templates.size (rulesOf source) else []
  | command => if s.registryNumber? step.registry = some number then s.changesIn command else []

/-- What steps do to the registry of the given number. -/
def changesAlong (s : Session) (number : Nat) : List Step → List Registry.Change
  | [] => []
  | step :: rest => s.changes number step ++ (s.exec step).2.changesAlong number rest

/-- What was done to a registry before a session began to log: the shared one got the default rules. -/
def beginning (number : Nat) : List Registry.Change :=
  if sharedRegistry = number then installs 0 StandardRule.defaults else []

/-- All that was done to the registry of the given number in a session that has carried out steps. -/
def history (number : Nat) (steps : List Step) : List Registry.Change :=
  beginning number ++ fresh.changesAlong number steps

/-! ## One step -/

variable {s t u : Session} {number : Nat}

/-- Every name that was given to a registry means one that is there. -/
structure Opened (s : Session) : Prop where
  shared : sharedRegistry < s.registries.size
  named : ∀ name number, s.registryNumber? name = some number → number < s.registries.size

theorem Opened.of_same (h : s.Opened) (size : t.registries.size = s.registries.size)
    (names : t.registryNames = s.registryNames) : t.Opened where
  shared := size ▸ h.shared
  named name number found := by
    rw [registryNumber?, names] at found
    exact size ▸ h.named name number found

theorem Opened.name (h : s.Opened) {registries : Store Registry} (more : s.registries.size ≤ registries.size)
    (name : String) {n : Nat} (there : n < registries.size) :
    Opened { s with registries, registryNames := (name, n) :: s.registryNames } where
  shared := Nat.lt_of_lt_of_le h.shared more
  named other number found := by
    rw [registryNumber?, List.lookup_cons] at found
    split at found
    · cases found
      exact there
    · exact Nat.lt_of_lt_of_le (h.named other number found) more

/-- What comes of a session changes one of its registries, and the log of this registry, as told. -/
structure Does (number : Nat) (s t : Session) (changes : List Registry.Change) : Prop where
  registry : t.registry number = (s.registry number).changed changes
  log : t.registryLog number = s.registryLog number ++ Registry.log number (s.registry number) changes
  numbered : Registry.Numbered s.engine.templates.size t.engine.templates.size changes
  opened : s.Opened → t.Opened

theorem registry_update (n : Nat) (there : n < s.registries.size) (change : Registry → Registry) :
    registry { s with registries := s.registries.update n change } number =
      if n = number then change (s.registry n) else s.registry number := by
  rw [registry, registry, Store.get?_update]
  split
  next same =>
    subst same
    rw [show s.registries.get? n = some _ from List.getElem?_eq_getElem there]
    rfl
  · rfl

theorem registry_of_new (new : s.registries.size ≤ number) : s.registry number = .empty := by
  rw [registry, show s.registries.get? number = none from List.getElem?_eq_none new]
  rfl

namespace Does

theorem of_same (registries : t.registries = s.registries) (names : t.registryNames = s.registryNames)
    (log : t.registryLog number = s.registryLog number)
    (le : s.engine.templates.size ≤ t.engine.templates.size) : Does number s t [] where
  registry := by rw [Session.registry, registries]; rfl
  log := log.trans (List.append_nil _).symm
  numbered := .none le
  opened before := before.of_same (congrArg Store.size registries) names

theorem refl (s : Session) : Does number s s [] := of_same rfl rfl rfl (Nat.le_refl _)

theorem nothing {n : Nat} (h : Does number s t []) : Does number s t (if n = number then [] else []) := by
  rwa [ite_self]

theorem trans {changes more : List Registry.Change} (first : Does number s t changes)
    (second : Does number t u more) : Does number s u (changes ++ more) where
  registry := by rw [second.registry, first.registry, Registry.changed_append]
  log := by rw [second.log, first.log, first.registry, Registry.log_append, List.append_assoc]
  numbered := first.numbered.append second.numbered
  opened before := second.opened (first.opened before)

/-- What is held changes no registry. -/
theorem hold (s : Session) (name : Option String) (d : Definition) : Does number s (s.hold name d) [] := by
  cases name <;> exact of_same rfl rfl rfl (Nat.le_refl _)

/-- One change of one registry, with what it notes. -/
theorem single (n : Nat) (c : Registry.Change)
    (registries : ∀ number, t.registry number = if n = number then c.apply (s.registry n) else s.registry number)
    (journal : t.engine.journal = (c.event? n (s.registry n)).toList ++ s.engine.journal)
    (numbered : Registry.Numbered s.engine.templates.size t.engine.templates.size [c])
    (opened : s.Opened → t.Opened) : Does number s t (if n = number then [c] else []) where
  registry := by
    rw [registries]
    split
    next same => rw [same]; rfl
    · rfl
  log := by
    rw [registryLog, journal, Registry.records_event]
    split
    next same => rw [← same, Registry.log, Registry.log, List.append_nil]; rfl
    · rfl
  numbered := by
    split
    · exact numbered
    · exact .none numbered.le
  opened := opened

/-- A new definition, which is registered. -/
theorem enlist (s : Session) {n : Nat} (there : n < s.registries.size) (name : String) (body : Body)
    (templates : Templates) :
    Does number s ((s.define name body templates).2.register n (s.define name body templates).1)
      (if n = number then [.add ⟨s.engine.templates.size, name, body⟩] else []) := by
  refine .single n _ (fun number => ?_) rfl ?_ fun before => before.of_same (Store.size_update _ _ _) rfl
  · exact registry_update n there fun r => r.insert ⟨s.engine.templates.size, name, body⟩
  · have size : (s.engine.define templates).templates.size = s.engine.templates.size + 1 := Store.size_add _ _
    exact size ▸ Registry.Numbered.add ⟨s.engine.templates.size, name, body⟩

theorem install {n : Nat} (rules : List StandardRule) : ∀ (s : Session), n < s.registries.size →
    Does number s (s.install n rules)
      (if n = number then installs s.engine.templates.size rules else []) := by
  induction rules with
  | nil =>
    intro s _
    rw [installs, ite_self]
    exact refl s
  | cons rule rest ih =>
    intro s there
    have first : Does number s (s.installRule n rule) _ := enlist s there rule.name rule.body rule.templates
    have there' : n < (s.installRule n rule).registries.size :=
      Nat.lt_of_lt_of_eq there (Store.size_update s.registries n _).symm
    have defined : (s.installRule n rule).engine.templates.size = s.engine.templates.size + 1 :=
      Store.size_add s.engine.templates rule.templates
    have both := first.trans (ih _ there')
    rw [defined] at both
    split at both
    next same => rwa [if_pos same]
    next other => rwa [if_neg other]

/-- A name that is given to a registry, which may be a new one. -/
theorem name (s : Session) (name : String) (n : Nat) {registries : Store Registry}
    (more : s.registries.size ≤ registries.size) (there : s.Opened → n < registries.size)
    (same : ∀ number, (registries.get? number).getD .empty = s.registry number) :
    Does number s { s with registries, registryNames := (name, n) :: s.registryNames } [] where
  registry := same number
  log := (List.append_nil _).symm
  numbered := .none (Nat.le_refl _)
  opened before := before.name more name (there before)

theorem openRegistry (s : Session) (name : String) (source : RegistrySource) :
    Does number s (s.openRegistry name source).2
      (if s.registries.size = number then installs s.engine.templates.size (rulesOf source) else []) := by
  cases source with
  | shared => exact (Does.name s name sharedRegistry (Nat.le_refl _) Opened.shared fun _ => rfl).nothing
  | fresh defaults extras =>
    have size : (s.registries.add .empty).size = s.registries.size + 1 := Store.size_add _ _
    have there : s.registries.size < (s.registries.add .empty).size := by omega
    refine (Does.name s name _ (Nat.le_of_lt there) (fun _ => there) fun number => ?_).trans
      (install (startRules defaults extras) _ there)
    rw [Store.get?_add]
    split
    next new => exact (registry_of_new (Nat.le_of_eq new.symm)).symm
    · rfl

/-- A removal, whether the name is there or not. -/
theorem remove (s : Session) {n : Nat} (there : n < s.registries.size) (name : String)
    (holding : Option String) :
    Does number s (s.execIn n (.remove name holding)).2 (if n = number then [.remove name] else []) := by
  rw [Session.execIn]
  cases found : (s.registry n).lookup? name with
  | none =>
    have absent : (s.registry n).contains name = false := by rw [Registry.contains, found]; rfl
    -- Nothing happens, and this is what removing an absent name makes of a registry.
    show Does number s s _
    refine .single n _ (fun number => ?_) ?_ (.remove (Nat.le_refl _) name) id
    · rw [Registry.Change.apply, Registry.erase_of_absent absent]
      split
      next same => rw [same]
      · rfl
    · rw [Registry.Change.event?, absent]
      rfl
  | some d =>
    have present : (s.registry n).contains name = true := by rw [Registry.contains, found]; rfl
    have removed : Does number s (note { s with
        registries := s.registries.update n fun r => r.erase name } (.removed n name))
        (if n = number then [.remove name] else []) := by
      refine .single n _ (fun _ => registry_update n there fun r => r.erase name) ?_ (.remove (Nat.le_refl _) name)
        fun before => before.of_same (Store.size_update _ _ _) rfl
      rw [Registry.Change.event?, present]
      rfl
    have both := removed.trans (hold _ holding d)
    rwa [List.append_nil] at both

/-- **Commands that work on registries and definitions** do to registries and logs what is told of them. -/
theorem execIn (s : Session) {n : Nat} (there : n < s.registries.size) {command : Command}
    (changes : command.changes = true) :
    Does number s (s.execIn n command).2 (if n = number then s.changesIn command else []) := by
  cases command with
  | openRegistry | contains | names | inspectRegistry | unknown => exact (refl s).nothing
  | addRule name body templates =>
    rw [Session.execIn, changesIn]
    cases s.body? body with
    | none => exact (refl s).nothing
    | some b => exact enlist s there name b templates
  | addDefinition name body templates holding =>
    rw [Session.execIn, changesIn]
    cases s.body? body with
    | none => exact (refl s).nothing
    | some b =>
      have enlisted : Does number s _ _ := enlist s there name b templates
      have both := enlisted.trans (hold _ holding ⟨s.engine.templates.size, name, b⟩)
      rwa [List.append_nil] at both
  | install rules => exact install rules s there
  | lookup reference holding =>
    rw [Session.execIn]
    cases s.definition? n reference with
    | none => exact (refl s).nothing
    | some d => exact (hold s holding d).nothing
  | remove name holding => exact remove s there name holding
  | setTemplate reference negated template =>
    rw [Session.execIn]
    cases found : s.definition? n reference with
    | none => exact (refl s).nothing
    | some d =>
      refine nothing (of_same rfl rfl rfl ?_)
      exact Nat.le_of_eq (Store.size_update s.engine.templates d.id _).symm
  | inspectDefinition reference =>
    rw [Session.execIn]
    cases s.definition? n reference <;> exact (refl s).nothing
  | _ => cases changes

end Does

theorem changesIn_of_other {command : Command} (other : command.changes = false) : s.changesIn command = [] := by
  cases command with
  | addRule | addDefinition | install | remove => cases other
  | _ => rfl

theorem changes_openRegistry {step : Step} {source : RegistrySource} (same : step.command = .openRegistry source) :
    s.changes number step =
      if s.registries.size = number then installs s.engine.templates.size (rulesOf source) else [] := by
  rw [changes, same]

theorem changes_of_other {step : Step} (other : ∀ source, step.command ≠ .openRegistry source) :
    s.changes number step =
      if s.registryNumber? step.registry = some number then s.changesIn step.command else [] := by
  rw [changes]
  split
  next source same => exact absurd same (other source)
  · rfl

/-- **A step** does to each registry and to its log what is told of it. -/
theorem exec_does (h : s.Stands .empty) (opened : s.Opened) (step : Step) :
    Does number s (s.exec step).2 (s.changes number step) := by
  cases kind : step.command.changes with
  | false =>
    have moved := Moved.exec h kind
    have other : ∀ source, step.command ≠ .openRegistry source := by
      intro source same
      rw [same] at kind
      cases kind
    rw [changes_of_other other, changesIn_of_other kind, ite_self]
    refine .of_same moved.registries moved.names (registryLog_of_moved h moved) ?_
    exact Nat.le_of_eq (congrArg Store.size (templates_of_moved h moved).symm)
  | true =>
    rw [exec]
    split
    next source same =>
      rw [changes_openRegistry same]
      exact .openRegistry s step.registry source
    next other =>
      rw [changes_of_other other]
      cases found : s.registryNumber? step.registry with
      | none => simpa using Does.refl s
      | some n => simpa using Does.execIn s (opened.named _ n found) kind

/-- **Any steps** do to each registry and to its log what is told of them. -/
theorem after_does (steps : List Step) : ∀ {s : Session}, s.Stands .empty → s.Opened →
    Does number s (s.after steps) (s.changesAlong number steps) := by
  induction steps with
  | nil => exact fun _ _ => .refl _
  | cons step rest ih =>
    intro s h opened
    have first : Does number s _ _ := exec_does h opened step
    exact first.trans (ih (h.exec step) (first.opened opened))

/-! ## From the start -/

/-- What a fresh session holds is made by the beginnings of its registries. -/
theorem fresh_began (number : Nat) :
    Session.fresh.registry number = Registry.empty.changed (beginning number) ∧
      Registry.Numbered 0 Session.fresh.engine.templates.size (beginning number) ∧ Session.fresh.Opened := by
  let bare : Session := { Session.empty with registries := Store.empty.add .empty }
  have opened : bare.Opened := ⟨Nat.zero_lt_one, fun name number found => by cases found⟩
  have made : Does number bare (bare.install sharedRegistry StandardRule.defaults) (beginning number) :=
    Does.install StandardRule.defaults bare opened.shared
  have nothing : bare.registry number = .empty := by
    rw [registry, Store.get?_add]
    split <;> rfl
  exact ⟨nothing ▸ made.registry, made.numbered, (made.opened opened).of_same rfl rfl⟩

/-- **Every registry and its log** are what the history of the registry makes of the empty one. -/
theorem registry_after (steps : List Step) (number : Nat) :
    (fresh.after steps).Opened ∧
      (fresh.after steps).registry number = Registry.empty.changed (history number steps) ∧
      Registry.log number .empty (beginning number) ++ (fresh.after steps).registryLog number =
        Registry.log number .empty (history number steps) ∧
      Registry.Rising (history number steps) := by
  obtain ⟨began, numbered, opened⟩ := fresh_began number
  have did : Does number _ _ _ := after_does steps stands_fresh opened
  have unlogged : fresh.registryLog number = [] := rfl
  refine ⟨did.opened opened, ?_, ?_, (numbered.append did.numbered).rising⟩
  · rw [did.registry, began, history, Registry.changed_append]
  · rw [did.log, unlogged, List.nil_append, began, history, Registry.log_append]

/-- **A removal** answers and holds what a lookup would, and takes away nothing else. -/
theorem exec_remove {registry : String} (found : s.registryNumber? registry = some number)
    (there : number < s.registries.size) (name : String) (holding : Option String) :
    let looked := s.exec ⟨registry, .lookup (.registered name) holding⟩
    let removed := s.exec ⟨registry, .remove name holding⟩
    removed.1 = looked.1 ∧ removed.2.definitions = looked.2.definitions ∧
      ∀ n other, (removed.2.registry n).lookup? other =
        if n = number ∧ other = name then none else (s.registry n).lookup? other := by
  simp only [exec, execIn, found, definition?]
  cases here : (s.registry number).lookup? name with
  | none =>
    refine ⟨rfl, rfl, fun n other => ?_⟩
    show (s.registry n).lookup? other = _
    split
    next is => rw [is.1, is.2, here]
    · rfl
  | some d =>
    have kept : ∀ (t : Session) n, (t.hold holding d).registry n = t.registry n := by
      intro t n
      cases holding <;> rfl
    refine ⟨rfl, by cases holding <;> rfl, fun n other => ?_⟩
    rw [kept]
    refine (congrArg (Registry.lookup? · other) (registry_update number there fun r => r.erase name)).trans ?_
    by_cases same : number = n
    · subst same
      simp [Registry.lookup?_erase, eq_comm]
    · simp [same, Ne.symm same]

end Session

/-- **A registry is what its history makes of it.** After any steps of a session, each registry holds a name when
the last change on this name has added it, and then the very definition that was added last, which has this name; no
two added definitions have the same number. The names are in code point order, each once, and the size counts them.
The log holds each registration, marked as a replacement when the name was there just before, and each removal of a
name that was there, so the new names less the removals make the size. A removal answers what a lookup would and takes
away nothing else. -/
theorem registry_follows_history (steps : List Step) (number : Nat) :
    let s := Session.fresh.after steps
    let r := s.registry number
    let history := Session.history number steps
    let log := Registry.log number .empty (Session.beginning number) ++ s.registryLog number
    (∀ name, r.contains name = true ↔ ∃ d, Registry.last? name history = some (.add d)) ∧
      (∀ name d, r.lookup? name = some d ↔ Registry.last? name history = some (.add d)) ∧
      (∀ name d, r.lookup? name = some d → d.name = name) ∧ Registry.Rising history ∧
      (∀ name, name ∈ r.names ↔ r.contains name = true) ∧ r.names.Pairwise (· < ·) ∧
      r.size = r.names.length ∧ (r.isEmpty = true ↔ r.size = 0) ∧
      log = Registry.log number .empty history ∧
      r.size + log.countP Event.isRemoval = log.countP Event.isAddition ∧
      ∀ registry name hold, s.registryNumber? registry = some number →
        let found := s.exec ⟨registry, .lookup (.registered name) hold⟩
        let removed := s.exec ⟨registry, .remove name hold⟩
        removed.1 = found.1 ∧ removed.2.definitions = found.2.definitions ∧
          ∀ n other, (removed.2.registry n).lookup? other =
            if n = number ∧ other = name then none else (s.registry n).lookup? other := by
  intro s r history log
  obtain ⟨opened, is, logged, rising⟩ := Session.registry_after steps number
  have found : ∀ name d, r.lookup? name = some d ↔ Registry.last? name history = some (.add d) := by
    intro name d
    rw [show r = Registry.empty.changed history from is, Registry.lookup?_changed]
    cases last : Registry.last? name history with
    | none => simp [Registry.lookup?, Registry.empty]
    | some c => cases c <;> simp [Registry.Change.made?]
  refine ⟨fun name => ?_, found, fun name d => Registry.name_of_lookup?, rising, fun name => Registry.mem_names,
    r.pairwise_names, r.length_names.symm, Registry.isEmpty_iff, logged, ?_, ?_⟩
  · rw [Registry.contains_iff]
    exact exists_congr (found name)
  · rw [show log = Registry.log number .empty history from logged, show r = _ from is]
    exact (Registry.size_changed number history .empty).trans (Nat.zero_add _)
  · intro registry name hold named
    exact Session.exec_remove named (opened.named registry number named) name hold

/-- Registers a rule that every value passes. -/
def Step.registering (name : String) : Step := ⟨"main", .addRule name (.test (.constant true)) ⟨none, none⟩⟩

/-- Registers two rules, removes the first and registers the second again. -/
def Step.reregistering : List Step :=
  [⟨"main", .openRegistry (.fresh false false)⟩, .registering "b", .registering "a",
    ⟨"main", .remove "b" none⟩, .registering "a"]

theorem registry_follows_history_replaced :
    let s := Session.fresh.after Step.reregistering
    s.registryNumber? "main" = some 1 ∧ (s.registry 1).names = ["a"] ∧ (s.registry 1).size = 1 ∧
      ((s.registry 1).lookup? "a").map (·.id) = some 12 ∧
      s.registryLog 1 = [.registered 1 "b" false, .registered 1 "a" false, .removed 1 "b",
        .registered 1 "a" true] ∧
      (s.exec ⟨"main", .remove "a" none⟩).1 = (s.exec ⟨"main", .lookup (.registered "a") none⟩).1 := by
  intro s
  obtain ⟨-, -, -, -, -, -, -, -, -, -, removal⟩ := registry_follows_history Step.reregistering 1
  have named : s.registryNumber? "main" = some 1 := rfl
  exact ⟨named, rfl, rfl, rfl, rfl, (removal "main" "a" none named).1⟩

end Criteria
