import Criteria.Proofs.Lineage.Capture

/-!
# Evaluating by number

A check holds the bodies of its rules, so evaluating it is a recursion on a finite tree. The validators of
a program share their definitions instead: a rule clause refers to one, whose body may be a validator
again. `Engine.ByNumber` evaluates this way. It takes nothing from a rule clause but the number of its
definition, looks the body up in a table of all definitions, and counts the checks that it starts. The
table may refer to itself, and then evaluation would go on for ever (`evaluate_of_cycle`); so it comes with
a limit on how deep validators may lie inside each other, and comes to nothing when that is met.

In a table in which validators refer only to definitions with lower numbers than their own the limit is
never met: evaluation comes to an end with what the engine comes to, and it has started no more checks than
there are in the tree (`call_eq`).
-/

namespace Criteria
set_option autoImplicit false

mutual

/-- The number of checks in a body, those in the bodies of its rules included. -/
def Body.extent : Body → Nat
  | .test _ => 0
  | .scripted _ => 0
  | .validator _ checks => Check.extentAll checks

/-- The number of checks in a check, itself and those in the bodies of its rules included. -/
def Check.extent : Check → Nat
  | .rule _ _ body _ _ => 1 + body.extent
  | .group members => 1 + Check.extentAll members

/-- The number of checks in checks. -/
def Check.extentAll : List Check → Nat
  | [] => 0
  | check :: rest => check.extent + Check.extentAll rest

end

/-- The number of checks in a validator, those in the bodies of its rules included. -/
def Validator.extent (v : Validator) : Nat := Check.extentAll v.checks

/-- Whether validators in a table of bodies refer only to definitions of this table with lower numbers. -/
def Descends (bodies : Nat → Option Body) : Prop :=
  ∀ definition (v : Validator), bodies definition = some v.body →
    ∀ d ∈ v.captured, bodies d.id = some d.body ∧ d.id < definition

namespace Engine.ByNumber

/-- Invokes the body of the definition of a number; comes to what the body replies and the number of
checks that it has started, or to nothing. -/
abbrev Invocation : Type :=
  Nat → String → List Json → Place → Handle → Engine → Option (Nat × Reply × Engine)

/-- Evaluates a list of checks that counts what it starts. -/
def runList (combinator : Combinator) (size : Nat) (value : Json) (place : Place) (onward : Route)
    (start : Route → Engine → Option (Nat × Engine)) (e : Engine) : Option (Nat × Bool × Engine) :=
  if size = 0 then some (0, combinator.identity, (deliver onward (.ok combinator.identity) e).2)
  else
    (start (.list place combinator value onward) (e.putList place (.start combinator size))).map
      fun (started, e) => (started, e.passed place, e)

mutual

/-- Starts the check of a place. -/
def start (invoke : Invocation) (value : Json) (place : Place) (into : Route) :
    Check → Engine → Option (Nat × Engine)
  | .rule definition name _ negated params, e =>
    let handle := .asked place ⟨definition, name, negated, params, value⟩ into
    (invoke definition name params place handle e).map fun (started, evaluated) =>
      (1 + started, heed handle evaluated)
  | .group members, e =>
    (runList .any members.length value place into (startAll invoke value place 0 members) e).map
      fun (started, _, e) => (1 + started, e)

/-- Starts the checks of the list at a place one after the other. -/
def startAll (invoke : Invocation) (value : Json) (place : Place) (position : Nat) :
    List Check → Route → Engine → Option (Nat × Engine)
  | [], _, e => some (0, e)
  | check :: rest, into, e =>
    if e.isRejected place then some (0, e)
    else
      (start invoke value (place.member position) into check e).bind fun (started, e) =>
        (startAll invoke value place (position + 1) rest into e).map fun (more, e) =>
          (started + more, e)

end

/-- Evaluates the body of the definition of a number, inside which validators may lie as deep as the limit
says. -/
def evaluate (bodies : Nat → Option Body) (value : Json) : Nat → Invocation
  | limit, definition, name, params, place, handle, e =>
    match bodies definition with
    | none => none
    | some (.validator _ checks) =>
      match limit with
      | 0 => none
      | limit + 1 =>
        (runList .all checks.length value place handle.route
          (startAll (evaluate bodies value limit) value place 0 checks)
          (e.note (.invoked place name false value params))).map fun (started, _, e) =>
            (started, .later, e)
    | some body => some (0, Engine.evaluate name value params place handle body e)

/-- Calls a validator. -/
def call (bodies : Nat → Option Body) (limit : Nat) (v : Validator) (value : Json) (e : Engine) :
    Option (Nat × Result × Engine) :=
  (runList .all v.checks.length value (.ofCall e.calls.size) (.call e.calls.size)
    (startAll (evaluate bodies value limit) value (.ofCall e.calls.size) 0 v.checks) (e.enter value)).map
      fun (started, ended) => (started, conclude e.calls.size ended)

/-! ## Evaluation in a table that descends -/

variable {bodies : Nat → Option Body} {invoke : Invocation} {value : Json}

/-- Whether invoking a definition by its number does what the engine does with its body. -/
def Serves (invoke : Invocation) (value : Json) (d : Definition) : Prop :=
  ∀ name params place handle e, ∃ started ≤ d.body.extent,
    invoke d.id name params place handle e =
      some (started, Engine.evaluate name value params place handle d.body e)

theorem runList_eq (combinator : Combinator) (size : Nat) (value : Json) (place : Place) (onward : Route)
    {start : Route → Engine → Option (Nat × Engine)} {plain : Route → Engine → Engine} {bound : Nat}
    (starts : ∀ into e, ∃ started ≤ bound, start into e = some (started, plain into e)) (e : Engine) :
    ∃ started ≤ bound, runList combinator size value place onward start e =
      some (started, Engine.runList combinator size value place onward plain e) := by
  rw [runList, Engine.runList]
  split
  · exact ⟨0, Nat.zero_le bound, rfl⟩
  · obtain ⟨started, le, same⟩ :=
      starts (.list place combinator value onward) (e.putList place (.start combinator size))
    exact ⟨started, le, by rw [same]; rfl⟩

mutual

theorem start_eq : (check : Check) → (∀ d ∈ check.captured, Serves invoke value d) →
    ∀ (place : Place) (into : Route) (e : Engine), ∃ started ≤ check.extent,
      start invoke value place into check e = some (started, Engine.start value place into check e)
  | .rule definition name body negated params => by
    intro serves place into e
    obtain ⟨started, le, same⟩ := serves ⟨definition, name, body⟩ List.mem_cons_self name params place
      (.asked place ⟨definition, name, negated, params, value⟩ into) e
    refine ⟨1 + started, Nat.add_le_add_left le 1, ?_⟩
    rw [start, same, Engine.start_rule]
    rfl
  | .group members => by
    intro serves place into e
    obtain ⟨started, le, same⟩ := runList_eq .any members.length value place into
      (fun into e => startAll_eq members serves place 0 into e) e
    refine ⟨1 + started, Nat.add_le_add_left le 1, ?_⟩
    rw [start, same, Engine.start]
    rfl

theorem startAll_eq : (checks : List Check) → (∀ d ∈ Check.capturedAll checks, Serves invoke value d) →
    ∀ (place : Place) (position : Nat) (into : Route) (e : Engine), ∃ started ≤ Check.extentAll checks,
      startAll invoke value place position checks into e =
        some (started, Engine.startAll value place position checks into e)
  | [] => by
    intro _ place position into e
    exact ⟨0, Nat.le_refl 0, by rw [startAll, Engine.startAll]⟩
  | check :: rest => by
    intro serves place position into e
    rw [startAll, Engine.startAll]
    split
    · exact ⟨0, Nat.zero_le _, rfl⟩
    · obtain ⟨started, le, first⟩ := start_eq check
        (fun d mem => serves d (List.mem_append_left _ mem)) (place.member position) into e
      obtain ⟨more, le', later⟩ := startAll_eq rest
        (fun d mem => serves d (List.mem_append_right _ mem)) place (position + 1) into
        (Engine.start value (place.member position) into check e)
      refine ⟨started + more, Nat.add_le_add le le', ?_⟩
      rw [first, Option.bind_some]
      exact congrArg (Option.map _) later

end

/-- **The limit is never met by a definition with a lower number**, by induction on the limit: inside a
validator that is its body, numbers are lower again. -/
theorem evaluate_serves (descends : Descends bodies) : ∀ (limit : Nat) (d : Definition),
    bodies d.id = some d.body → d.id < limit → Serves (evaluate bodies value limit) value d := by
  intro limit
  induction limit with
  | zero => exact fun d _ below => absurd below (Nat.not_lt_zero d.id)
  | succ limit ih =>
    intro d here below name params place handle e
    obtain ⟨id, own, body⟩ := d
    cases body with
    | test holds => exact ⟨0, Nat.le_refl 0, by simp only [evaluate, here]⟩
    | scripted plan => exact ⟨0, Nat.le_refl 0, by simp only [evaluate, here]⟩
    | validator age checks =>
      have serves : ∀ d ∈ Check.capturedAll checks, Serves (evaluate bodies value limit) value d := by
        intro d mem
        obtain ⟨there, lower⟩ := descends id ⟨age, checks⟩ here d mem
        exact ih d there (Nat.lt_of_lt_of_le lower (Nat.le_of_lt_succ below))
      obtain ⟨started, le, same⟩ := runList_eq .all checks.length value place handle.route
        (fun into e' => startAll_eq checks serves place 0 into e')
        (e.note (.invoked place name false value params))
      refine ⟨started, le, ?_⟩
      simp only [evaluate, here, same, Option.map_some, Engine.evaluate]

/-- **Calls by number come to an end** in a table that descends, with what the engine comes to. -/
theorem call_eq (descends : Descends bodies) {v : Validator} {limit : Nat}
    (refers : ∀ d ∈ v.captured, bodies d.id = some d.body ∧ d.id < limit) (value : Json) (e : Engine) :
    ∃ started ≤ v.extent, call bodies limit v value e = some (started, e.call v value) := by
  have serves : ∀ d ∈ v.captured, Serves (evaluate bodies value limit) value d :=
    fun d mem => evaluate_serves descends limit d (refers d mem).1 (refers d mem).2
  obtain ⟨started, le, same⟩ := runList_eq .all v.checks.length value (.ofCall e.calls.size)
    (.call e.calls.size) (fun into e' => startAll_eq v.checks serves (.ofCall e.calls.size) 0 into e')
    (e.enter value)
  exact ⟨started, le, by rw [call, same, Engine.call_eq]; rfl⟩

/-! ## Evaluation in a table that refers to itself -/

theorem isRejected_start (combinator : Combinator) (size : Nat) (place : Place) (e : Engine) :
    (e.putList place (.start combinator size)).isRejected place = false := by
  rw [isRejected, putList, Board.get?_put, if_pos rfl]
  rfl

/-- A definition whose body begins with a clause of the definition itself comes to nothing, whatever the
limit is. -/
theorem evaluate_of_cycle {definition age : Nat} {own : String} {body : Body} {negated : Bool}
    {given : List Json} {rest : List Check} (itself : bodies definition =
      some (.validator age (.rule definition own body negated given :: rest))) :
    ∀ (limit : Nat) (name : String) (params : List Json) (place : Place) (handle : Handle) (e : Engine),
      evaluate bodies value limit definition name params place handle e = none := by
  intro limit
  induction limit with
  | zero =>
    intro name params place handle e
    simp only [evaluate, itself]
  | succ limit ih =>
    intro name params place handle e
    simp only [evaluate, itself, runList, List.length_cons, Nat.succ_ne_zero, if_false, startAll,
      isRejected_start, Bool.false_eq_true, start, ih, Option.map_none, Option.bind_none]

end Engine.ByNumber
end Criteria
