import Criteria.Proofs.Error.Instant

/-!
# What runs keep of the order of alternatives

In every run rule clauses are invoked before they are judged, and alternatives that answer at once come to
something before the next one is started (`Reached.run`). `Laid` says which lists of clauses there are
in a run: those of the validators that were called or evaluated, those of the groups in them, and those of
the validators that serve as their rules.
-/

namespace Criteria
set_option autoImplicit false

variable {layout later : Layout} {active : Option Root} {e e' : Engine}

/-! ## Invoked before judged -/

namespace Timely

/-- What is judged while nothing is invoked was invoked before. -/
theorem passive (timely : Timely e.journal) (placed : Placed layout e') (passive : Passive e e')
    (sub : e.journal <:+ e'.journal) : Timely e'.journal := by
  intro p answer result before behind
  rcases suffix_cases behind sub with ahead | inside
  · obtain ⟨rule, scripted, value, params, mem⟩ :=
      (placed.judged p answer result (behind.subset List.mem_cons_self)).1
    have listed : ⟨p, rule, value, params⟩ ∈ invocations e.journal :=
      passive ▸ mem_invocations.2 ⟨scripted, mem⟩
    exact (issued_of_mem_invocations listed).mono ahead
  · exact timely p answer result before inside

theorem invoke (timely : Timely e.journal) (p : Place) (rule : String) (scripted : Bool)
    (value : Json) (params : List Json) :
    Timely (e.note (.invoked p rule scripted value params)).journal := by
  intro q answer result before behind
  rcases List.suffix_cons_iff.1 behind with impossible | inside
  · cases impossible
  · exact timely q answer result before inside

end Timely

theorem EvalStep.timely (step : EvalStep layout active e e') (h : Sound layout e)
    (timely : Timely e.journal) : Timely e'.journal := by
  have placed := (step.sound h).toPlaced
  have sub := step.grows.journal.suffix
  cases step with
  | @invoke p rule scripted value params => exact timely.invoke p rule scripted value params
  | @pass p _ handle rule value params =>
    exact (timely.invoke p rule false value params).passive placed
      (deliver_passive handle.route (.ok true) _)
      (deliver_rests handle.route (.ok true) _).journal.suffix
  | settle _ _ answer => exact timely.passive placed (settle_passive e _ answer) sub
  | told => exact timely.passive placed (.note e rfl) sub
  | openList | park => exact timely

theorem RunStep.timely (step : RunStep (layout, e) (later, e')) (h : Sound layout e)
    (timely : Timely e.journal) : Timely e'.journal := by
  have placed := (step.sound h).toPlaced
  have sub := (step.follows h).journal
  cases step with
  | eval _ step => exact step.timely h timely
  | accept value => exact timely.passive placed (complete_passive (e.enter value) _ _) sub
  | leave => exact timely.passive placed (Passive.note (e.updateCall _ _) rfl) sub
  | @log _ _ event logged =>
    have other : event.invocation? = none := by
      cases event with
      | invoked => exact logged.elim
      | _ => rfl
    exact timely.passive placed (.note e other) sub
  | enter | loosen | lend | drop | define | setTemplate => exact timely

/-- **In every run** rule clauses are invoked before they are judged. -/
theorem Trace.timely {finish : Layout × Engine} (trace : Trace (.empty, .empty) finish) :
    Timely finish.2.journal := by
  induction trace with
  | refl =>
    intro p answer result before behind
    cases List.eq_nil_of_suffix_nil behind
  | @tail middle finish steps step ih => exact step.timely (Trace.sound steps sound_empty) ih

/-! ## Alternatives in order -/

/-- A layout that adds to one adds no alternatives to what was invoked. -/
theorem Layout.Orderly.extend (orderly : layout.Orderly e.journal) (h : Placed layout e)
    (ext : layout.Extends later) : later.Orderly e.journal := by
  intro x rule scripted value params before behind w o i j check found any less inside here instant
  have known : e.Known x := .inr ⟨rule, scripted, value, params, behind.subset List.mem_cons_self⟩
  have encloses : w.Encloses x := (w.encloses_member j).trans inside
  have other : w ≠ x := by
    rintro rfl
    exact Place.not_member_encloses w j inside
  obtain ⟨own, opened⟩ := h.opened w (h.opened_above known encloses other)
  obtain rfl := Option.some.inj ((ext.opening? opened).symm.trans found)
  exact orderly x rule scripted value params before behind w own i j check opened any less inside here
    instant

/-- Nothing stands before the list of a call or of a loose evaluation. -/
theorem Layout.prepared_root (layout : Layout) (root : Root) (journal : Journal) :
    layout.Prepared ⟨root, []⟩ journal := by
  intro w o i j check _ _ _ inside
  simp [Place.Encloses, Place.member] at inside

/-- A call starts alternatives in order. -/
theorem call_orderly (h : Sound layout e) (relayed : Relayed layout e.journal)
    (orderly : layout.Orderly e.journal) {v : Validator} (wf : v.wellFormed = true) (value : Json) :
    (layout.withCall e.calls.size v.checks value).Orderly (e.call v value).2.journal := by
  have entered : (layout.withCall e.calls.size v.checks value).Orderly (e.enter value).journal :=
    orderly.extend h.toPlaced (Layout.extends_extend h.new_call _)
  by_cases empty : v.checks = []
  · rw [Engine.call_of_empty empty]
    have completed := entered.passive (complete_passive (e.enter value) e.calls.size (.ok true))
      (complete_rests (e.enter value) e.calls.size (.ok true)).journal.suffix
    exact completed.passive (Passive.note (Engine.updateCall _ _ _) rfl) (List.suffix_cons _ _)
  · rw [Engine.call_of_inhabited empty]
    have sound := h.enter wf empty value
    have here : (layout.withCall e.calls.size v.checks value).opening? (.ofCall e.calls.size) =
      some (.ofCall e.calls.size v.checks value) := Layout.extend_self _ _ _
    obtain ⟨opens, opened, fresh⟩ := opened_runs h empty value
    have joined : Relayed (layout.withCall e.calls.size v.checks value) (e.enter value).journal :=
      relayed.extend h.toPlaced h.new_call (h.unissued_call _) _
    have started := (startAll_orderly v.checks (k := 0) here
      (fun j check here => by rwa [Nat.zero_add]) rfl (opens.sound sound) (opens.relayed sound joined)
      entered (Layout.prepared_root _ _ _) (fun impossible => by cases impossible) opened
      fun j _ => fresh j).1
    exact Layout.Orderly.passive (e := e.started v.checks value) started
      (Passive.note (Engine.updateCall _ _ _) rfl) (List.suffix_cons _ _)

/-- What a move other than a call or an evaluation does starts nothing. -/
theorem move_passive {m : Move} (valid : m.Valid) (still : ¬ m.Evaluates) (e : Engine) :
    Passive e (e.move m) := by
  cases m with
  | settle index answer =>
    rw [Engine.move]
    split
    · exact settle_passive e _ answer
    · exact .refl e
  | log event =>
    refine .note e ?_
    cases event with
    | invoked => exact valid.elim
    | _ => rfl
  | drop | make | define | setTemplate => exact .refl e
  | call | evaluate => exact absurd trivial still

/-! ## The lists of a run -/

/-- Whether a list of clauses stands at a place in the course of moves, and how its clauses combine. -/
inductive Laid (moves : List Move) : Place → Combinator → List Check → Json → Prop where
  /-- The list of a validator that is called. -/
  | call {earlier later : List Move} {v : Validator} {value : Json}
      (made : moves = earlier ++ .call v value :: later) :
      Laid moves (.ofCall (Engine.empty.run earlier).calls.size) .all v.checks value
  /-- The list of a validator that is evaluated as the body of a definition. -/
  | loose {earlier later : List Move} {d : Definition} {value : Json} {params : List Json}
      {handle : Option Nat} {age : Nat} {checks : List Check}
      (made : moves = earlier ++ .evaluate d value params handle :: later)
      (body : d.body = .validator age checks) :
      Laid moves ⟨.loose (Engine.empty.run earlier).loose, []⟩ .all checks value
  /-- The members of a group. -/
  | group {p : Place} {combinator : Combinator} {checks members : List Check} {value : Json} {k : Nat}
      (outer : Laid moves p combinator checks value) (here : checks[k]? = some (.group members)) :
      Laid moves (p.member k) .any members value
  /-- The list of a validator that serves as a rule. -/
  | rule {p : Place} {combinator : Combinator} {checks inner : List Check} {value : Json} {k : Nat}
      {definition : Nat} {name : String} {age : Nat} {negated : Bool} {params : List Json}
      (outer : Laid moves p combinator checks value)
      (here : checks[k]? = some (.rule definition name (.validator age inner) negated params)) :
      Laid moves (p.member k) .all inner value

theorem Laid.append {moves : List Move} {p : Place} {combinator : Combinator} {checks : List Check}
    {value : Json} (h : Laid moves p combinator checks value) (more : List Move) :
    Laid (moves ++ more) p combinator checks value := by
  induction h with
  | @call earlier later v value made =>
    have longer : moves ++ more = earlier ++ .call v value :: (later ++ more) := by
      rw [made, List.append_assoc, List.cons_append]
    exact .call longer
  | @loose earlier later d value params handle age checks made body =>
    have longer : moves ++ more = earlier ++ .evaluate d value params handle :: (later ++ more) := by
      rw [made, List.append_assoc, List.cons_append]
    exact .loose longer body
  | group _ here ih => exact .group ih here
  | rule _ here ih => exact .rule ih here

/-- What moves reach, with the lists that they have laid out. -/
structure Reached (moves : List Move) (layout : Layout) : Prop where
  trace : Trace (.empty, .empty) (layout, Engine.empty.run moves)
  orderly : layout.Orderly (Engine.empty.run moves).journal
  roots : ∀ root o, layout root = some o → Laid moves ⟨root, []⟩ o.combinator o.checks o.value

namespace Reached

variable {moves : List Move}

theorem sound (h : Reached moves layout) : Sound layout (Engine.empty.run moves) :=
  Trace.sound h.trace sound_empty

/-- Every list of the layout stands in the run. -/
theorem laid (h : Reached moves layout) : ∀ {p : Place} {o : Opening},
    layout.opening? p = some o → Laid moves p o.combinator o.checks o.value := by
  rintro ⟨root, path⟩ o found
  induction path generalizing o with
  | nil => exact h.roots root o found
  | cons k path ih =>
    obtain ⟨outer, above, member⟩ := Option.bind_eq_some_iff.1 found
    obtain ⟨members, group, rfl⟩ | ⟨_, _, _, _, _, _, rule, -, rfl⟩ := Opening.member?_eq_some member
    · exact .group (ih above) group
    · exact .rule (ih above) rule

/-- **A call** adds its list. -/
theorem call (h : Reached moves layout) {v : Validator} (built : v.Built) (value : Json) :
    Reached (moves ++ [.call v value])
      (layout.withCall (Engine.empty.run moves).calls.size v.checks value) := by
  have ran : Engine.empty.run (moves ++ [.call v value]) =
      ((Engine.empty.run moves).call v value).2 := by
    rw [Engine.run_append]
    rfl
  obtain ⟨_, steady, -⟩ := call_made h.sound built.wellFormed value
  refine ⟨?_, ?_, fun root o found => ?_⟩
  · rw [ran]
    exact h.trace.trans steady.trace
  · rw [ran]
    exact call_orderly h.sound (Trace.relayed h.trace) h.orderly built.wellFormed value
  · by_cases same : root = .call (Engine.empty.run moves).calls.size
    · subst same
      obtain rfl := Option.some.inj ((layout.withCall_self _ _ _).symm.trans found)
      have made : moves ++ [.call v value] = moves ++ .call v value :: [] := rfl
      exact .call made
    · have before : layout root = some o := (Layout.extend_of_ne same _).symm.trans found
      exact (h.roots root o before).append _

/-- An evaluation adds the list of the validator that it evaluates, if it does. -/
theorem evaluate (h : Reached moves layout) {d : Definition} (built : d.body.Built) (value : Json)
    (params : List Json) (index : Option Nat) {handle : Handle}
    (lends : layout.Lends (Engine.empty.run moves).journal handle)
    (kept : some handle ∈ (Engine.empty.run moves).parked ∨
      handle = .detached (Engine.empty.run moves).loosePlace)
    (ran : Engine.empty.run (moves ++ [.evaluate d value params index]) =
      (Engine.evaluate d.name value params (Engine.empty.run moves).loosePlace handle d.body
        (Engine.empty.run moves).takeLoose).2) :
    ∃ later, Reached (moves ++ [.evaluate d value params index]) later ∧ layout.Extends later := by
  obtain ⟨later, begins, laid, invited⟩ := evaluate_invited h.sound built value lends kept
  have sound := begins.sound h.sound
  have begun : Trace (.empty, .empty) (later, (Engine.empty.run moves).takeLoose) :=
    h.trace.tail begins
  have runs := (evaluate_runs d.name params d.body _ value _ handle sound invited).1
  refine ⟨later, ⟨?_, ?_, fun root o found => ?_⟩, (begins.follows h.sound).layout⟩
  · rw [ran]
    exact begun.trans (runs.steady fun _ impossible => by cases impossible).trace
  · rw [ran]
    have ordered : later.Orderly (Engine.empty.run moves).takeLoose.journal :=
      h.orderly.extend h.sound.toPlaced (begins.follows h.sound).layout
    exact (evaluate_orderly d.name params d.body _ value _ handle sound (Trace.relayed begun) ordered
      (Layout.prepared_root _ _ _) invited).1
  · obtain rfl | ⟨age, checks, body, rfl⟩ := laid
    · exact (h.roots root o found).append _
    · by_cases same : root = .loose (Engine.empty.run moves).loose
      · subst same
        obtain rfl := Option.some.inj ((Layout.extend_self layout _ _).symm.trans found)
        have made : moves ++ [.evaluate d value params index] =
          moves ++ .evaluate d value params index :: [] := rfl
        exact .loose made body
      · rw [Layout.extend_of_ne same] at found
        exact (h.roots root o found).append _

/-- A move that evaluates nothing adds no list. -/
theorem still (h : Reached moves layout) {m : Move} (valid : m.Valid) (still : ¬ m.Evaluates) :
    Reached (moves ++ [m]) layout := by
  have ran : Engine.empty.run (moves ++ [m]) = (Engine.empty.run moves).move m := by
    rw [Engine.run_append]
    rfl
  have steps := move_trace_stays h.sound valid still
  refine ⟨?_, ?_, fun root o found => (h.roots root o found).append _⟩
  · rw [ran]
    exact h.trace.trans steps
  · rw [ran]
    exact h.orderly.passive (move_passive valid still _) (Trace.follows steps h.sound).journal

/-- **One more move.** -/
theorem move (h : Reached moves layout) {m : Move} (valid : m.Valid) :
    ∃ later, Reached (moves ++ [m]) later ∧ layout.Extends later := by
  have ran : Engine.empty.run (moves ++ [m]) = (Engine.empty.run moves).move m := by
    rw [Engine.run_append]
    rfl
  cases m with
  | call v value => exact ⟨_, h.call valid value, Layout.extends_extend h.sound.new_call _⟩
  | evaluate d value params index =>
    cases index with
    | none =>
      have lends : layout.Lends (Engine.empty.run moves).journal
        (.detached (Engine.empty.run moves).loosePlace) := ⟨rfl, trivial⟩
      exact h.evaluate valid value params none lends (.inr rfl) ran
    | some index =>
      rw [Engine.move] at ran
      cases kept : (Engine.empty.run moves).parked? index with
      | none =>
        rw [kept] at ran
        exact ⟨layout, ⟨ran ▸ h.trace, ran ▸ h.orderly, fun root o found =>
          (h.roots root o found).append _⟩, .refl layout⟩
      | some handle =>
        rw [kept] at ran
        exact h.evaluate valid value params (some index) (h.sound.lends_parked? kept)
          (.inl (Engine.mem_of_parked? kept)) ran
  | settle | drop | make | define | setTemplate | log =>
    exact ⟨layout, h.still valid id, .refl layout⟩

/-- **More moves** keep the lists that are there. -/
theorem run (more : List Move) : ∀ {moves : List Move} {layout : Layout}, Reached moves layout →
    (∀ m ∈ more, m.Valid) → ∃ later, Reached (moves ++ more) later ∧ layout.Extends later := by
  induction more with
  | nil =>
    intro moves layout h _
    exact ⟨layout, by rwa [List.append_nil], .refl layout⟩
  | cons m more ih =>
    intro moves layout h valid
    obtain ⟨middle, first, extends_⟩ := h.move (valid m List.mem_cons_self)
    obtain ⟨later, rest, more_⟩ := ih first fun m mem => valid m (List.mem_cons_of_mem _ mem)
    rw [List.append_assoc, List.singleton_append] at rest
    exact ⟨later, rest, extends_.trans more_⟩

end Reached

end Criteria
