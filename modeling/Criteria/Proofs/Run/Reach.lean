import Criteria.Proofs.Engine.Confined
import Criteria.Proofs.Run.Call

/-!
# Everything that moves reach

Each move is a sequence of steps, and so is each list of moves, so all that moves can reach from the
empty engine is sound, and every judgement is worded by the templates as they were when its move began
(`run_course`). `run_call` looks at one call in the middle of a run: what it returned by then, and
what later moves leave of it.
-/

namespace Criteria
set_option autoImplicit false

variable {layout later : Layout} {active : Option Root} {e e' : Engine}

/-! ## Moves are steps -/

/-- A call as steps, with its return. -/
theorem call_made (h : Sound layout e) {v : Validator} (wf : v.wellFormed = true) (value : Json) :
    ∃ before : Journal,
      Steady (layout, e) (layout.withCall e.calls.size v.checks value, (e.call v value).2) ∧
      (e.call v value).2.journal = .returned e.calls.size (e.call v value).1 :: before ∧
      (e.call v value).1 = answerNow ((Opening.ofCall e.calls.size v.checks value).decision?
        (.ofCall e.calls.size) before) ∧
      (firstFailure? ((Opening.ofCall e.calls.size v.checks value).results
          (.ofCall e.calls.size) before) = none →
        Check.AllStarted value (.ofCall e.calls.size) before 0 v.checks) := by
  obtain ⟨during, steady, prolongs, size, started, made⟩ := call_trace h wf value
  have pending : returned? e.calls.size during.journal = none :=
    (prolongs.returned? _).trans (h.unheard _ (Nat.le_refl _)).1
  rw [made]
  have leaves := RunStep.leave (layout.withCall_self e.calls.size v.checks value) pending
  exact ⟨during.journal, steady.tail ⟨leaves, rfl⟩, rfl, rfl, started⟩

/-- An evaluation of a body outside of calls takes a loose place, where the body may be invoked. For a
validator its list is laid out there and passes its decision on to the handle. -/
theorem evaluate_invited (h : Sound layout e) {d : Definition} (built : d.body.Built) (value : Json)
    {handle : Handle} (lends : layout.Lends e.journal handle)
    (kept : some handle ∈ e.parked ∨ handle = .detached e.loosePlace) :
    ∃ later, RunStep (layout, e) (later, e.takeLoose) ∧
      (later = layout ∨ ∃ age checks, d.body = .validator age checks ∧
        later = layout.extend (.loose e.loose) ⟨.all, checks, value, handle.route⟩) ∧
      Invited later (some e.loosePlace.root) e.takeLoose d.body value e.loosePlace handle := by
  have fresh : ∀ x, e.loosePlace.Encloses x → ¬ e.takeLoose.Known x := fun x inside =>
    h.toPlaced.unknown h.new_loose h.unissued_loose inside.1.symm
  have owned : ∀ {later : Layout} (journal : Journal), layout.Extends later →
      e.journal <:+ journal → later.Owns journal handle := fun journal ext sub =>
    lends.owns.mono ext sub
  have held : e.takeLoose.Held (some e.loosePlace.root) handle := by
    obtain mem | rfl := kept
    · exact .inl mem
    · exact .inr rfl
  have root : e.loosePlace.path = [] → ∃ n, e.loosePlace.root = .loose n ∧ n < e.takeLoose.loose :=
    fun _ => ⟨e.loose, rfl, Nat.lt_succ_self _⟩
  have above : ∀ w i, e.loosePlace = w.member i → e.takeLoose.Opened w := fun w i impossible => by
    simp [Place.member, Engine.loosePlace] at impossible
  by_cases validator : ∃ age checks, d.body = .validator age checks
  · obtain ⟨age, checks, body⟩ := validator
    have wf : Check.allWellFormed checks = true := by
      have := built.wellFormed
      rwa [body] at this
    have ext := Layout.extends_extend h.new_loose ⟨.all, checks, value, handle.route⟩
    have here := Layout.extend_self layout (.loose e.loose) ⟨.all, checks, value, handle.route⟩
    refine ⟨_, .lend wf value lends kept, .inr ⟨age, checks, body, rfl⟩, rfl, held,
      fun _ => (lends.mono ext (List.suffix_refl _)).free, fresh, above, root,
      fun journal _ sub => owned journal ext sub, fun age' checks' same => ?_,
      fun other => absurd body (other age checks)⟩
    rw [body] at same
    cases same
    exact here
  · exact ⟨layout, .loosen, .inl rfl, rfl, held, fun _ => lends.free, fresh, above, root,
      fun journal _ sub => owned journal (.refl layout) sub,
      fun age checks body => absurd ⟨age, checks, body⟩ validator, fun _ => h.new_loose⟩

/-- The evaluation goes on below the loose place. -/
theorem evaluate_begun (h : Sound layout e) {d : Definition} (built : d.body.Built) (value : Json)
    (params : List Json) {handle : Handle} (lends : layout.Lends e.journal handle)
    (kept : some handle ∈ e.parked ∨ handle = .detached e.loosePlace) :
    ∃ later, RunStep (layout, e) (later, e.takeLoose) ∧
      (∀ first, later e.loosePlace.root = some first → first.onward = handle.route) ∧
      Runs later (some e.loosePlace.root) e.loosePlace.Encloses e.takeLoose
        (Engine.evaluate d.name value params e.loosePlace handle d.body e.takeLoose).2 := by
  obtain ⟨later, begins, laid, invited⟩ := evaluate_invited h built value lends kept
  refine ⟨later, begins, fun first found => ?_,
    (evaluate_runs d.name params d.body _ value _ handle (begins.sound h) invited).1⟩
  obtain rfl | ⟨age, checks, -, rfl⟩ := laid
  · cases found.symm.trans h.new_loose
  · obtain rfl := Option.some.inj ((Layout.extend_self layout _ _).symm.trans found)
    rfl

theorem evaluate_steady (h : Sound layout e) {d : Definition} (built : d.body.Built) (value : Json)
    (params : List Json) {handle : Handle} (lends : layout.Lends e.journal handle)
    (kept : some handle ∈ e.parked ∨ handle = .detached e.loosePlace) :
    ∃ later, Steady (layout, e) (later,
      (Engine.evaluate d.name value params e.loosePlace handle d.body e.takeLoose).2) := by
  obtain ⟨later, begins, -, runs⟩ := evaluate_begun h built value params lends kept
  exact ⟨later, .trans (.single ⟨begins, rfl⟩)
    (runs.steady fun _ impossible => by cases impossible)⟩

/-- A move that evaluates nothing and edits no templates leaves the layout as it is. -/
theorem move_stays (h : Sound layout e) {m : Move} (valid : m.Valid) (uncut : ¬ m.Edits)
    (still : ¬ m.Evaluates) : Steady (layout, e) (layout, e.move m) := by
  cases m with
  | settle index answer =>
    rw [Engine.move]
    cases kept : e.parked? index with
    | none => exact .refl
    | some handle =>
      have settled : EvalStep layout none e (Engine.settle handle answer e).2 :=
        .settle (h.lends_parked? kept) (.inl (Engine.mem_of_parked? kept)) answer
      exact .single ⟨.eval (fun _ impossible => by cases impossible) settled,
        settled.grows.templates⟩
  | drop index => exact .single ⟨.drop index, rfl⟩
  | make =>
    have parked : EvalStep layout (some e.loosePlace.root) e.takeLoose
        (e.takeLoose.park (.detached e.loosePlace)) := .park ⟨rfl, trivial⟩ (.inr rfl)
    exact .trans (.single ⟨.loosen, rfl⟩)
      (.single ⟨.eval (fun _ impossible => by cases impossible) parked, rfl⟩)
  | log event => exact .single ⟨.log valid, rfl⟩
  | call | evaluate => exact absurd trivial still
  | define | setTemplate => exact absurd trivial uncut

/-- A move that edits no templates, as steps that edit none. -/
theorem move_steady (h : Sound layout e) {m : Move} (valid : m.Valid) (uncut : ¬ m.Edits) :
    ∃ later, Steady (layout, e) (later, e.move m) := by
  cases m with
  | call v value =>
    obtain ⟨_, steady, -⟩ := call_made h (Validator.Built.wellFormed valid) value
    exact ⟨_, steady⟩
  | evaluate d value params handle =>
    cases handle with
    | none =>
      have lends : layout.Lends e.journal (.detached e.loosePlace) := ⟨rfl, trivial⟩
      exact evaluate_steady h valid value params lends (.inr rfl)
    | some index =>
      rw [Engine.move]
      cases kept : e.parked? index with
      | none => exact ⟨layout, .refl⟩
      | some handle =>
        exact evaluate_steady h valid value params (h.lends_parked? kept)
          (.inl (Engine.mem_of_parked? kept))
  | settle | drop | make | define | setTemplate | log =>
    exact ⟨layout, move_stays h valid uncut id⟩

/-- **Moves that edit no templates**, as steps that edit none. -/
theorem run_steady {moves : List Move} : ∀ {layout : Layout} {e : Engine}, Sound layout e →
    (∀ m ∈ moves, m.Valid) → (∀ m ∈ moves, ¬ m.Edits) →
      ∃ later, Steady (layout, e) (later, e.run moves) := by
  induction moves with
  | nil => exact fun {layout} _ _ _ _ => ⟨layout, .refl⟩
  | cons m moves ih =>
    intro layout e h valid uncut
    obtain ⟨middle, first⟩ := move_steady h (valid m List.mem_cons_self) (uncut m List.mem_cons_self)
    obtain ⟨later, rest⟩ := ih (Trace.sound first.trace h)
      (fun m mem => valid m (List.mem_cons_of_mem _ mem))
      fun m mem => uncut m (List.mem_cons_of_mem _ mem)
    exact ⟨later, first.trans rest⟩

theorem Steady.templates {start finish : Layout × Engine} (steady : Steady start finish) :
    finish.2.templates = start.2.templates := by
  induction steady with
  | refl => rfl
  | tail _ step ih => exact step.2.trans ih

/-- A move that evaluates nothing, as steps. -/
theorem move_trace_stays (h : Sound layout e) {m : Move} (valid : m.Valid) (still : ¬ m.Evaluates) :
    Trace (layout, e) (layout, e.move m) := by
  by_cases edits : m.Edits
  · cases m with
    | define templates => exact .single (.define templates)
    | setTemplate definition negated template => exact .single (.setTemplate definition negated template)
    | _ => exact edits.elim
  · exact (move_stays h valid edits still).trace

/-- **A move as steps.** -/
theorem move_trace (h : Sound layout e) {m : Move} (valid : m.Valid) :
    ∃ later, Trace (layout, e) (later, e.move m) := by
  by_cases evaluates : m.Evaluates
  · have uncut : ¬ m.Edits := by
      cases m with
      | call | evaluate => exact id
      | _ => exact evaluates.elim
    obtain ⟨later, steady⟩ := move_steady h valid uncut
    exact ⟨later, steady.trace⟩
  · exact ⟨layout, move_trace_stays h valid evaluates⟩

/-! ## The words of judgements -/

theorem EvalStep.worded (step : EvalStep layout active e e') (h : Sound layout e) :
    Worded layout e e' := by
  cases step with
  | invoke => exact .note e _ fun _ => id
  | openList => exact ⟨rfl, [], rfl, fun _ _ _ mem => by cases mem⟩
  | settle lends _ answer =>
    exact (settle_confined h.toPlaced lends.owns.carries answer e).toWorded
  | pass rule value params _ _ above root _ _ _ owns =>
    have invoked := h.invoke rule false value params above root
    exact (Worded.note e _ fun _ => id).trans
      (deliver_confined invoked.toPlaced _ owns.carries _ _).toWorded
  | park => exact ⟨rfl, [], rfl, fun _ _ _ mem => by cases mem⟩
  | told => exact .note e _ fun _ => id

/-- A step that leaves the templates as they are judges by them. -/
theorem SteadyStep.worded (step : SteadyStep (layout, e) (later, e')) (h : Sound layout e) :
    Worded later e e' := by
  obtain ⟨step, same⟩ := step
  have nothing : ∀ {layout : Layout}, e'.journal = e.journal → Worded layout e e' := fun stays =>
    ⟨same, [], stays, fun _ _ _ mem => by cases mem⟩
  cases step with
  | eval _ step => exact step.worded h
  | accept value =>
    have entered : Worded (layout.withCall e.calls.size [] value) e (e.enter value) :=
      ⟨rfl, [], rfl, fun _ _ _ mem => by cases mem⟩
    exact entered.trans (Confined.complete (e.enter value) e.calls.size (.ok true)).toWorded
  | leave => exact ⟨rfl, [_], rfl, fun _ _ _ mem => by cases List.mem_singleton.1 mem⟩
  | log logged => exact .note e _ fun p => logged.silent.plain.untouched p
  | enter | loosen | lend | drop | define | setTemplate => exact nothing rfl

theorem Steady.worded {start finish : Layout × Engine} (steady : Steady start finish)
    (h : Sound start.1 start.2) : Worded finish.1 start.2 finish.2 := by
  induction steady with
  | refl => exact .refl _ _
  | @tail middle finish steps step ih =>
    have sound := (Trace.sound_follows (Steady.trace steps) h).1
    exact (ih.mono (step.1.follows sound).layout).trans (step.worded sound)

/-- Whether an event was noted in a run during the move that began in the given state. -/
def Engine.Noted (start : Engine) (moves : List Move) (event : Event) (before : Journal)
    (state : Engine) : Prop :=
  ∃ earlier m later, moves = earlier ++ m :: later ∧ state = start.run earlier ∧
    state.journal <:+ before ∧ event :: before <:+ (state.move m).journal

/-- What moves do: a sequence of steps, in which every judgement is of a question of the layout, in
the words of the templates as they were when the move began. -/
structure Course (layout later : Layout) (e : Engine) (moves : List Move) : Prop where
  trace : Trace (layout, e) (later, e.run moves)
  judged : ∀ p answer result before, .judged p answer result :: before <:+ (e.run moves).journal →
    e.journal <:+ before → ∃ question onward state,
      later.handle? p = some (.asked p question onward) ∧
      e.Noted moves (.judged p answer result) before state ∧
      result = question.judge (state.templatesOf question.definition) answer

/-- One move that edits no templates. -/
theorem Steady.course {m : Move} (steady : Steady (layout, e) (later, e.move m))
    (h : Sound layout e) : Course layout later e [m] := by
  refine ⟨steady.trace, fun p answer result before behind ahead => ?_⟩
  obtain ⟨-, news, grows, worded⟩ := steady.worded h
  have grows : (e.move m).journal = news ++ e.journal := grows
  have behind : .judged p answer result :: before <:+ (e.move m).journal := behind
  have mem : Event.judged p answer result ∈ news := mem_of_since (grows ▸ behind) ahead
  obtain ⟨question, onward, handed, judged⟩ := worded p answer result mem
  exact ⟨question, onward, e, handed, ⟨[], m, [], rfl, rfl, ahead, behind⟩, judged⟩

/-- One move. -/
theorem move_course (h : Sound layout e) {m : Move} (valid : m.Valid) :
    ∃ later, Course layout later e [m] := by
  by_cases edits : m.Edits
  · have still : ¬ m.Evaluates := by
      cases m with
      | define | setTemplate => exact id
      | _ => exact edits.elim
    refine ⟨layout, move_trace_stays h valid still, fun p answer result before behind ahead => ?_⟩
    have stays : (e.move m).journal = e.journal := by
      cases m with
      | define | setTemplate => rfl
      | _ => exact edits.elim
    have behind : .judged p answer result :: before <:+ e.journal := stays ▸ behind
    exact absurd ahead (not_suffix_of_cons_suffix behind)
  · obtain ⟨later, steady⟩ := move_steady h valid edits
    exact ⟨later, steady.course h⟩

theorem Course.cons {middle : Layout} {m : Move} {moves : List Move}
    (first : Course layout middle e [m]) (rest : Course middle later (e.move m) moves)
    (h : Sound layout e) : Course layout later e (m :: moves) where
  trace := first.trace.trans rest.trace
  judged p answer result before behind ahead := by
    have follows := Trace.follows rest.trace (Trace.sound first.trace h)
    rcases suffix_cases behind follows.journal with inside | outside
    · obtain ⟨question, onward, state, handed, ⟨earlier, n, later, same, begun, since, noted⟩, judged⟩ :=
        rest.judged p answer result before behind inside
      subst same
      exact ⟨question, onward, state, handed, ⟨m :: earlier, n, later, rfl, begun, since, noted⟩, judged⟩
    · obtain ⟨question, onward, state, handed, ⟨earlier, n, later, same, begun, since, noted⟩, judged⟩ :=
        first.judged p answer result before outside ahead
      refine ⟨question, onward, state, follows.layout.handle? handed,
        ⟨earlier, n, later ++ moves, ?_, begun, since, noted⟩, judged⟩
      rw [← List.singleton_append, same, List.append_assoc, List.cons_append]

/-- **Moves as steps.** -/
theorem run_course {moves : List Move} : ∀ {layout : Layout} {e : Engine}, Sound layout e →
    (∀ m ∈ moves, m.Valid) → ∃ later, Course layout later e moves := by
  induction moves with
  | nil =>
    exact fun {layout} {e} _ _ => ⟨layout, .refl, fun p answer result before behind ahead =>
      absurd ahead (not_suffix_of_cons_suffix behind)⟩
  | cons m moves ih =>
    intro layout e h valid
    obtain ⟨middle, first⟩ := move_course h (valid m List.mem_cons_self)
    obtain ⟨later, rest⟩ := ih (Trace.sound first.trace h)
      fun m mem => valid m (List.mem_cons_of_mem _ mem)
    exact ⟨later, first.cons rest h⟩

/-- Moves and then more moves. -/
theorem Course.append {middle : Layout} {moves more : List Move}
    (first : Course layout middle e moves) (rest : Course middle later (e.run moves) more)
    (h : Sound layout e) : Course layout later e (moves ++ more) where
  trace := by
    rw [Engine.run, List.foldl_append]
    exact first.trace.trans rest.trace
  judged p answer result before behind ahead := by
    rw [Engine.run, List.foldl_append] at behind
    have follows := Trace.follows rest.trace (Trace.sound first.trace h)
    rcases suffix_cases behind follows.journal with inside | outside
    · obtain ⟨question, onward, state, handed, ⟨earlier, n, later, same, begun, since, noted⟩, judged⟩ :=
        rest.judged p answer result before behind inside
      subst same
      refine ⟨question, onward, state, handed,
        ⟨moves ++ earlier, n, later, by simp, ?_, since, noted⟩, judged⟩
      rw [begun, Engine.run, Engine.run, Engine.run, List.foldl_append]
    · obtain ⟨question, onward, state, handed, ⟨earlier, n, later, same, begun, since, noted⟩, judged⟩ :=
        first.judged p answer result before outside ahead
      refine ⟨question, onward, state, follows.layout.handle? handed,
        ⟨earlier, n, later ++ more, ?_, begun, since, noted⟩, judged⟩
      rw [same, List.append_assoc, List.cons_append]

/-! ## From the empty engine -/

/-- The layout before anything happened. -/
def Layout.empty : Layout := fun _ => none

theorem sound_empty : Sound .empty .empty := by
  have nowhere : ∀ path root, Layout.empty.below root path = none := by
    intro path root
    induction path with
    | nil => rfl
    | cons i path ih => rw [Layout.below, ih, Option.bind_none]
  have unissued : ∀ p, ¬ Issued p Engine.empty.journal := by
    rintro p ⟨_, _, _, _, mem⟩
    cases mem
  have nothing : ∀ root o, Layout.empty root ≠ some o := fun _ _ found => by cases found
  refine ⟨⟨fun root o found => absurd found (nothing root o),
    fun call o found => absurd found (nothing _ o), fun n o found => absurd found (nothing _ o),
    ?_, ?_, ?_, ?_, fun _ mem => absurd mem List.not_mem_nil, ?_,
    fun _ mem => absurd mem List.not_mem_nil, fun _ _ _ mem => absurd mem List.not_mem_nil, ?_⟩,
    fun p progress held => (by cases held), fun call o found => absurd found (nothing _ o)⟩
  · rintro p i (opened | issued)
    · exact absurd rfl opened
    · exact absurd issued (unissued _)
  · exact fun p opened => absurd rfl opened
  · exact fun p h opened => absurd rfl opened
  · exact fun root issued => absurd issued (unissued _)
  · rintro ⟨root, path⟩ h handed
    cases path with
    | nil => cases handed
    | cons i path =>
      simp only [Layout.handle?, nowhere, Option.bind_none] at handed
      cases handed
  · exact fun call _ => ⟨rfl, rfl⟩

/-- **Everything that moves reach is sound.** -/
theorem sound_run {moves : List Move} (valid : ∀ m ∈ moves, m.Valid) :
    ∃ layout, Course .empty layout .empty moves ∧ Sound layout (Engine.empty.run moves) := by
  obtain ⟨layout, course⟩ := run_course sound_empty valid
  exact ⟨layout, course, Trace.sound course.trace sound_empty⟩

/-- A call in the middle of a run, with the steps of the whole run. -/
theorem run_call_course {earlier later : List Move} (valid : ∀ m ∈ earlier ++ later, m.Valid)
    {v : Validator} (built : v.Built) (value : Json) {e : Engine}
    (reached : Engine.empty.run earlier = e) :
    ∃ layout before,
      Engine.empty.run (earlier ++ .call v value :: later) = (e.call v value).2.run later ∧
      Course .empty layout .empty (earlier ++ .call v value :: later) ∧
      layout (.call e.calls.size) = some (.ofCall e.calls.size v.checks value) ∧
      (e.call v value).2.journal = .returned e.calls.size (e.call v value).1 :: before ∧
      before <:+ ((e.call v value).2.run later).journal ∧
      returned? e.calls.size ((e.call v value).2.run later).journal =
        some ((e.call v value).1, before) ∧
      (e.call v value).1 = answerNow ((Opening.ofCall e.calls.size v.checks value).decision?
        (.ofCall e.calls.size) before) ∧
      (firstFailure? ((Opening.ofCall e.calls.size v.checks value).results
          (.ofCall e.calls.size) before) = none →
        Check.AllStarted value (.ofCall e.calls.size) before 0 v.checks) := by
  obtain ⟨first, reaches, sound⟩ := sound_run fun m mem => valid m (List.mem_append_left later mem)
  have whole : Engine.empty.run (earlier ++ .call v value :: later) =
      (e.call v value).2.run later := by
    rw [Engine.run, List.foldl_append, ← reached]
    rfl
  subst reached
  obtain ⟨before, calls, returns, answers, started⟩ := call_made sound built.wellFormed value
  have entered := Trace.sound calls.trace sound
  obtain ⟨layout, goes⟩ := run_course entered fun m mem => valid m (List.mem_append_right earlier mem)
  have called : Course first _ (Engine.empty.run earlier) [.call v value] := calls.course sound
  have follows := Trace.follows goes.trace entered
  have now : returned? (Engine.empty.run earlier).calls.size
      ((Engine.empty.run earlier).call v value).2.journal =
        some (((Engine.empty.run earlier).call v value).1, before) := by
    rw [returns, returned?, if_pos rfl]
  exact ⟨layout, before, whole, reaches.append (called.cons goes sound) sound_empty,
    follows.layout _ _ (first.withCall_self _ _ _), returns,
    (List.suffix_cons _ _).trans (returns ▸ follows.journal), follows.returned _ _ now, answers,
    started⟩

/-- **A call in the middle of a run**: what it returned follows from what its list had come to by
then, and this stays on record. -/
theorem run_call {earlier later : List Move} (valid : ∀ m ∈ earlier ++ later, m.Valid)
    {v : Validator} (built : v.Built) (value : Json) {e : Engine}
    (reached : Engine.empty.run earlier = e) :
    ∃ layout before,
      Trace (.empty, .empty) (layout, (e.call v value).2.run later) ∧
      Sound layout ((e.call v value).2.run later) ∧
      layout (.call e.calls.size) = some (.ofCall e.calls.size v.checks value) ∧
      (e.call v value).2.journal = .returned e.calls.size (e.call v value).1 :: before ∧
      before <:+ ((e.call v value).2.run later).journal ∧
      returned? e.calls.size ((e.call v value).2.run later).journal =
        some ((e.call v value).1, before) ∧
      (e.call v value).1 = answerNow ((Opening.ofCall e.calls.size v.checks value).decision?
        (.ofCall e.calls.size) before) ∧
      (firstFailure? ((Opening.ofCall e.calls.size v.checks value).results
          (.ofCall e.calls.size) before) = none →
        Check.AllStarted value (.ofCall e.calls.size) before 0 v.checks) := by
  obtain ⟨layout, before, whole, course, rest⟩ := run_call_course valid built value reached
  have trace := course.trace
  rw [whole] at trace
  exact ⟨layout, before, trace, Trace.sound trace sound_empty, rest⟩

end Criteria
