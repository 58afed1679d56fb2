import Criteria.Proofs.Future.Outcome
import Criteria.Proofs.Isolation.Return
import Criteria.Proofs.Reference.Agreement

/-!
# Calls do not disturb each other

What a call comes to among other calls is what it comes to on the backdrop, where it is the only call of
a validator with clauses and only its own handles are settled, in the same order (`calls_isolated`): it
returns the same, its completion receives the same, and whoever settles one of its handles is told the
same. Its future is the same too, unless another move has dropped a handle.
-/

namespace Criteria
set_option autoImplicit false

variable {layout later : Layout} {e s : Engine} {call : Nat}

/-! ## What is read off a history -/

/-- The region of a call. -/
theorem Root.ofCall_eq_true {root : Root} : Root.ofCall call root = true ↔ root = .call call := by
  rw [ofCall, decide_eq_true_iff]

theorem Engine.completions_history (e : Engine) (call : Nat) :
    completions call (e.history (Root.ofCall call)) = completions call e.journal := by
  rw [completions, history, List.filterMap_filter]
  refine List.filterMap_congr fun event _ => ?_
  cases event with
  | completed id result =>
    by_cases same : id = call
    · simp [Event.root?, Root.ofCall, same]
    · simp [Event.root?, Root.ofCall, same]
  | _ => simp

theorem Engine.told_mem_history {p : Place} (below : p.root = .call call) {report : Report} :
    .told p report ∈ e.history (Root.ofCall call) ↔ .told p report ∈ e.journal := by
  rw [history, List.mem_filter, and_iff_left]
  exact Root.ofCall_eq_true.2 below

/-! ## Outcomes -/

/-- A call can complete just as well in another engine if the handles that lead to it there are kept. -/
theorem Engine.canComplete_mono
    (leads : ∀ handle, some handle ∈ e.parked → e.leadsTo call handle.route = true →
      ∃ other, some other ∈ s.parked ∧ s.leadsTo call other.route = true)
    (can : e.canComplete call = true) : s.canComplete call = true := by
  obtain ⟨index, handle, kept, -, reaches⟩ := Engine.exists_of_canComplete can
  obtain ⟨other, mem, there⟩ := leads handle (Engine.mem_of_parked? kept) reaches
  exact List.any_eq_true.2 ⟨some other, mem, there⟩

/-- The outcome of a call depends on its record and on whether it can complete. -/
theorem Engine.outcome?_congr (same : e.calls.get? call = s.calls.get? call)
    (can : e.canComplete call = s.canComplete call) : e.outcome? call = s.outcome? call := by
  rw [outcome?, outcome?, same, can]

/-- A call that has an outcome keeps it when fewer handles lead to it. -/
theorem Engine.outcome?_of_fewer (same : e.calls.get? call = s.calls.get? call)
    (can : e.canComplete call = true → s.canComplete call = true) {outcome : Result}
    (known : s.outcome? call = some outcome) : e.outcome? call = some outcome := by
  rw [outcome?] at known ⊢
  rw [same]
  split at known
  · cases known
  · exact known
  · exact known
  next value _ _ _ =>
    split at known
    · cases known
    next cut =>
      have cut' : e.canComplete call = false := Bool.eq_false_iff.2 fun reaches => cut (can reaches)
      rw [cut']
      exact known

/-- A route that enters a call leads to it by one of the handles that it may enter by. -/
theorem Route.Enters.leadsTo {slots : List (Option Handle)} : (route : Route) →
    route.Enters (Root.ofCall call) slots → e.leadsTo call route = true →
      ∃ handle, some handle ∈ slots ∧ e.leadsTo call handle.route = true
  | .call id, other, leads => by
    have same : id = call := by simpa [Engine.leadsTo] using leads
    exact absurd (same ▸ rfl) (Root.ofCall_eq_false.1 other)
  | .detached _, _, leads => by cases leads
  | .list _ _ _ onward, ⟨_, enters⟩, leads => Enters.leadsTo onward enters (Bool.and_eq_true_iff.1 leads).2
  | .answer _ _ _, .inl mem, leads => ⟨_, mem, leads⟩
  | .answer _ _ onward, .inr ⟨_, _, enters⟩, leads =>
    Enters.leadsTo onward enters (Bool.and_eq_true_iff.1 leads).2

/-! ## Handles that are not dropped -/

/-- Whether a move drops a handle. -/
def Move.Drops : Move → Prop
  | .drop _ => True
  | _ => False

theorem call_keeps (h : Sound layout e) {v : Validator} (wf : v.wellFormed = true) (value : Json) :
    e.parked <+: (e.call v value).2.parked := by
  by_cases empty : v.checks = []
  · rw [Engine.call_of_empty empty]
    exact (complete_rests (e.enter value) e.calls.size (.ok true)).parked
  · rw [Engine.call_of_inhabited empty]
    exact (started_runs h wf empty value).1.grows.parked

theorem evaluate_keeps (h : Sound layout e) {d : Definition} (built : d.body.Built) (value : Json)
    (params : List Json) {handle : Handle} (lends : layout.Lends e.journal handle)
    (kept : some handle ∈ e.parked ∨ handle = .detached e.loosePlace) :
    e.parked <+:
      (Engine.evaluate d.name value params e.loosePlace handle d.body e.takeLoose).2.parked := by
  obtain ⟨_, -, -, runs⟩ := evaluate_begun h built value params lends kept
  exact runs.grows.parked

/-- A move that drops no handle keeps all that are kept, each under its number. -/
theorem move_keeps (h : Sound layout e) {m : Move} (valid : m.Valid) (keeps : ¬ m.Drops) :
    e.parked <+: (e.move m).parked := by
  cases m with
  | call v value => exact call_keeps h (Validator.Built.wellFormed valid) value
  | settle index answer =>
    rw [Engine.move]
    split
    · exact ((settle_rests _ answer e).grows fun _ => True).parked
    · exact List.prefix_refl _
  | drop index => exact absurd trivial keeps
  | make => exact List.prefix_append _ _
  | evaluate d value params handle =>
    cases handle with
    | none =>
      have lends : layout.Lends e.journal (.detached e.loosePlace) := ⟨rfl, trivial⟩
      exact evaluate_keeps h valid value params lends (.inr rfl)
    | some index =>
      rw [Engine.move]
      cases kept : e.parked? index with
      | none => exact List.prefix_refl _
      | some handle =>
        exact evaluate_keeps h valid value params (h.lends_parked? kept)
          (.inl (Engine.mem_of_parked? kept))
  | define | setTemplate | log => exact List.prefix_refl _

theorem run_keeps {moves : List Move} : ∀ {layout : Layout} {e : Engine}, Sound layout e →
    (∀ m ∈ moves, m.Valid) → (∀ m ∈ moves, ¬ m.Drops) → e.parked <+: (e.run moves).parked := by
  induction moves with
  | nil => exact fun _ _ _ => List.prefix_refl _
  | cons m moves ih =>
    intro layout e h valid keeps
    obtain ⟨later, trace⟩ := move_trace h (valid m List.mem_cons_self)
    exact (move_keeps h (valid m List.mem_cons_self) (keeps m List.mem_cons_self)).trans
      (ih (Trace.sound trace h) (fun m mem => valid m (List.mem_cons_of_mem _ mem))
        fun m mem => keeps m (List.mem_cons_of_mem _ mem))

/-! ## Calls among others -/

/-- Engines that mirror each other with every word have the same record of a call. -/
theorem Mirrors.get?_calls (h : Mirrors .whole (Root.ofCall call) e s) :
    e.calls.get? call = s.calls.get? call := by
  have mine : Root.ofCall call (.call call) = true := Root.ofCall_eq_true.2 rfl
  have seen : View.whole.call = id := funext View.call_whole
  have alike := h.calls call mine
  rwa [seen, Option.map_id, id, id] at alike

theorem Mirrors.history_whole {region : Root → Bool} (h : Mirrors .whole region e s) :
    e.history region = s.history region := by
  have seen : View.whole.event = id := funext View.event_whole
  have alike := h.history
  rwa [seen, List.map_id, List.map_id] at alike

/-- **Calls do not disturb each other.** A call among others returns what it returns on the backdrop, where
nothing else has ever been invoked and no other handle is kept. Whatever other calls, settlements and
evaluations follow: what happens in the call is what happens if only its own handles are settled, with
the same answers and in the same order, so its completion receives the same and the first to settle one of
its handles is told the same. An outcome that the call comes to on the backdrop it has among others too,
and it is pending among others just if it is on the backdrop as long as no handle is dropped. A call whose
rules all answer at once returns the same whenever it is repeated while the templates are the same. -/
theorem calls_isolated {earlier later : List Move} (valid : ∀ m ∈ earlier ++ later, m.Valid)
    (uncut : ∀ m ∈ later, ¬ m.Edits) {v : Validator} (built : v.Built) (value : Json) :
    let e := Engine.empty.run earlier
    let call := e.calls.size
    let bare := Engine.empty.run e.backdrop
    let after := (e.call v value).2
    let alone := (bare.call v value).2
    let now := after.run later
    (bare.templates = e.templates ∧ bare.calls.size = call ∧ ∀ handle, some handle ∉ bare.parked) ∧
    (e.call v value).1 = (bare.call v value).1 ∧
    after.history (Root.ofCall call) = alone.history (Root.ofCall call) ∧
    (∃ news, now.journal = news ++ after.journal ∧
      let replay := alone.run (Move.settlementsOf alone.parked news)
      now.history (Root.ofCall call) = replay.history (Root.ofCall call) ∧
      completions call now.journal = completions call replay.journal ∧
      (∀ p report, p.root = .call call →
        (.told p report ∈ now.journal ↔ .told p report ∈ replay.journal)) ∧
      (∀ outcome, replay.outcome? call = some outcome → now.outcome? call = some outcome) ∧
      ((∀ m ∈ later, ¬ m.Drops) → now.outcome? call = replay.outcome? call)) ∧
    (Check.AllImmediate v.checks → (now.call v value).1 = (e.call v value).1 ∧
      ∀ others, (∀ m ∈ others, m.Valid) →
        (∀ definition,
          (Engine.empty.run others).templatesOf definition = e.templatesOf definition) →
        ((Engine.empty.run others).call v value).1 = (e.call v value).1) := by
  intro e call bare after alone now
  have wf := built.wellFormed
  have valid_later : ∀ m ∈ later, m.Valid := fun m mem => valid m (List.mem_append_right earlier mem)
  obtain ⟨layout, course, sound⟩ := sound_run fun m mem => valid m (List.mem_append_left later mem)
  obtain ⟨bareLayout, course', sound'⟩ := sound_run e.valid_backdrop
  obtain ⟨templates, size, gaps⟩ := e.run_backdrop
  have attuned := attuned_backdrop sound (Trace.chronicle course.trace).1 sound'
    (Trace.chronicle course'.trace).1
  obtain ⟨same, returned, entrances, entered, secluded⟩ := sound.secluded_call attuned size.symm wf value
  obtain ⟨last, last_secluded⟩ := run_secluded entrances secluded valid_later uncut
  obtain ⟨news, since, mirrors, parked⟩ := last_secluded.shadow
  rw [View.result_whole, View.result_whole] at same
  have returned : Attuned .whole (Root.ofCall call) after alone := returned
  refine ⟨⟨templates, size, fun handle mem => ?_⟩, same, returned.history_whole, ⟨news, since, ?_⟩,
    fun immediate => ?_⟩
  · rw [show bare.parked = _ from gaps] at mem
    cases (List.mem_replicate.1 mem).2
  · intro replay
    have mirrors : Mirrors .whole (Root.ofCall call) now replay := mirrors
    have slots : replay.parked = alone.parked := parked
    have history := mirrors.history_whole
    have record := mirrors.get?_calls
    have onward : now.canComplete call = true → replay.canComplete call = true :=
      Engine.canComplete_mono fun handle mem leads => by
        obtain ⟨entrance, there, reaches⟩ := (last_secluded.kept handle mem).leadsTo _ leads
        refine ⟨entrance, slots ▸ there, ?_⟩
        rwa [← mirrors.leadsTo call _ (entrances.within entrance there)]
    refine ⟨history, ?_, fun p report below => ?_, fun outcome => Engine.outcome?_of_fewer record onward,
      fun keeps => Engine.outcome?_congr record (Bool.eq_iff_iff.2 ⟨onward, ?_⟩)⟩
    · rw [← now.completions_history, history, replay.completions_history]
    · rw [← Engine.told_mem_history below, history, Engine.told_mem_history below]
    · have kept := run_keeps secluded.sound valid_later keeps
      refine Engine.canComplete_mono fun handle mem leads => ?_
      have there : some handle ∈ alone.parked := slots ▸ mem
      refine ⟨handle, kept.subset (returned.inside there).1, ?_⟩
      rwa [mirrors.leadsTo call _ (entrances.within handle there)]
  · have repeated : ∀ {layout : Layout} {s : Engine}, Sound layout s →
        (∀ definition, s.templatesOf definition = e.templatesOf definition) →
          (s.call v value).1 = (e.call v value).1 := by
      intro layout' s reached agree
      rw [reached.call_of_immediate wf immediate, sound.call_of_immediate wf immediate, funext agree]
    refine ⟨repeated last_secluded.sound fun definition => ?_, fun others valid agree => ?_⟩
    · obtain ⟨_, steady⟩ := run_steady secluded.sound valid_later uncut
      obtain ⟨_, made, -⟩ := call_made sound wf value
      exact Engine.templatesOf_congr (steady.templates.trans made.templates) definition
    · obtain ⟨_, -, reached⟩ := sound_run valid
      exact repeated reached agree

/-! ## Two calls that wait -/

/-- The handles of two waiting calls are settled in turn, those of the second from its last one on. -/
def Move.turns : List Move :=
  [.settle 0 (.ok false), .settle 5 (.ok false), .settle 4 (.ok false), .settle 2 (.ok true),
    .settle 3 (.ok true)]

/-- The second of two waiting calls is accepted although the first one fails meanwhile. On the backdrop only
the settlements of its own handles are left. -/
theorem calls_isolated_waiting :
    let e := Engine.empty.run [.call .waiting .null]
    let now := (e.call .waiting .null).2.run Move.turns
    let alone := ((Engine.empty.run e.backdrop).call .waiting .null).2
    let own := Move.settlementsOf alone.parked (now.journal.take 12)
    own.length = 3 ∧ now.outcome? 1 = (alone.run own).outcome? 1 ∧
      (now.outcome? 0).any Result.holds = false ∧ (now.outcome? 1).any Result.holds = true := by
  intro e now alone own
  have valid : ∀ m ∈ [Move.call .waiting .null] ++ Move.turns, m.Valid := by
    simp [Move.turns, Move.Valid, Validator.built_waiting]
  have uncut : ∀ m ∈ Move.turns, ¬ m.Edits := by simp [Move.turns, Move.Edits]
  have keeps : ∀ m ∈ Move.turns, ¬ m.Drops := by simp [Move.turns, Move.Drops]
  obtain ⟨-, -, -, ⟨news, since, -, -, -, -, same⟩, -⟩ :=
    calls_isolated valid uncut Validator.built_waiting .null
  have since : now.journal = news ++ (e.call .waiting .null).2.journal := since
  have size : news.length = 12 := by
    have until_now : now.journal.length = 20 := by decide +kernel
    have returned : (e.call .waiting .null).2.journal.length = 8 := by decide +kernel
    have whole := congrArg List.length since
    rw [List.length_append] at whole
    omega
  obtain rfl : now.journal.take 12 = news := by
    rw [since, List.take_left' size]
  exact ⟨by decide +kernel, same keeps, by decide +kernel, by decide +kernel⟩

end Criteria
