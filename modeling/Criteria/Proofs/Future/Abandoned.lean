import Criteria.Proofs.Future.Leading

/-!
# Abandoned calls

A call that no kept handle leads to stays as it is, whatever happens later: bodies that are evaluated
then hand out handles of their own calls or of handles that are kept, and none of these leads there.
-/

namespace Criteria
set_option autoImplicit false

variable {layout later : Layout} {active : Option Root} {e e' : Engine} {call : Nat}

theorem Engine.canComplete_eq_false :
    e.canComplete call = false ↔
      ∀ handle, some handle ∈ e.parked → e.leadsTo call handle.route = false := by
  simp only [canComplete, List.any_eq_false, Option.any_eq_true, Bool.not_eq_true, not_exists, not_and]
  constructor
  · exact fun away handle mem => away _ mem handle rfl
  · rintro away slot mem handle rfl
    exact away handle mem

/-- Whether an evaluation cannot reach a call: no kept handle leads there, and neither does the list at
the active root. -/
structure OutOfReach (layout : Layout) (active : Option Root) (call : Nat) (e : Engine) : Prop where
  kept : ∀ handle, some handle ∈ e.parked → e.leadsTo call handle.route = false
  below : ∀ root first, active = some root → layout root = some first →
    e.leadsTo call first.onward = false

namespace OutOfReach

/-- No handle that can be used leads to the call. -/
theorem held (out : OutOfReach layout active call e) {handle : Handle}
    (lends : layout.Lends e.journal handle) (held : e.Held active handle) :
    e.leadsTo call handle.route = false := by
  obtain mem | mine := held
  · exact out.kept handle mem
  · cases handle with
    | detached p => rfl
    | asked p question onward =>
      have handed : layout.handle? p = some (.asked p question onward) := lends.owns.1
      obtain ⟨first, here⟩ := Option.ne_none_iff_exists'.1 (Layout.root_of_handle? handed)
      refine Bool.eq_false_iff.2 fun leads => ?_
      exact Bool.eq_false_iff.1 (out.below _ first mine here)
        (Layout.leadsTo_root_of_handle? here handed leads)

end OutOfReach

/-- What is kept after a step could be used before it. -/
theorem EvalStep.held_of_parked (step : EvalStep layout active e e') (h : Sound layout e)
    {handle : Handle} (mem : some handle ∈ e'.parked) :
    layout.Lends e.journal handle ∧ e.Held active handle := by
  have before : some handle ∈ e.parked → layout.Lends e.journal handle ∧ e.Held active handle :=
    fun mem => ⟨h.parked handle mem, .inl mem⟩
  cases step with
  | invoke | openList | told => exact before mem
  | settle lends _ answer =>
    rw [(settle_confined h.toPlaced lends.owns.carries answer e).parked] at mem
    exact before mem
  | pass rule value params _ _ above root _ _ _ owns =>
    have invoked := h.invoke rule false value params above root
    rw [(deliver_confined invoked.toPlaced _ owns.carries _ _).parked] at mem
    exact before mem
  | park lends held =>
    rcases List.mem_append.1 mem with mem | mem
    · exact before mem
    · cases List.mem_singleton.1 mem
      exact ⟨lends, held⟩

/-- **A step of evaluation leaves a call alone that is out of its reach**, and it stays so. -/
theorem EvalStep.outOfReach (step : EvalStep layout active e e') (h : Sound layout e)
    (out : OutOfReach layout active call e) :
    OutOfReach layout active call e' ∧ e'.calls.get? call = e.calls.get? call := by
  have after := step.sound h
  have grows := step.grows
  have earlier : ∀ route, layout.Begun e route → e.leadsTo call route = false →
      e'.leadsTo call route = false := fun route begun away => Bool.eq_false_iff.2 fun leads =>
    Bool.eq_false_iff.1 away
      (h.leadsTo_earlier after (.refl layout) grows.journal.suffix grows.opened route begun leads)
  refine ⟨⟨fun handle mem => ?_, fun root first mine here => ?_⟩, ?_⟩
  · obtain ⟨lends, held⟩ := step.held_of_parked h mem
    exact earlier _ lends.owns.begun (out.held lends held)
  · exact earlier _ (h.toPlaced.begun_root here) (out.below root first mine here)
  · cases step with
    | invoke | openList | park | told => rfl
    | settle lends held answer => exact settle_calls answer (out.held lends held)
    | @pass p o handle rule value params mine _ _ _ found _ onward _ =>
      obtain ⟨first, here⟩ := Layout.root_of_opening? found
      refine deliver_calls handle.route (Bool.eq_false_iff.2 fun leads => ?_)
      have same : ∀ route, (e.note (.invoked p rule false value params)).leadsTo call route =
          e.leadsTo call route := Engine.leadsTo_congr rfl rfl
      rw [same, ← onward] at leads
      exact Bool.eq_false_iff.1 (out.below _ first mine here) (Layout.leadsTo_root here found leads)

theorem Runs.outOfReach {region : Place → Prop} (runs : Runs layout active region e e')
    (h : Sound layout e) (out : OutOfReach layout active call e) :
    OutOfReach layout active call e' ∧ e'.calls.get? call = e.calls.get? call := by
  obtain ⟨steps, -⟩ := runs
  have kept : Sound layout e' ∧ OutOfReach layout active call e' ∧
      e'.calls.get? call = e.calls.get? call := by
    induction steps with
    | refl => exact ⟨h, out, rfl⟩
    | tail _ step ih =>
      obtain ⟨sound, out, same⟩ := ih
      obtain ⟨after, alone⟩ := step.outOfReach sound out
      exact ⟨step.sound sound, after, alone.trans same⟩
  exact kept.2

/-! ## Moves -/

/-- What an engine has of a call that is out of reach stays. -/
structure Apart (call : Nat) (e e' : Engine) : Prop where
  same : e'.calls.get? call = e.calls.get? call
  cut : e'.canComplete call = false

/-- What happens to neither the lists nor the handles leaves a call out of reach. -/
theorem Engine.canComplete_of_fewer (cut : e.canComplete call = false)
    (lists : e'.lists = e.lists) (settled : e'.settled = e.settled)
    (parked : ∀ handle, some handle ∈ e'.parked →
      some handle ∈ e.parked ∨ e.leadsTo call handle.route = false) :
    e'.canComplete call = false := by
  rw [canComplete_eq_false] at cut ⊢
  intro handle mem
  rw [leadsTo_congr lists settled]
  exact (parked handle mem).elim (cut handle) id

theorem Engine.apart_leave (e : Engine) {id : Nat} (other : id ≠ call) (result : Result)
    (cut : e.canComplete call = false) : Apart call e (e.leave id result) := by
  refine ⟨?_, canComplete_of_fewer cut rfl rfl fun _ => .inl⟩
  rw [show (e.leave id result).calls = (e.updateCall id _).calls from rfl, updateCall,
    Store.get?_update, if_neg other]

theorem Apart.trans {e'' : Engine} (first : Apart call e e') (second : Apart call e' e'') :
    Apart call e e'' :=
  ⟨second.same.trans first.same, second.cut⟩

/-- A new call is apart from one that is out of reach. -/
theorem call_apart (h : Sound layout e) {v : Validator} (wf : v.wellFormed = true) (value : Json)
    (made : call < e.calls.size) (cut : e.canComplete call = false) :
    Apart call e (e.call v value).2 := by
  have other : e.calls.size ≠ call := Nat.ne_of_gt made
  have enters : Apart call e (e.enter value) := by
    refine ⟨?_, Engine.canComplete_of_fewer cut rfl rfl fun _ => .inl⟩
    rw [Engine.enter, Store.get?_add, if_neg (Ne.symm other)]
  by_cases empty : v.checks = []
  · rw [Engine.call_of_empty empty]
    have completes : Apart call (e.enter value)
        ((e.enter value).complete e.calls.size (.ok true)).2 := by
      refine ⟨complete_calls other _, ?_⟩
      unfold Engine.complete
      split <;> exact Engine.canComplete_of_fewer enters.cut rfl rfl fun _ => .inl
    exact (enters.trans completes).trans (Engine.apart_leave _ other _ completes.cut)
  · rw [Engine.call_of_inhabited empty]
    obtain ⟨runs, -, -⟩ := started_runs h wf empty value
    have out : OutOfReach (layout.withCall e.calls.size v.checks value) (some (.call e.calls.size))
        call (e.enter value) := by
      refine ⟨Engine.canComplete_eq_false.1 enters.cut, ?_⟩
      rintro root first mine here
      cases mine
      cases here.symm.trans (layout.withCall_self e.calls.size v.checks value)
      simpa [Opening.ofCall, Engine.leadsTo] using other
    obtain ⟨after, alone⟩ := runs.outOfReach (h.enter wf empty value) out
    have cut' : (e.started v.checks value).canComplete call = false :=
      Engine.canComplete_eq_false.2 after.kept
    exact (enters.trans ⟨alone, cut'⟩).trans (Engine.apart_leave _ other _ cut')

/-- The evaluation of a body with a handle that does not lead to a call is apart from the call. -/
theorem evaluate_apart (h : Sound layout e) {d : Definition} (built : d.body.Built) (value : Json)
    (params : List Json) {handle : Handle} (lends : layout.Lends e.journal handle)
    (kept : some handle ∈ e.parked ∨ handle = .detached e.loosePlace)
    (cut : e.canComplete call = false) :
    Apart call e (Engine.evaluate d.name value params e.loosePlace handle d.body e.takeLoose).2 := by
  obtain ⟨later, begins, onward, runs⟩ := evaluate_begun h built value params lends kept
  have away : e.leadsTo call handle.route = false := by
    obtain mem | rfl := kept
    · exact Engine.canComplete_eq_false.1 cut handle mem
    · rfl
  have same : ∀ route, e.takeLoose.leadsTo call route = e.leadsTo call route :=
    Engine.leadsTo_congr rfl rfl
  have out : OutOfReach later (some e.loosePlace.root) call e.takeLoose := by
    refine ⟨fun kept mem => (same _).trans (Engine.canComplete_eq_false.1 cut kept mem), ?_⟩
    rintro root first mine here
    cases mine
    rw [onward first here, same]
    exact away
  obtain ⟨after, alone⟩ := runs.outOfReach (begins.sound h) out
  exact ⟨alone, Engine.canComplete_eq_false.2 after.kept⟩

/-- **A move leaves a call alone that no kept handle leads to**, and none leads there afterwards. -/
theorem move_apart (h : Sound layout e) {m : Move} (valid : m.Valid) (made : call < e.calls.size)
    (cut : e.canComplete call = false) : Apart call e (e.move m) := by
  have rest : ∀ {e' : Engine}, e'.calls = e.calls → e'.lists = e.lists → e'.settled = e.settled →
      (∀ handle, some handle ∈ e'.parked → some handle ∈ e.parked ∨
        e.leadsTo call handle.route = false) → Apart call e e' := fun calls lists settled parked =>
    ⟨by rw [calls], Engine.canComplete_of_fewer cut lists settled parked⟩
  cases m with
  | call v value => exact call_apart h (Validator.Built.wellFormed valid) value made cut
  | settle index answer =>
    rw [Engine.move]
    cases kept : e.parked? index with
    | none => exact rest rfl rfl rfl fun _ => .inl
    | some handle =>
      have settled : EvalStep layout none e (Engine.settle handle answer e).2 :=
        .settle (h.lends_parked? kept) (.inl (Engine.mem_of_parked? kept)) answer
      obtain ⟨after, alone⟩ := settled.outOfReach h
        ⟨Engine.canComplete_eq_false.1 cut, fun _ _ impossible => by cases impossible⟩
      exact ⟨alone, Engine.canComplete_eq_false.2 after.kept⟩
  | drop index =>
    refine rest rfl rfl rfl fun handle mem => .inl ?_
    rcases List.mem_or_eq_of_mem_set mem with mem | impossible
    · exact mem
    · cases impossible
  | make =>
    refine rest rfl rfl rfl fun handle mem => ?_
    rcases List.mem_append.1 mem with mem | mem
    · exact .inl mem
    · cases List.mem_singleton.1 mem
      exact .inr rfl
  | evaluate d value params handle =>
    cases handle with
    | none =>
      have lends : layout.Lends e.journal (.detached e.loosePlace) := ⟨rfl, trivial⟩
      exact evaluate_apart h valid value params lends (.inr rfl) cut
    | some index =>
      rw [Engine.move]
      cases kept : e.parked? index with
      | none => exact rest rfl rfl rfl fun _ => .inl
      | some handle =>
        exact evaluate_apart h valid value params (h.lends_parked? kept)
          (.inl (Engine.mem_of_parked? kept)) cut
  | define | setTemplate | log => exact rest rfl rfl rfl fun _ => .inl

/-- **A call that no kept handle leads to stays as it is** for good. -/
theorem run_apart {moves : List Move} : ∀ {layout : Layout} {e : Engine}, Sound layout e →
    (∀ m ∈ moves, m.Valid) → call < e.calls.size → e.canComplete call = false →
      Apart call e (e.run moves) := by
  induction moves with
  | nil => exact fun _ _ _ cut => ⟨rfl, cut⟩
  | cons m moves ih =>
    intro layout e h valid made cut
    have here := valid m List.mem_cons_self
    obtain ⟨middle, trace⟩ := move_trace h here
    have first := move_apart h here made cut
    exact first.trans (ih (Trace.sound trace h) (fun m mem => valid m (List.mem_cons_of_mem _ mem))
      (Nat.lt_of_lt_of_le made (Trace.follows trace h).calls) first.cut)

end Criteria
