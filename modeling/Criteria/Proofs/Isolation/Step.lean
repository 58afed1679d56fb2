import Criteria.Proofs.Future.Abandoned
import Criteria.Proofs.Isolation.Backdrop
import Criteria.Proofs.Isolation.Shadow

/-!
# After the return of a call

Once a call has returned, no body is evaluated for it any more, so whatever happens later reaches it by
the handles that are kept, or by validators that answer through them. `Secluded` says that every route
in use enters the call by a handle that was kept at its return, and that the engine is in the shadow of
one in which only these handles are settled. Every step of a run that edits no templates keeps it so.
-/

namespace Criteria
set_option autoImplicit false

variable {view : View} {region : Root → Bool} {slots : List (Option Handle)}
  {layout later : Layout} {active : Option Root} {start base e e' : Engine} {call : Nat}

/-! ## Routes below a root -/

/-- Below a root outside a region, routes enter the region as the list at the root does. -/
theorem Layout.enters_below {first : Opening} : ∀ {path : List Nat} {root : Root} {o : Opening},
    layout root = some first → layout.opening? ⟨root, path⟩ = some o → region root = false →
      first.onward.Enters region slots → o.onward.Enters region slots
  | [], root, o, here, found, _, enters => by
    obtain rfl := Option.some.inj (here.symm.trans found)
    exact enters
  | k :: path, root, o, here, found, other, enters => by
    obtain ⟨outer, above, member⟩ := Option.bind_eq_some_iff.1 found
    have above : layout.opening? ⟨root, path⟩ = some outer := above
    have further : outer.onward.Enters region slots := enters_below here above other enters
    obtain ⟨members, -, rfl⟩ | ⟨_, _, _, _, _, _, -, -, rfl⟩ := Opening.member?_eq_some member
    · exact ⟨other, further⟩
    · exact .inr ⟨other, by simp [Place.member], other, further⟩

theorem Layout.enters_handle {first : Opening} {p : Place} {handle : Handle}
    (here : layout p.root = some first) (handed : layout.handle? p = some handle)
    (other : region p.root = false) (enters : first.onward.Enters region slots) :
    handle.route.Enters region slots := by
  obtain ⟨w, i, o, rfl, found, member⟩ := Layout.handle?_eq_some handed
  obtain ⟨_, _, _, _, _, -, rfl⟩ := Opening.handle?_eq_some member
  exact .inr ⟨other, by simp [Place.member], other, enters_below here found other enters⟩

/-- A new call is none of the region that it is not in. -/
theorem Spares.enter (other : region (.call e.calls.size) = false) (value : Json) :
    Spares region e (e.enter value) :=
  { refl region e with
    calls := by
      intro id mine
      have differs : id ≠ e.calls.size := by
        rintro rfl
        rw [mine] at other
        cases other
      rw [Engine.enter, Store.get?_add, if_neg differs] }

/-! ## Seclusion -/

/-- A call that has returned is reached by the handles in the slots only. -/
structure Secluded (view : View) (call : Nat) (slots : List (Option Handle)) (start base : Engine)
    (layout : Layout) (e : Engine) : Prop where
  sound : Sound layout e
  ended : returned? call e.journal ≠ none
  kept : ∀ handle, some handle ∈ e.parked → handle.route.Enters (Root.ofCall call) slots
  roots : ∀ root first, layout root = some first → root ≠ .call call →
    first.onward.Enters (Root.ofCall call) slots
  shadow : Shadowed view (Root.ofCall call) slots start base e

theorem Root.ofCall_eq_false {root : Root} : Root.ofCall call root = false ↔ root ≠ .call call := by
  rw [ofCall, decide_eq_false_iff_not]

namespace Secluded

variable (entrances : Entrances (Root.ofCall call) slots)

/-- A call that has returned is none of those that have not been made. -/
theorem other_new (h : Secluded view call slots start base layout e) : e.calls.size ≠ call := by
  rintro rfl
  exact h.ended (h.sound.unheard _ (Nat.le_refl _)).1

/-- A handle that can be used enters the call by the handles in the slots only. -/
theorem held (h : Secluded view call slots start base layout e)
    (live : ∀ id, active = some (.call id) → returned? id e.journal = none) {handle : Handle}
    (lends : layout.Lends e.journal handle) (held : e.Held active handle) :
    handle.route.Enters (Root.ofCall call) slots := by
  obtain mem | mine := held
  · exact h.kept handle mem
  · cases handle with
    | detached p => exact lends.owns
    | asked p question onward =>
      have handed : layout.handle? p = some (.asked p question onward) := lends.owns.1
      obtain ⟨first, here⟩ := Option.ne_none_iff_exists'.1 (Layout.root_of_handle? handed)
      have other : p.root ≠ .call call := fun same => h.ended (live call (mine.trans (same ▸ rfl)))
      exact Layout.enters_handle here handed (Root.ofCall_eq_false.2 other)
        (h.roots p.root first here other)

/-- What is not noted and touches neither the lists nor the calls nor what is settled. -/
theorem unnoted (h : Secluded view call slots start base layout e)
    (mirrored : ∀ s, Mirrors view (Root.ofCall call) e s → Mirrors view (Root.ofCall call) e' s)
    (same : e'.journal = e.journal) :
    Shadowed view (Root.ofCall call) slots start base e' :=
  h.shadow.onward mirrored (show e'.journal = [] ++ e.journal from same) fun _ impossible => by
    cases impossible

include entrances in
/-- **A step of evaluation keeps a call secluded** that has returned. -/
theorem eval (h : Secluded view call slots start base layout e)
    (live : ∀ id, active = some (.call id) → returned? id e.journal = none)
    (step : EvalStep layout active e e') : Secluded view call slots start base layout e' := by
  have grows := step.grows
  -- The active root is none of a call that has returned.
  have elsewhere : ∀ {root : Root}, active = some root → Root.ofCall call root = false := by
    intro root mine
    rw [Root.ofCall_eq_false]
    rintro rfl
    exact h.ended (live call mine)
  refine ⟨step.sound h.sound, ?_, fun handle mem => ?_, h.roots, ?_⟩
  · rw [grows.journal.returned?]
    exact h.ended
  · obtain ⟨lends, held⟩ := step.held_of_parked h.sound mem
    exact h.held live lends held
  · cases step with
    | invoke rule scripted value params mine => exact h.shadow.note (elsewhere mine) rfl
    | openList _ mine => exact h.shadow.silent (.putList (elsewhere mine) _) rfl
    | settle lends held answer =>
      exact settle_shadowed entrances (h.held live lends held) answer h.shadow
    | @pass p o handle rule value params mine _ _ _ found _ onward _ =>
      obtain ⟨first, here⟩ := Layout.root_of_opening? found
      have other := elsewhere mine
      have enters : o.onward.Enters (Root.ofCall call) slots := Layout.enters_below here found other
        (h.roots p.root first here (Root.ofCall_eq_false.1 other))
      have invoked : Shadowed view (Root.ofCall call) slots start base
          (e.note (.invoked p rule false value params)) := h.shadow.note other rfl
      exact deliver_shadowed entrances handle.route (onward ▸ enters) _ invoked
    | park => exact h.unnoted (fun _ mirrors => { mirrors with }) rfl
    | told rule report => exact h.shadow.note rfl rfl

/-- Routes enter a secluded call as before when handles are forgotten. -/
theorem fewer (h : Secluded view call slots start base layout e) (sound : Sound layout e')
    (ended : returned? call e'.journal ≠ none)
    (parked : ∀ handle, some handle ∈ e'.parked → some handle ∈ e.parked)
    (shadow : Shadowed view (Root.ofCall call) slots start base e') :
    Secluded view call slots start base layout e' :=
  ⟨sound, ended, fun handle mem => h.kept handle (parked handle mem), h.roots, shadow⟩

/-- A new root outside the call whose list passes its decision on to where it may. -/
theorem extend (h : Secluded view call slots start base layout e) {root : Root} {o : Opening}
    (enters : o.onward.Enters (Root.ofCall call) slots)
    (sound : Sound (layout.extend root o) e') (ended : returned? call e'.journal ≠ none)
    (parked : e'.parked = e.parked)
    (shadow : Shadowed view (Root.ofCall call) slots start base e') :
    Secluded view call slots start base (layout.extend root o) e' := by
  refine ⟨sound, ended, fun handle mem => h.kept handle (parked ▸ mem), ?_, shadow⟩
  intro r first found other
  by_cases same : r = root
  · subst same
    obtain rfl : o = first := by simpa using found
    exact enters
  · exact h.roots r first (by rwa [Layout.extend_of_ne same] at found) other

include entrances in
/-- **A step that edits no templates keeps a call secluded** that has returned. -/
theorem step (h : Secluded view call slots start base layout e)
    (step : SteadyStep (layout, e) (later, e')) : Secluded view call slots start base later e' := by
  obtain ⟨step, same⟩ := step
  have sound := step.sound h.sound
  have ended : returned? call e'.journal ≠ none := by
    obtain ⟨answer, found⟩ := Option.ne_none_iff_exists'.1 h.ended
    rw [(step.follows h.sound).returned call answer found]
    exact Option.some_ne_none answer
  have fresh : Root.ofCall call (.call e.calls.size) = false := by
    rw [Root.ofCall_eq_false]
    exact fun same => h.other_new (Root.call.inj same)
  have loosened : ∀ s, Mirrors view (Root.ofCall call) e s →
      Mirrors view (Root.ofCall call) e.takeLoose s := fun _ mirrors =>
    { mirrors with loose := fun n mine => by cases of_decide_eq_true mine }
  cases step with
  | eval live step => exact h.eval entrances live step
  | enter wf inhabited value =>
    exact h.extend fresh sound ended rfl (h.shadow.silent (.enter fresh value) rfl)
  | accept value =>
    have parked := (Confined.complete (e.enter value) e.calls.size (.ok true) : Confined layout _ _).parked
    have entered := h.shadow.silent (.enter fresh value) rfl
    exact h.extend fresh sound ended parked (entered.complete fresh _)
  | @leave _ _ id o found pending =>
    have other : Root.ofCall call (.call id) = false := by
      rw [Root.ofCall_eq_false]
      exact fun same => h.ended (Root.call.inj same ▸ pending)
    have returned : ∀ change, Shadowed view (Root.ofCall call) slots start base
        (e.updateCall id change) := fun change => h.shadow.silent (.updateCall other change) rfl
    exact h.fewer sound ended (fun _ mem => mem) ((returned _).note other rfl)
  | loosen => exact h.fewer sound ended (fun _ => id) (h.unnoted loosened rfl)
  | @lend _ _ checks handle wf value lends kept =>
    refine h.extend ?_ sound ended rfl (h.unnoted loosened rfl)
    obtain mem | rfl := kept
    · exact h.kept handle mem
    · exact lends.owns
  | drop index =>
    refine h.fewer sound ended (fun handle mem => ?_)
      (h.unnoted (fun _ mirrors => { mirrors with }) rfl)
    rcases List.mem_or_eq_of_mem_set mem with mem | impossible
    · exact mem
    · cases impossible
  | define | setTemplate =>
    exact h.fewer sound ended (fun _ => id)
      (h.shadow.silent { Spares.refl (Root.ofCall call) e with templates := same } rfl)
  | @log _ _ event logged =>
    have unrelated : event.root? = none ∧ Move.settlement? slots event = none := by
      cases event <;> first | exact ⟨rfl, rfl⟩ | exact logged.elim
    exact h.fewer sound ended (fun _ mem => mem)
      (h.shadow.note (by rw [unrelated.1]; rfl) unrelated.2)

end Secluded

/-- **What a run that edits no templates keeps secluded** of a call that has returned. -/
theorem Steady.secluded (entrances : Entrances (Root.ofCall call) slots)
    {first last : Layout × Engine} (steady : Steady first last)
    (h : Secluded view call slots start base first.1 first.2) :
    Secluded view call slots start base last.1 last.2 := by
  induction steady with
  | refl => exact h
  | tail _ step ih => exact ih.step entrances step

/-- **Moves that edit no templates keep a call secluded** that has returned. -/
theorem run_secluded (entrances : Entrances (Root.ofCall call) slots)
    (h : Secluded view call slots start base layout e) {moves : List Move}
    (valid : ∀ m ∈ moves, m.Valid) (uncut : ∀ m ∈ moves, ¬ m.Edits) :
    ∃ later, Secluded view call slots start base later (e.run moves) := by
  obtain ⟨later, steady⟩ := run_steady h.sound valid uncut
  exact ⟨later, steady.secluded entrances h⟩

end Criteria
