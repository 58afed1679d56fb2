import Criteria.Proofs.Isolation.Step

/-!
# The return of a call

A call that is made among others and one that is made on the backdrop return the same, and from there on
the first is in the shadow of the second (`Sound.secluded_call`): the handles of the call that are kept
at its return are its entrances.
-/

namespace Criteria
set_option autoImplicit false

variable {view : View} {region : Root → Bool} {layout : Layout} {e s : Engine} {call : Nat}

/-! ## Handles kept by attuned engines -/

namespace Attuned

/-- A handle that one of the engines keeps enters the region by those that the other keeps. -/
theorem enters (h : Attuned view region e s) {handle : Handle} (mem : some handle ∈ e.parked) :
    handle.route.Enters region s.parked := by
  obtain ⟨index, here⟩ := List.mem_iff_getElem?.1 mem
  have kept := h.parked? index
  rw [Engine.parked?, here, Option.join_some] at kept
  generalize slot : s.parked? index = other at kept
  cases kept with
  | inside within =>
    cases handle with
    | detached p => exact within
    | asked p question onward => exact .inl (Engine.mem_of_parked? slot)
  | outside _ without => exact without.enters

/-- The second engine keeps only what stays in the region, and the first keeps it too. -/
theorem inside (h : Attuned view region e s) {handle : Handle} (mem : some handle ∈ s.parked) :
    some handle ∈ e.parked ∧ handle.route.Within region := by
  obtain ⟨index, here⟩ := List.mem_iff_getElem?.1 mem
  have kept := h.parked? index
  rw [show s.parked? index = some handle by rw [Engine.parked?, here]; rfl] at kept
  generalize slot : e.parked? index = other at kept
  cases kept with
  | inside within => exact ⟨Engine.mem_of_parked? slot, within⟩

end Attuned

/-- What a route inside a region passes is asked there. -/
theorem Route.Within.of_passes {x : Place} : (route : Route) → route.Within region →
    route.Passes x → region x.root = true ∧ x.path ≠ []
  | .list _ _ _ onward, ⟨_, within⟩, passes => of_passes onward within passes
  | .answer _ _ _, ⟨mine, inner, _⟩, .inl same => same ▸ ⟨mine, inner⟩
  | .answer _ _ onward, ⟨_, _, within⟩, .inr passes => of_passes onward within passes

/-- **The handles that a call has kept are its entrances.** -/
theorem Sound.entrances (h : Sound layout e) (attuned : Attuned view (Root.ofCall call) e s) :
    Entrances (Root.ofCall call) s.parked := by
  have lends : ∀ handle, some handle ∈ s.parked → layout.Lends e.journal handle := fun handle mem =>
    h.parked handle (attuned.inside mem).1
  refine ⟨fun handle mem => (attuned.inside mem).2, fun handle other mem there same => ?_,
    fun p question onward mem x passes handle there same => ?_⟩
  · have mine := (attuned.inside mem).2
    have its := (attuned.inside there).2
    cases handle with
    | detached p =>
      cases other with
      | detached q => exact congrArg Handle.detached same
      | asked q question onward =>
        have equal : q = p := same
        exact absurd (equal ▸ mine : q.path = []) its.2.1
    | asked p question onward =>
      cases other with
      | detached q =>
        have equal : q = p := same
        exact absurd (equal ▸ its : p.path = []) mine.2.1
      | asked q question' onward' =>
        have equal : q = p := same
        subst equal
        exact Option.some.inj ((lends _ there).owns.1.symm.trans (lends _ mem).owns.1)
  · have handed : layout.handle? p = some (.asked p question onward) := (lends _ mem).owns.1
    have within := (attuned.inside mem).2
    obtain ⟨w, i, o, rfl, found, member⟩ := Layout.handle?_eq_some handed
    obtain ⟨_, _, _, _, _, -, equal⟩ := Opening.handle?_eq_some member
    obtain ⟨-, rfl⟩ : _ ∧ onward = o.route w := by simpa using equal
    have below : w.root = .call call := of_decide_eq_true within.1
    have asks : layout.opening? x ≠ none := by
      obtain ⟨root, path⟩ := w
      obtain rfl : root = .call call := below
      exact h.toPlaced.opening?_of_passes found passes
    cases handle with
    | detached q =>
      have root : x.path = [] := same ▸ (lends _ there).owns
      exact (Route.Within.of_passes _ within.2.2 passes).2 root
    | asked q question' onward' =>
      have free : layout.opening? q = none := (lends _ there).free
      have equal : q = x := same
      exact asks (equal ▸ free)

/-- **From its return on a call is secluded**, and the two calls have returned alike. -/
theorem Sound.secluded_call (h : Sound layout e)
    (attuned : Attuned view (Root.ofCall e.calls.size) e s) (numbered : e.calls.size = s.calls.size)
    {v : Validator} (wf : v.wellFormed = true) (value : Json) :
    view.result (e.call v value).1 = view.result (s.call v value).1 ∧
      Attuned view (Root.ofCall e.calls.size) (e.call v value).2 (s.call v value).2 ∧
      Entrances (Root.ofCall e.calls.size) (s.call v value).2.parked ∧
      ∃ later, Secluded view e.calls.size (s.call v value).2.parked (e.call v value).2
        (s.call v value).2 later (e.call v value).2 := by
  have mine : Root.ofCall e.calls.size (.call e.calls.size) = true := decide_eq_true rfl
  obtain ⟨same, after⟩ := call_attuned attuned numbered mine v value
  obtain ⟨before, steady, returns, -⟩ := call_made h wf value
  have sound := Trace.sound steady.trace h
  refine ⟨same, after, sound.entrances after, _, sound, ?_, fun handle mem => after.enters mem, ?_,
    [], rfl, after.toMirrors, rfl⟩
  · rw [returns]
    exact returned?_ne_none List.mem_cons_self
  · -- The lists at other roots were laid out before the call, so they do not lead there.
    intro root first found other
    rw [Layout.withCall, Layout.extend_of_ne other] at found
    have known : ∀ root, layout root ≠ none → (!Root.ofCall e.calls.size root) = true := by
      intro root known
      have elsewhere : root ≠ .call e.calls.size := fun same => known (same ▸ h.new_call)
      rw [Root.ofCall_eq_false.2 elsewhere]
      rfl
    exact (h.within known _ (h.laid_root found)).enters

end Criteria
