import Criteria.Engine.Call
import Criteria.Proofs.Engine.Start

/-!
# Steps of a run

`RunStep` says all that can happen to an engine in the course of a run: steps of evaluation, the
beginning and the return of a call, the beginning of a loose evaluation, and changes that touch no
evaluation. A layout grows with each call and with each loose evaluation of a validator. Whatever the
steps keep holds throughout a run; soundness is the first such thing.
-/

namespace Criteria
set_option autoImplicit false

variable {layout later : Layout} {e e' : Engine}

/-- What a call returns whose list has come to this: a failure, or else that the value is accepted. -/
def answerNow (decision : Option Result) : Result :=
  match decision with
  | some (.error f) => .error f
  | _ => .ok true

/-- An event of a registry, which no evaluation notes. -/
def Event.Logged : Event → Prop
  | .registered _ _ _ => True
  | .removed _ _ => True
  | .built _ => True
  | _ => False

theorem Event.Logged.silent {event : Event} (logged : event.Logged) : event.Silent := by
  cases event <;> trivial

namespace Engine

/-- Begins a call, whose number is `e.calls.size`. -/
def enter (e : Engine) (value : Json) : Engine :=
  { e with calls := e.calls.add ⟨value, none, none, none⟩ }

/-- Returns from a call. -/
def leave (e : Engine) (call : Nat) (result : Result) : Engine :=
  (e.updateCall call fun c => { c with returned := some result }).note (.returned call result)

/-- How a call of the given number ends, given what its list has come to by then. -/
def conclude (id : Nat) : Bool × Engine → Result × Engine
  | (passed, e) =>
    let result : Result := match (e.calls.get? id).bind (·.failure) with
      | some f => .error f
      | none => .ok passed
    (result, e.leave id result)

theorem call_eq (e : Engine) (v : Validator) (value : Json) :
    e.call v value = conclude e.calls.size (runList .all v.checks.length value
      (.ofCall e.calls.size) (.call e.calls.size)
      (startAll value (.ofCall e.calls.size) 0 v.checks) (e.enter value)) :=
  rfl

end Engine

/-- The list of checks that a call starts with. -/
def Opening.ofCall (call : Nat) (checks : List Check) (value : Json) : Opening :=
  ⟨.all, checks, value, .call call⟩

/-- The layout with a new call. -/
abbrev Layout.withCall (layout : Layout) (call : Nat) (checks : List Check) (value : Json) :
    Layout :=
  layout.extend (.call call) (.ofCall call checks value)

theorem Layout.withCall_self (layout : Layout) (call : Nat) (checks : List Check) (value : Json) :
    layout.withCall call checks value (.call call) = some (.ofCall call checks value) :=
  Layout.extend_self layout _ _

theorem Layout.withCall_of_ne {id call : Nat} (other : id ≠ call) (checks : List Check)
    (value : Json) : layout.withCall call checks value (.call id) = layout (.call id) :=
  Layout.extend_of_ne (fun same => other (Root.call.inj same)) _

/-- One step of a run. -/
inductive RunStep : Layout × Engine → Layout × Engine → Prop where
  /-- Goes on with the evaluation below a root; a call that has returned has no more of it. -/
  | eval {layout : Layout} {active : Option Root} {e e' : Engine}
      (live : ∀ call, active = some (.call call) → returned? call e.journal = none)
      (step : EvalStep layout active e e') : RunStep (layout, e) (layout, e')
  /-- Begins the call of a validator with clauses. -/
  | enter {layout : Layout} {e : Engine} {checks : List Check}
      (wf : Check.allWellFormed checks = true) (inhabited : checks ≠ []) (value : Json) :
      RunStep (layout, e) (layout.withCall e.calls.size checks value, e.enter value)
  /-- Begins the call of a validator without clauses, which completes at once. -/
  | accept {layout : Layout} {e : Engine} (value : Json) :
      RunStep (layout, e) (layout.withCall e.calls.size [] value,
        ((e.enter value).complete e.calls.size (.ok true)).2)
  /-- Returns from a call. -/
  | leave {layout : Layout} {e : Engine} {call : Nat} {o : Opening}
      (found : layout (.call call) = some o) (pending : returned? call e.journal = none) :
      RunStep (layout, e)
        (layout, e.leave call (answerNow (o.decision? (.ofCall call) e.journal)))
  /-- Takes a loose place. -/
  | loosen {layout : Layout} {e : Engine} : RunStep (layout, e) (layout, e.takeLoose)
  /-- Takes a loose place for a validator that answers through a handle. -/
  | lend {layout : Layout} {e : Engine} {checks : List Check} {handle : Handle}
      (wf : Check.allWellFormed checks = true) (value : Json)
      (lends : layout.Lends e.journal handle)
      (kept : some handle ∈ e.parked ∨ handle = .detached e.loosePlace) :
      RunStep (layout, e) (layout.extend (.loose e.loose) ⟨.all, checks, value, handle.route⟩,
        e.takeLoose)
  /-- Forgets a handle. -/
  | drop {layout : Layout} {e : Engine} (index : Nat) :
      RunStep (layout, e) (layout, e.dropParked index)
  | define {layout : Layout} {e : Engine} (templates : Templates) :
      RunStep (layout, e) (layout, e.define templates)
  | setTemplate {layout : Layout} {e : Engine} (definition : Nat) (negated : Bool)
      (template : Option String) :
      RunStep (layout, e) (layout, e.setTemplate definition negated template)
  | log {layout : Layout} {e : Engine} {event : Event} (logged : event.Logged) :
      RunStep (layout, e) (layout, e.note event)

/-! ## New roots -/

theorem Layout.below_extend_of_ne {root r : Root} (other : r ≠ root) (o : Opening)
    (path : List Nat) : (layout.extend root o).below r path = layout.below r path := by
  induction path with
  | nil => exact Layout.extend_of_ne other o
  | cons i path ih => rw [Layout.below, Layout.below, ih]

theorem Layout.handle?_extend_of_ne {root : Root} {p : Place} (other : p.root ≠ root)
    (o : Opening) : (layout.extend root o).handle? p = layout.handle? p := by
  obtain ⟨r, path⟩ := p
  cases path with
  | nil => rfl
  | cons i path => simp only [Layout.handle?, Layout.below_extend_of_ne other o]

theorem Layout.root_of_handle? {p : Place} {h : Handle} (handed : layout.handle? p = some h) :
    layout p.root ≠ none := by
  obtain ⟨q, i, o, rfl, found, -⟩ := Layout.handle?_eq_some handed
  obtain ⟨first, here⟩ := Layout.root_of_opening? found
  rw [show (q.member i).root = q.root from rfl, here]
  exact Option.some_ne_none first

/-- Nothing is known below a root that the layout does not know. -/
theorem Placed.unknown (h : Placed layout e) {root : Root} (new : layout root = none)
    (unissued : ¬ Issued ⟨root, []⟩ e.journal) {x : Place} (below : x.root = root) :
    ¬ e.Known x := by
  have closed : ∀ p : Place, p.root = root → ¬ e.Opened p := by
    rintro p rfl opened
    obtain ⟨o, found⟩ := h.opened p opened
    obtain ⟨first, here⟩ := Layout.root_of_opening? found
    rw [new] at here
    cases here
  rintro (opened | issued)
  · exact closed x below opened
  · obtain root | ⟨q, i, rfl⟩ := x.root_or_member
    · rw [root, below] at issued
      exact unissued issued
    · exact closed q below (h.above q i (.inr issued))

/-- A new root puts nothing elsewhere. -/
theorem Placed.extend (h : Placed layout e) {root : Root} {o : Opening} (new : layout root = none)
    (wf : o.WellFormed)
    (call : ∀ id, root = .call id → o.combinator = .all ∧ o.onward = .call id ∧ id < e.calls.size)
    (loose : ∀ n, root = .loose n → o.combinator = .all ∧ n < e.loose ∧
      ∃ handle, layout.Lends e.journal handle ∧ o.onward = handle.route)
    (unissued : ¬ Issued ⟨root, []⟩ e.journal) : Placed (layout.extend root o) e := by
  have extends_ := Layout.extends_extend new o
  have owned : ∀ {handle : Handle}, layout.Lends e.journal handle →
      (layout.extend root o).Lends e.journal handle := fun lends =>
    lends.mono extends_ (List.suffix_refl _)
  have unknown : ∀ {x : Place}, x.root = root → ¬ e.Known x := h.unknown new unissued
  refine ⟨?_, ?_, ?_, h.above, ?_, ?_, h.roots, ?_, ?_, ?_, ?_, h.unheard⟩
  · intro r first found
    by_cases same : r = root
    · subst same
      obtain rfl : o = first := by simpa using found
      exact wf
    · exact h.wellFormed r first (by rwa [Layout.extend_of_ne same] at found)
  · intro id first found
    by_cases same : Root.call id = root
    · subst same
      obtain rfl : o = first := by simpa using found
      exact call id rfl
    · exact h.calls id first (by rwa [Layout.extend_of_ne same] at found)
  · intro n first found
    by_cases same : Root.loose n = root
    · subst same
      obtain rfl : o = first := by simpa using found
      obtain ⟨conjunction, bound, handle, owns, onward⟩ := loose n rfl
      exact ⟨conjunction, bound, handle, owned owns, onward⟩
    · obtain ⟨conjunction, bound, handle, owns, onward⟩ :=
        h.loose n first (by rwa [Layout.extend_of_ne same] at found)
      exact ⟨conjunction, bound, handle, owned owns, onward⟩
  · intro p opened
    obtain ⟨first, found⟩ := h.opened p opened
    exact ⟨first, extends_.opening? found⟩
  · intro p handle opened handed
    have other : p.root ≠ root := fun same => unknown same (.inl opened)
    rw [Layout.handle?_extend_of_ne other] at handed
    exact h.asked p handle opened handed
  · exact fun handle mem => owned (h.parked handle mem)
  · intro p handle handed
    by_cases same : p.root = root
    · -- Nothing was settled and nothing was judged below the new root.
      have nowhere : layout.handle? p = none := by
        rw [Option.eq_none_iff_forall_ne_some]
        intro first found
        exact Layout.root_of_handle? found (same ▸ new)
      have unjudged : judgement? p e.journal = none := by
        rw [Option.eq_none_iff_forall_ne_some]
        intro result found
        obtain ⟨answer, mem⟩ := mem_of_judgement? found
        exact unknown same (.inr (h.judged p answer result mem).1)
      have unsettled : p ∉ e.settled := by
        intro mem
        obtain ⟨q, i, -, rfl, -, -⟩ := Layout.handle?_eq_some handed
        obtain ⟨first, found⟩ := h.asks (q.member i) mem (by simp [Place.member])
        rw [nowhere] at found
        cases found
      simp [unjudged, unsettled]
    · rw [Layout.handle?_extend_of_ne same] at handed
      exact h.settled p handle handed
  · intro p mem inside
    obtain ⟨handle, handed⟩ := h.asks p mem inside
    exact ⟨handle, extends_.handle? handed⟩
  · intro p answer result mem
    obtain ⟨issued, question, onward, templates, handed, judgement⟩ := h.judged p answer result mem
    exact ⟨issued, question, onward, templates, extends_.handle? handed, judgement⟩

theorem Synced.extend (h : Synced layout e fun _ => e.journal) (ext : layout.Extends later) :
    Synced later e fun _ => e.journal := by
  intro p progress held
  obtain ⟨o, found, same⟩ := h p progress held
  exact ⟨o, ext.opening? found, same⟩

/-- Nothing has arrived at a list below which nothing was started. -/
theorem Placed.results_eq_nil (h : Placed layout e) {p : Place} (o : Opening)
    (unknown : ∀ i q, (p.member i).Encloses q → ¬ e.Known q) : o.results p e.journal = [] := by
  apply Opening.results_eq_nil
  intro event mem i touches
  cases event with
  | judged q answer result => exact unknown i q touches (.inr (h.judged q answer result mem).1)
  | _ => exact touches

/-! ## Steps keep engines sound -/

theorem Placed.enter (h : Placed layout e) (value : Json) : Placed layout (e.enter value) :=
  { h with
    calls := by
      intro id o found
      obtain ⟨conjunction, onward, bound⟩ := h.calls id o found
      refine ⟨conjunction, onward, ?_⟩
      rw [Engine.enter, Store.size_add]
      exact Nat.lt_succ_of_lt bound
    unheard := by
      intro id beyond
      rw [Engine.enter, Store.size_add] at beyond
      exact h.unheard id (Nat.le_of_succ_le beyond) }

theorem Placed.takeLoose (h : Placed layout e) : Placed layout e.takeLoose :=
  { h with
    loose := by
      intro n o found
      obtain ⟨conjunction, bound, owned⟩ := h.loose n o found
      exact ⟨conjunction, Nat.lt_succ_of_lt bound, owned⟩
    roots := by
      intro root issued
      obtain ⟨n, same, bound⟩ := h.roots root issued
      exact ⟨n, same, Nat.lt_succ_of_lt bound⟩ }

/-- The next call and the next loose place are new to the layout. -/
theorem Placed.new_call (h : Placed layout e) : layout (.call e.calls.size) = none := by
  rw [Option.eq_none_iff_forall_ne_some]
  intro o found
  exact Nat.lt_irrefl _ (h.calls _ o found).2.2

theorem Placed.new_loose (h : Placed layout e) : layout (.loose e.loose) = none := by
  rw [Option.eq_none_iff_forall_ne_some]
  intro o found
  exact Nat.lt_irrefl _ (h.loose _ o found).2.1

theorem Placed.unissued_call (h : Placed layout e) (id : Nat) :
    ¬ Issued (.ofCall id) e.journal := by
  intro issued
  obtain ⟨n, impossible, -⟩ := h.roots _ issued
  cases impossible

theorem Placed.unissued_loose (h : Placed layout e) :
    ¬ Issued ⟨.loose e.loose, []⟩ e.journal := by
  intro issued
  obtain ⟨n, same, bound⟩ := h.roots _ issued
  cases same
  exact Nat.lt_irrefl _ bound

/-- A new call is placed, and what its list holds is nothing. -/
theorem Sound.enter_placed (h : Sound layout e) {checks : List Check}
    (wf : Check.allWellFormed checks = true) (value : Json) :
    Placed (layout.withCall e.calls.size checks value) (e.enter value) := by
  refine (h.toPlaced.enter value).extend h.new_call wf ?_ ?_ (h.unissued_call _)
  · intro id same
    cases same
    refine ⟨rfl, rfl, ?_⟩
    rw [Engine.enter, Store.size_add]
    exact Nat.lt_succ_self _
  · intro n impossible
    cases impossible

theorem Sound.results_new (h : Sound layout e) (o : Opening) :
    o.results (.ofCall e.calls.size) e.journal = [] := by
  apply h.toPlaced.results_eq_nil
  intro i q below
  exact h.toPlaced.unknown h.new_call (h.unissued_call _) below.1.symm

/-- A new call has heard of nothing. -/
theorem Sound.callStands_new (h : Sound layout e) (o : Opening) :
    (e.enter o.value).CallStands e.calls.size o none := by
  obtain ⟨pending, silent⟩ := h.unheard e.calls.size (Nat.le_refl _)
  refine ⟨⟨⟨o.value, none, none, none⟩, ?_, rfl, ?_, fun _ => rfl, ?_⟩, ?_⟩
  · rw [Engine.enter, Store.get?_add, if_pos rfl]
  · rw [show (e.enter o.value).journal = e.journal from rfl, pending]
    rfl
  · rw [show (e.enter o.value).journal = e.journal from rfl, silent]
    rfl
  · rw [Delivered, show (e.enter o.value).journal = e.journal from rfl, pending]
    exact silent

/-- The other calls stand as before. -/
theorem Sound.callStands_enter (h : Sound layout e) (value : Json) {id : Nat} {o : Opening}
    (found : layout (.call id) = some o) :
    (e.enter value).CallStands id o (o.decision? (.ofCall id) e.journal) := by
  have other : id ≠ e.calls.size := Nat.ne_of_lt (h.calls id o found).2.2
  refine (h.reported id o found).congr ?_ rfl rfl
  rw [Engine.enter, Store.get?_add, if_neg other]

theorem Sound.enter (h : Sound layout e) {checks : List Check}
    (wf : Check.allWellFormed checks = true) (inhabited : checks ≠ []) (value : Json) :
    Sound (layout.withCall e.calls.size checks value) (e.enter value) := by
  refine ⟨h.enter_placed wf value,
    Synced.extend (e := e.enter value) h.lists (Layout.extends_extend h.new_call _), ?_⟩
  intro id o found
  by_cases same : id = e.calls.size
  · subst same
    obtain rfl : Opening.ofCall e.calls.size checks value = o := by simpa using found
    have undecided : (Opening.ofCall e.calls.size checks value).decision? (.ofCall e.calls.size)
        e.journal = none := by
      have size : checks.length ≠ 0 := by simpa using inhabited
      rw [Opening.decision?, h.results_new]
      simp [Opening.ofCall, Combinator.decision?, firstFailure?, failures, size.symm]
    rw [show (e.enter value).journal = e.journal from rfl, undecided]
    exact h.callStands_new (.ofCall e.calls.size checks value)
  · rw [Layout.withCall_of_ne same] at found
    exact h.callStands_enter value found

theorem Sound.accept (h : Sound layout e) (value : Json) :
    Sound (layout.withCall e.calls.size [] value)
      ((e.enter value).complete e.calls.size (.ok true)).2 := by
  apply complete_sound
  refine ⟨h.enter_placed rfl value,
    Synced.extend (e := e.enter value) h.lists (Layout.extends_extend h.new_call _),
    _, Layout.extend_self layout _ _, ?_, h.callStands_new (.ofCall e.calls.size [] value), ?_⟩
  · rw [Opening.decision?, show (e.enter value).journal = e.journal from rfl, h.results_new]
    rfl
  · intro id o other found
    rw [Layout.withCall_of_ne other] at found
    exact h.callStands_enter value found

theorem Sound.leave (h : Sound layout e) {call : Nat} {o : Opening}
    (found : layout (.call call) = some o) (pending : returned? call e.journal = none) :
    Sound layout (e.leave call (answerNow (o.decision? (.ofCall call) e.journal))) := by
  generalize returns : answerNow (o.decision? (.ofCall call) e.journal) = result
  have plain : (Event.returned call result).Plain := trivial
  refine ⟨(h.toPlaced.updateCall call _).note plain ?_,
    Synced.note (e := e.updateCall call _) h.lists plain, ?_⟩
  · intro id same
    obtain rfl : call = id := Option.some.inj same
    rw [Engine.updateCall, Store.size_update]
    exact (h.calls call o found).2.2
  intro id other here
  rw [show (e.leave call result).journal = .returned call result :: e.journal from rfl,
    Opening.decision?_cons_of_plain plain]
  by_cases same : id = call
  · subst same
    obtain rfl : o = other := Option.some.inj (found.symm.trans here)
    obtain ⟨⟨c, held, value, returned, failure, completed⟩, delivered⟩ := h.reported id o found
    rw [Delivered, pending] at delivered
    have now : returned? id (.returned id result :: e.journal) = some (result, e.journal) := by
      rw [returned?, if_pos rfl]
    refine ⟨⟨{ c with returned := some result }, ?_, value, ?_,
      fun unanswered => (Option.some_ne_none _ unanswered).elim, completed⟩, ?_⟩
    · rw [show (e.leave id result).calls = (e.updateCall id _).calls from rfl, Engine.updateCall,
        Store.get?_update, if_pos rfl, held, Option.map_some]
    · rw [show (e.leave id result).journal = .returned id result :: e.journal from rfl, now]
      rfl
    · rw [Delivered, show (e.leave id result).journal = .returned id result :: e.journal from rfl,
        now, show completions id (.returned id result :: e.journal) = completions id e.journal
          from rfl, delivered]
      cases decided : o.decision? (.ofCall id) e.journal with
      | none =>
        rw [decided] at returns
        exact .inl ⟨returns.symm, by simp [decided], rfl⟩
      | some decision =>
        rw [decided] at returns
        cases decision with
        | ok passed => exact .inl ⟨returns.symm, by simp [decided], rfl⟩
        | error f => exact .inr ⟨f, returns.symm, decided, rfl, rfl⟩
  · refine ((h.reported id other here).of_other same _).congr rfl ?_ rfl
    exact returned?_cons_of_other (by simpa [Event.call?] using Ne.symm same) _

/-- Taking a loose place moves nothing. -/
theorem Sound.takeLoose (h : Sound layout e) : Sound layout e.takeLoose :=
  ⟨h.toPlaced.takeLoose, h.lists, fun call o found => (h.reported call o found).congr rfl rfl rfl⟩

theorem Sound.lend (h : Sound layout e) {checks : List Check} {handle : Handle}
    (wf : Check.allWellFormed checks = true) (value : Json) (lends : layout.Lends e.journal handle) :
    Sound (layout.extend (.loose e.loose) ⟨.all, checks, value, handle.route⟩) e.takeLoose := by
  refine ⟨h.toPlaced.takeLoose.extend h.new_loose wf ?_ ?_ h.unissued_loose,
    Synced.extend (e := e.takeLoose) h.lists (Layout.extends_extend h.new_loose _), ?_⟩
  · intro id impossible
    cases impossible
  · intro n same
    cases same
    exact ⟨rfl, Nat.lt_succ_self _, handle, lends, rfl⟩
  · intro call o found
    rw [Layout.extend_of_ne (by simp)] at found
    exact (h.reported call o found).congr rfl rfl rfl

/-- Templates are no matter of soundness. -/
theorem Sound.retemplate (h : Sound layout e) (templates : Store Templates) :
    Sound layout { e with templates } :=
  ⟨{ h.toPlaced with }, h.lists, fun call o found => (h.reported call o found).congr rfl rfl rfl⟩

/-- **Every step of a run keeps engines sound.** -/
theorem RunStep.sound (step : RunStep (layout, e) (later, e')) (h : Sound layout e) :
    Sound later e' := by
  cases step with
  | eval _ step => exact step.sound h
  | enter wf inhabited value => exact h.enter wf inhabited value
  | accept value => exact h.accept value
  | leave found pending => exact h.leave found pending
  | loosen => exact h.takeLoose
  | lend wf value lends _ => exact h.lend wf value lends
  | drop index => exact h.dropParked index
  | define templates => exact h.retemplate _
  | setTemplate definition negated template => exact h.retemplate _
  | log logged => exact h.note _ logged.silent

end Criteria
