import Criteria.Proofs.Engine.Sound

/-!
# Delivery keeps engines sound

`Ready` says what must hold when a result is about to travel along a route: nothing if the route
starts with a handle, that the list lags by this result if it starts with a list, and that the call
has not heard of it if it starts with a call. `deliver_sound` is one induction on the route: each
list takes its result in and either keeps it, which makes the engine sound, or passes its decision
on, which makes the engine ready for the rest of the route.
-/

namespace Criteria
set_option autoImplicit false

variable {layout : Layout} {e : Engine}

/-- A result may be sent along a route. -/
def Ready (layout : Layout) (e : Engine) : Route → Result → Prop
  | .call call, result => Placed layout e ∧ (Synced layout e fun _ => e.journal) ∧
      ∃ o, layout (.call call) = some o ∧
        o.decision? (.ofCall call) e.journal = some result ∧ e.CallStands call o none ∧
        ∀ id other, id ≠ call → layout (.call id) = some other →
          e.CallStands id other (other.decision? (.ofCall id) e.journal)
  | .list p combinator value onward, result => ∃ earlier checks,
      Lagging layout e earlier p result ∧
        layout.opening? p = some ⟨combinator, checks, value, onward⟩
  | .detached p, _ => Sound layout e ∧ p.path = []
  | .answer p question onward, _ =>
    Sound layout e ∧ layout.Owns e.journal (.asked p question onward)

/-! ## Calls -/

theorem Placed.updateCall (h : Placed layout e) (call : Nat) (change : Call → Call) :
    Placed layout (e.updateCall call change) :=
  { h with
    calls := by
      intro id o found
      obtain ⟨conjunction, onward, bound⟩ := h.calls id o found
      refine ⟨conjunction, onward, ?_⟩
      rw [Engine.updateCall, Store.size_update]
      exact bound
    unheard := by
      intro id beyond
      rw [Engine.updateCall, Store.size_update] at beyond
      exact h.unheard id beyond }

theorem Engine.CallStands.of_other {call id : Nat} {o : Opening} {decision : Option Result}
    (h : e.CallStands id o decision) (other : id ≠ call) (change : Call → Call) :
    (e.updateCall call change).CallStands id o decision := by
  refine h.congr ?_ rfl rfl
  rw [Engine.updateCall, Store.get?_update, if_neg (Ne.symm other)]

theorem completions_cons_completed {call id : Nat} {result : Result} {journal : Journal} :
    completions call (.completed id result :: journal) =
      if id = call then result :: completions call journal else completions call journal := by
  by_cases same : id = call <;> simp [completions, same]

/-- A failure before the return is kept for the return. -/
theorem Engine.CallStands.fail {call : Nat} {o : Opening} (h : e.CallStands call o none)
    (pending : returned? call e.journal = none) (f : Failure) :
    (e.updateCall call fun c => { c with failure := some f }).CallStands call o
      (some (.error f)) := by
  obtain ⟨c, found, value, returned, -, completed⟩ := h.record
  refine ⟨⟨{ c with failure := some f }, ?_, value, returned, fun _ => rfl, completed⟩, ?_⟩
  · rw [Engine.updateCall, Store.get?_update, if_pos rfl, found, Option.map_some]
  · have none_yet := h.delivered
    rw [Delivered, pending] at none_yet
    rw [Delivered, show (e.updateCall call _).journal = e.journal from rfl, pending]
    exact none_yet

/-- Anything else goes to the completion. -/
theorem Engine.CallStands.complete {call : Nat} {o : Opening} (h : e.CallStands call o none)
    {result : Result} (later : returned? call e.journal ≠ none ∨ result.isOk = true) :
    ((e.updateCall call fun c => { c with completed := some result }).note
      (.completed call result)).CallStands call o (some result) := by
  obtain ⟨c, found, value, returned, failure, -⟩ := h.record
  have delivered := h.delivered
  have completes : completions call (.completed call result :: e.journal) = [result] := by
    rw [completions_cons_completed, if_pos rfl]
    rw [Delivered] at delivered
    split at delivered
    · simpa using delivered
    · obtain ⟨-, -, nothing⟩ | ⟨f, -, -, impossible, -⟩ := delivered
      · simpa using nothing
      · cases impossible
  have returns : returned? call (.completed call result :: e.journal) = returned? call e.journal :=
    rfl
  refine ⟨⟨{ c with completed := some result }, ?_, value, returned, ?_, ?_⟩, ?_⟩
  · rw [show ((e.updateCall call _).note _).calls = (e.updateCall call _).calls from rfl,
      Engine.updateCall, Store.get?_update, if_pos rfl, found, Option.map_some]
  · intro pending
    have inside : returned? call e.journal = none := by
      have := returned.symm.trans pending
      simpa using this
    cases result with
    | ok passed => simpa [Result.failure?] using failure pending
    | error f =>
      rcases later with after | success
      · exact absurd inside after
      · cases success
  · rw [show ((e.updateCall call _).note _).journal = .completed call result :: e.journal from rfl,
      completes]
    rfl
  · rw [Delivered, show ((e.updateCall call _).note _).journal =
      .completed call result :: e.journal from rfl, returns, completes]
    rw [Delivered] at delivered
    split
    next pending =>
      rcases later with after | success
      · exact absurd pending after
      · rw [Option.filter_some_pos success]
        rfl
    next first before pending =>
      rw [pending] at delivered
      obtain ⟨passed, clean, -⟩ | ⟨f, -, -, impossible, -⟩ := delivered
      · exact .inl ⟨passed, clean, rfl⟩
      · cases impossible

/-- A call takes the result of its list. -/
theorem complete_sound {call : Nat} {result : Result} (ready : Ready layout e (.call call) result) :
    Sound layout (e.complete call result).2 := by
  obtain ⟨placed, synced, o, found, decided, stands, others⟩ := ready
  obtain ⟨c, recorded, -, returned, -⟩ := stands.record
  -- A failure before the return is only kept; the journal stays as it is.
  have kept : ∀ f, result = .error f → c.returned = none →
      Sound layout (e.updateCall call fun c => { c with failure := some f }) := by
    rintro f rfl pending
    refine ⟨placed.updateCall call _, synced, ?_⟩
    intro id other here
    by_cases same : id = call
    · subst same
      obtain rfl : o = other := Option.some.inj (found.symm.trans here)
      rw [show (e.updateCall id _).journal = e.journal from rfl, decided]
      exact stands.fail (by simpa [returned] using pending) f
    · exact (others id other same here).of_other same _
  have told : returned? call e.journal ≠ none ∨ result.isOk = true →
      Sound layout ((e.updateCall call fun c => { c with completed := some result }).note
        (.completed call result)) := by
    intro later
    have plain : (Event.completed call result).Plain := trivial
    refine ⟨(placed.updateCall call _).note plain ?_,
      Synced.note (e := e.updateCall call _) synced plain, ?_⟩
    · intro id same
      obtain rfl : call = id := Option.some.inj same
      rw [Engine.updateCall, Store.size_update]
      exact (placed.calls call o found).2.2
    intro id other here
    rw [show ((e.updateCall call _).note _).journal = .completed call result :: e.journal from rfl,
      Opening.decision?_cons_of_plain plain]
    by_cases same : id = call
    · subst same
      obtain rfl : o = other := Option.some.inj (found.symm.trans here)
      rw [decided]
      exact stands.complete later
    · refine ((others id other same here).of_other same _).congr rfl rfl ?_
      exact completions_cons_completed.trans (if_neg (Ne.symm same))
  obtain ⟨value, failure, return_, completed⟩ := c
  cases result with
  | ok passed =>
    simp only [Engine.complete, recorded]
    exact told (.inr rfl)
  | error f =>
    cases return_ with
    | none =>
      simp only [Engine.complete, recorded]
      exact kept f rfl rfl
    | some first =>
      simp only [Engine.complete, recorded]
      refine told (.inl fun pending => ?_)
      rw [pending] at returned
      cases returned

/-! ## Lists -/

namespace Engine

theorem get?_putList (p q : Place) (progress : Progress) :
    (e.putList p progress).lists.get? q = if q = p then some progress else e.lists.get? q :=
  Board.get?_put e.lists p q progress

theorem opened_putList {p q : Place} {progress : Progress} :
    (e.putList p progress).Opened q ↔ q = p ∨ e.Opened q := by
  rw [Opened, get?_putList]
  by_cases same : q = p <;> simp [same, Opened]

end Engine

/-- Replacing what an opened list holds moves nothing. -/
theorem Placed.putList (h : Placed layout e) {p : Place} (here : e.Opened p) (progress : Progress) :
    Placed layout (e.putList p progress) := by
  have opened : ∀ q, (e.putList p progress).Opened q ↔ e.Opened q := fun q => by
    rw [Engine.opened_putList]
    exact ⟨fun either => either.elim (fun same => same ▸ here) id, .inr⟩
  exact { h with
    above := fun q i known => (opened q).2 (h.above q i (known.imp_left (opened _).1))
    opened := fun q found => h.opened q ((opened q).1 found)
    asked := fun q handle found => h.asked q handle ((opened q).1 found) }

namespace Lagging

variable {earlier : Journal} {p : Place} {result : Result} {o : Opening}

/-- What the lagging list holds; there is room for the result. -/
theorem list (h : Lagging layout e earlier p result) (found : layout.opening? p = some o) :
    e.lists.get? p =
        some (o.combinator.progress o.checks.length o.value (o.results p earlier)) ∧
      (o.results p earlier).length < o.checks.length := by
  obtain ⟨progress, held⟩ := Option.ne_none_iff_exists'.1 h.here
  obtain ⟨same, found', rfl⟩ := h.lists p progress held
  obtain rfl : o = same := Option.some.inj (found.symm.trans found')
  refine ⟨by simpa [Place.Encloses.refl] using held, ?_⟩
  have bound := (h.wellFormed.opening found).length_results_le p e.journal
  rw [h.news o found, List.length_append, List.length_singleton] at bound
  omega

theorem decision?_now (h : Lagging layout e earlier p result) (found : layout.opening? p = some o) :
    o.decision? p e.journal =
      o.combinator.decision? o.checks.length o.value (o.results p earlier ++ [result]) := by
  rw [Opening.decision?, h.news o found]

/-- A list that does not pass on a decision has come to the same as before. -/
theorem decision?_kept (h : Lagging layout e earlier p result)
    (found : layout.opening? p = some o)
    (kept : o.combinator.passesOn o.checks.length o.value (o.results p earlier) result = none) :
    o.decision? p e.journal = o.decision? p earlier := by
  rw [h.decision?_now found]
  cases decided : o.decision? p earlier with
  | some d => exact o.combinator.decision?_append (h.list found).2 result decided
  | none =>
    rw [Opening.decision?] at decided
    simpa [Combinator.passesOn, decided] using kept

/-- A list that passes on a decision has just come to it. -/
theorem decision?_passed (h : Lagging layout e earlier p result)
    (found : layout.opening? p = some o) {decision : Result}
    (passed : o.combinator.passesOn o.checks.length o.value (o.results p earlier) result =
      some decision) :
    o.decision? p earlier = none ∧ o.decision? p e.journal = some decision := by
  rw [h.decision?_now found]
  exact Combinator.passesOn_eq_some.1 passed

/-- The list at the place of a rule clause does not decide the clause; the judgement does. -/
theorem outcome?_rule (h : Lagging layout e earlier p result) {w : Place} {k : Nat}
    (place : p = w.member k) {first : Opening} (outer : layout.opening? w = some first)
    {definition : Nat} {name : String} {body : Body} {negated : Bool} {params : List Json}
    (rule : first.checks[k]? = some (.rule definition name body negated params)) :
    layout.outcome? p e.journal = layout.outcome? p earlier := by
  obtain ⟨q, answer, judgement, i, latest, below⟩ := h.latest
  subst place
  simp only [Layout.outcome?_member, outer, rule, Option.bind_some, Check.outcome?, latest]
  apply judgement?_cons_of_ne
  rintro rfl
  exact Place.not_member_encloses _ i below

/-- A list that has come to the same as before leaves the check that it belongs to as before. -/
theorem outcome?_same (h : Lagging layout e earlier p result) (found : layout.opening? p = some o)
    (same : o.decision? p e.journal = o.decision? p earlier) :
    layout.outcome? p e.journal = layout.outcome? p earlier := by
  obtain root | ⟨w, k, rfl⟩ := p.root_or_member
  · rw [root]
    rfl
  · obtain ⟨first, outer, member⟩ := Layout.opening?_member_eq_some found
    obtain ⟨members, group, rfl⟩ | ⟨_, _, _, _, _, _, rule, -, -⟩ := Opening.member?_eq_some member
    · have wf := (h.wellFormed.opening outer).member member
      rw [Layout.outcome?_member, Layout.outcome?_member, outer, Option.bind_some, Option.bind_some,
        group, Option.bind_some, Option.bind_some, wf.outcome?_group, wf.outcome?_group, same]
    · exact h.outcome?_rule rfl outer rule

/-- If the check that the list belongs to is as before, then so are all lists above. -/
theorem results_above (h : Lagging layout e earlier p result) (found : layout.opening? p = some o)
    (same : layout.outcome? p e.journal = layout.outcome? p earlier) {x : Place} {outer : Opening}
    (above : x.Encloses p) (other : x ≠ p) (opened : layout.opening? x = some outer) :
    outer.results x e.journal = outer.results x earlier := by
  obtain ⟨q, answer, judgement, i, latest, below⟩ := h.latest
  obtain root | ⟨w, k, rfl⟩ := p.root_or_member
  · have equal : x = p := by
      rw [root] at above ⊢
      exact above.eq_root
    exact absurd equal other
  · obtain ⟨first, foundFirst, -⟩ := Layout.opening?_member_eq_some found
    have inside := (Place.encloses_member_iff.1 above).resolve_left other
    rw [latest] at same ⊢
    exact Layout.results_above foundFirst ((Place.encloses_member _ i).trans below) same inside opened

/-- The state after the list has taken its result in. -/
def taken (e : Engine) (p : Place) (o : Opening) : Engine :=
  e.putList p (o.combinator.progress o.checks.length o.value (o.results p e.journal))

theorem taken_eq (h : Lagging layout e earlier p result) (found : layout.opening? p = some o) :
    taken e p o = e.putList p (o.combinator.progress o.checks.length o.value
      (o.results p earlier ++ [result])) := by
  rw [taken, h.news o found]

theorem placed_taken (h : Lagging layout e earlier p result) (o : Opening) :
    Placed layout (taken e p o) :=
  h.toPlaced.putList h.here _

/-- With the list up to date, all lists are if the check that it belongs to is as before. -/
theorem synced_taken (h : Lagging layout e earlier p result) (found : layout.opening? p = some o)
    (same : layout.outcome? p e.journal = layout.outcome? p earlier) :
    Synced layout (taken e p o) fun _ => e.journal := by
  intro x progress held
  rw [taken, Engine.get?_putList] at held
  split at held
  next here =>
    subst here
    exact ⟨o, found, (Option.some.inj held).symm⟩
  next other =>
    obtain ⟨outer, opened, rfl⟩ := h.lists x progress held
    refine ⟨outer, opened, ?_⟩
    by_cases above : x.Encloses p
    · simp only [if_pos above, h.results_above found same above other opened]
    · simp only [if_neg above]

/-- The calls have heard of all if the check that the list belongs to is as before, and the list has
come to the same as before in case it is that of a call. -/
theorem reported_taken (h : Lagging layout e earlier p result) (found : layout.opening? p = some o)
    (same : layout.outcome? p e.journal = layout.outcome? p earlier)
    (root : p.path = [] → ∀ call, p.root = .call call →
      o.decision? p e.journal = o.decision? p earlier) :
    Reported layout (taken e p o) e.journal := by
  intro call own here
  have same_decision : own.decision? (.ofCall call) e.journal =
      own.decision? (.ofCall call) earlier := by
    by_cases equal : p = .ofCall call
    · subst equal
      obtain rfl : o = own := Option.some.inj (found.symm.trans here)
      exact root rfl call rfl
    · by_cases above : Place.Encloses (.ofCall call) p
      · rw [Opening.decision?, Opening.decision?,
          h.results_above found same above (Ne.symm equal) here]
      · obtain ⟨q, answer, judgement, i, latest, below⟩ := h.latest
        rw [latest]
        apply Opening.decision?_cons_of_untouched
        intro touches
        exact above ⟨touches.1.trans below.1.symm, List.nil_suffix⟩
  rw [same_decision]
  exact (h.reported call own here).congr rfl rfl rfl

/-- A list that keeps its result brings everything up to date. -/
theorem sound_kept (h : Lagging layout e earlier p result) (found : layout.opening? p = some o)
    (same : o.decision? p e.journal = o.decision? p earlier) : Sound layout (taken e p o) :=
  have unchanged := h.outcome?_same found same
  ⟨h.placed_taken o, h.synced_taken found unchanged, h.reported_taken found unchanged
    fun _ _ _ => same⟩

/-- The list of a call: the call hears of the decision next. -/
theorem ready_call {call : Nat} {decision : Result}
    (h : Lagging layout e earlier (.ofCall call) result) (root : layout (.call call) = some o)
    (before : o.decision? (.ofCall call) earlier = none)
    (after : o.decision? (.ofCall call) e.journal = some decision) :
    Ready layout (taken e (.ofCall call) o) o.onward decision := by
  obtain ⟨-, onward, -⟩ := h.calls call o root
  rw [onward]
  refine ⟨h.placed_taken o, h.synced_taken root rfl, o, root, after, ?_, ?_⟩
  · have stands := h.reported call o root
    rw [before] at stands
    exact stands.congr rfl rfl rfl
  · intro id other different here
    obtain ⟨q, answer, judgement, i, latest, below⟩ := h.latest
    have untouched : other.decision? (.ofCall id) e.journal =
        other.decision? (.ofCall id) earlier := by
      rw [latest]
      apply Opening.decision?_cons_of_untouched
      intro touches
      exact different (Root.call.inj (touches.1.trans below.1.symm))
    rw [show (taken e (.ofCall call) o).journal = e.journal from rfl, untouched]
    exact (h.reported id other here).congr rfl rfl rfl

/-- The list of a validator that was evaluated by itself: its handle hears of the decision next. -/
theorem ready_loose {n : Nat} (h : Lagging layout e earlier ⟨.loose n, []⟩ result)
    (root : layout (.loose n) = some o) (decision : Result) :
    Ready layout (taken e ⟨.loose n, []⟩ o) o.onward decision := by
  obtain ⟨-, -, handle, ⟨owns, -⟩, onward⟩ := h.loose n o root
  have sound : Sound layout (taken e ⟨.loose n, []⟩ o) := by
    refine ⟨h.placed_taken o, h.synced_taken root rfl, h.reported_taken root rfl ?_⟩
    intro _ call impossible
    cases impossible
  rw [onward]
  cases handle with
  | detached q => exact ⟨sound, owns⟩
  | asked q question further => exact ⟨sound, owns⟩

/-- A group: the enclosing list lags by the group's decision. -/
theorem ready_group {w : Place} {k : Nat} {first : Opening} {members : List Check}
    {decision : Result} (h : Lagging layout e earlier (w.member k) result)
    (outer : layout.opening? w = some first) (group : first.checks[k]? = some (.group members))
    (found : layout.opening? (w.member k) = some ⟨.any, members, first.value, first.route w⟩)
    (before : Opening.decision? ⟨.any, members, first.value, first.route w⟩ (w.member k) earlier =
      none)
    (after : Opening.decision? ⟨.any, members, first.value, first.route w⟩ (w.member k) e.journal =
      some decision) :
    Ready layout (taken e (w.member k) ⟨.any, members, first.value, first.route w⟩) (first.route w)
      decision := by
  have wf := h.wellFormed.opening found
  obtain ⟨q, answer, judgement, i, latest, below⟩ := h.latest
  have inside := (Place.encloses_member _ i).trans below
  have outcome : ∀ journal, layout.outcome? (w.member k) journal =
      Opening.decision? ⟨.any, members, first.value, first.route w⟩ (w.member k) journal := by
    intro journal
    rw [Layout.outcome?_member, outer, Option.bind_some, group, Option.bind_some,
      wf.outcome?_group]
  refine ⟨earlier, first.checks, ?_, outer⟩
  refine ⟨h.placed_taken _, ⟨q, answer, judgement, k, latest, inside⟩, ?_, ?_, ?_, ?_⟩
  · intro x progress held
    rw [taken, Engine.get?_putList] at held
    split at held
    next here =>
      subst here
      refine ⟨_, found, ?_⟩
      simp only [if_neg (Place.not_member_encloses w k)]
      exact (Option.some.inj held).symm
    next other =>
      obtain ⟨own, opened, rfl⟩ := h.lists x progress held
      refine ⟨own, opened, ?_⟩
      have above : x.Encloses (w.member k) ↔ x.Encloses w :=
        Place.encloses_member_iff.trans (or_iff_right other)
      simp only [above]
      rfl
  · intro call own here
    exact (h.reported call own here).congr rfl rfl rfl
  · rw [taken, Engine.opened_putList]
    exact .inr (h.above w k (.inl h.here))
  · intro own opened
    obtain rfl : first = own := Option.some.inj (outer.symm.trans opened)
    rw [show (taken e (w.member k) _).journal = e.journal from rfl]
    rw [latest] at after ⊢
    exact Layout.results_member outer inside ((outcome _).trans before) ((outcome _).trans after)

/-- A list that passes its decision on is ready for the rest of the route. -/
theorem ready_passed (h : Lagging layout e earlier p result) (found : layout.opening? p = some o)
    {decision : Result} (before : o.decision? p earlier = none)
    (after : o.decision? p e.journal = some decision) :
    Ready layout (taken e p o) o.onward decision := by
  obtain root | ⟨w, k, rfl⟩ := p.root_or_member
  · cases owner : p.root with
    | call call =>
      rw [owner] at root
      subst root
      exact h.ready_call found before after
    | loose n =>
      rw [owner] at root
      subst root
      exact h.ready_loose found decision
  · obtain ⟨first, outer, member⟩ := Layout.opening?_member_eq_some found
    obtain ⟨members, group, rfl⟩ | ⟨_, _, _, _, _, _, rule, handed, rfl⟩ :=
      Opening.member?_eq_some member
    · exact h.ready_group outer group found before after
    · -- A validator that serves as a rule: its decision is the answer to the rule's question.
      have unchanged := h.outcome?_rule rfl outer rule
      have handle := Layout.handle?_of_opening? outer handed
      refine ⟨⟨h.placed_taken _, h.synced_taken found unchanged,
        h.reported_taken found unchanged ?_⟩, handle, h.asked _ _ h.here handle⟩
      intro empty
      simp [Place.member] at empty

end Lagging

/-! ## Questions -/

/-- The judgement of a question is no result of the list at the same place. -/
theorem Opening.results_cons_judged_self {o : Opening} {p : Place} {answer : Answer}
    {result : Result} {journal : Journal} :
    o.results p (.judged p answer result :: journal) = o.results p journal := by
  apply Opening.results_cons_of_same
  intro part mem
  obtain ⟨i, check, found, rfl⟩ := Check.mem_outcomes mem
  have untouched : ¬ (Event.judged p answer result).Touches (p.member i) :=
    Place.not_member_encloses p i
  exact Check.outcome?_cons_of_untouched o.value journal untouched check

/-- The check whose handle asks a question comes to the judgement of the answer, which goes into its list. -/
theorem Layout.asked {p : Place} {question : Question} {onward : Route}
    (handed : layout.handle? p = some (.asked p question onward)) :
    ∃ w i o, p = w.member i ∧ layout.opening? w = some o ∧ onward = o.route w ∧
      ∀ journal, layout.outcome? p journal = judgement? p journal := by
  obtain ⟨w, i, o, rfl, found, handed⟩ := Layout.handle?_eq_some handed
  obtain ⟨definition, name, body, negated, params, rule, equal⟩ := Opening.handle?_eq_some handed
  obtain ⟨-, -, rfl⟩ : w.member i = w.member i ∧ question = _ ∧ onward = o.route w := by
    simpa using equal
  refine ⟨w, i, o, rfl, found, rfl, fun journal => ?_⟩
  rw [Layout.outcome?_member, found, Option.bind_some, rule, Option.bind_some, Check.outcome?]

theorem Placed.judge (h : Placed layout e) {p : Place} {question : Question} {onward : Route}
    (owns : layout.Owns e.journal (.asked p question onward)) (first : p ∉ e.settled)
    (templates : Templates) (answer : Answer) :
    Placed layout ((e.markSettled p).note
      (.judged p answer (question.judge templates answer))) where
  wellFormed := h.wellFormed
  calls := h.calls
  loose n o found := by
    obtain ⟨conjunction, bound, handle, lends, further⟩ := h.loose n o found
    exact ⟨conjunction, bound, handle, lends.mono (.refl _) (List.suffix_cons _ _), further⟩
  above q i known := h.above q i (known.imp_right issued_cons_judged.1)
  opened := h.opened
  asked q handle opened found := (h.asked q handle opened found).cons _
  roots root issued := h.roots root (issued_cons_judged.1 issued)
  parked handle mem := (h.parked handle mem).mono (.refl _) (List.suffix_cons _ _)
  settled q handle found := by
    rw [show ((e.markSettled p).note _).settled = p :: e.settled from rfl,
      show ((e.markSettled p).note _).journal = _ :: e.journal from rfl]
    by_cases same : q = p
    · subst same
      simp [judgement?, Event.judgementAt?]
    · rw [judgement?_cons_of_ne (Ne.symm same), List.mem_cons, or_iff_right same]
      exact h.settled q handle found
  asks q mem inside := by
    rcases List.mem_cons.1 mem with rfl | mem
    · exact ⟨_, owns.1⟩
    · exact h.asks q mem inside
  judged q given result mem := by
    rcases List.mem_cons.1 mem with equal | mem
    · cases equal
      exact ⟨owns.2.cons _, question, onward, templates, owns.1, rfl⟩
    · obtain ⟨issued, asked⟩ := h.judged q given result mem
      exact ⟨issued.cons _, asked⟩
  unheard := h.unheard

/-- The first answer to a question is ready to go on: the list of the rule clause lags by it. -/
theorem Sound.judge (h : Sound layout e) {p : Place} {question : Question} {onward : Route}
    (owns : layout.Owns e.journal (.asked p question onward)) (first : p ∉ e.settled)
    (templates : Templates) (answer : Answer) :
    Ready layout ((e.markSettled p).note (.judged p answer (question.judge templates answer)))
      onward (question.judge templates answer) := by
  obtain ⟨w, i, o, rfl, found, rfl, outcome⟩ := Layout.asked owns.1
  have unjudged : judgement? (w.member i) e.journal = none := by
    have settled := h.settled _ _ owns.1
    simpa [first] using settled
  refine ⟨e.journal, o.checks, ?_, found⟩
  refine ⟨h.toPlaced.judge owns first templates answer, ⟨_, _, _, i, rfl, .refl _⟩, ?_, ?_,
    h.above w i (.inr owns.2), ?_⟩
  · intro x progress held
    obtain ⟨own, opened, same⟩ := h.lists x progress held
    refine ⟨own, opened, ?_⟩
    by_cases above : x.Encloses w
    · simp only [if_pos above]
      exact same
    · simp only [if_neg above]
      rw [same]
      by_cases here : x = w.member i
      · subst here
        exact congrArg _ Opening.results_cons_judged_self.symm
      · refine congrArg _ (Opening.results_cons_of_untouched ?_).symm
        exact fun touches => above ((Place.encloses_member_iff.1 touches).resolve_left here)
  · intro call own here
    exact (h.reported call own here).congr rfl rfl rfl
  · intro own opened
    obtain rfl : o = own := Option.some.inj (found.symm.trans opened)
    refine Layout.results_member found (.refl _) ((outcome _).trans unjudged) ((outcome _).trans ?_)
    exact judgement?_cons_self unjudged

/-- Answering a question, if what happens next starts ready and ends sound. -/
theorem answer_sound (h : Sound layout e) {p : Place} {question : Question} {onward : Route}
    (owns : layout.Owns e.journal (.asked p question onward)) (answer : Answer)
    {next : Result → Engine → Report × Engine}
    (further : ∀ {e : Engine} {result : Result}, Ready layout e onward result →
      Sound layout (next result e).2) :
    Sound layout (e.answer p question answer next).2 := by
  rw [Engine.answer, Engine.once]
  split
  · exact h.note (.repeated _) trivial
  next fresh =>
    have first : p ∉ e.settled := by simpa [Engine.isSettled] using fresh
    exact (further (h.judge owns first _ answer)).note (.told p _) trivial

theorem detached_sound (h : Sound layout e) {p : Place} (detached : p.path = []) :
    Sound layout (e.once p fun e => (.ok (), e)).2 := by
  rw [Engine.once]
  split
  · exact h.note (.repeated _) trivial
  · exact h.markDetached detached

/-- **Delivery keeps engines sound.** -/
theorem deliver_sound (route : Route) {e : Engine} {result : Result}
    (ready : Ready layout e route result) : Sound layout (Engine.deliver route result e).2 := by
  induction route generalizing e result with
  | call call => exact complete_sound ready
  | list p combinator value onward ih =>
    obtain ⟨earlier, checks, lagging, found⟩ := ready
    obtain ⟨held, room⟩ := lagging.list found
    have taken := lagging.taken_eq found
    rw [Engine.deliver]
    cases passes : combinator.passesOn checks.length value
        (Opening.results ⟨combinator, checks, value, onward⟩ p earlier) result with
    | none =>
      rw [Engine.takeIn_kept held room passes, ← taken]
      exact lagging.sound_kept found (lagging.decision?_kept found passes)
    | some decision =>
      rw [Engine.takeIn_passed held room passes, ← taken]
      obtain ⟨before, after⟩ := lagging.decision?_passed found passes
      exact ih (lagging.ready_passed found before after)
  | detached p => exact detached_sound ready.1 ready.2
  | answer p question onward ih =>
    exact answer_sound ready.1 ready.2 _ ih

/-- **Settling a handle keeps engines sound.** -/
theorem settle_sound (h : Sound layout e) {handle : Handle} (owns : layout.Owns e.journal handle)
    (answer : Answer) : Sound layout (Engine.settle handle answer e).2 := by
  cases handle with
  | detached p => exact detached_sound h owns
  | asked p question onward => exact answer_sound h owns answer (deliver_sound onward)

end Criteria
