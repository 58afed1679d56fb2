import Criteria.Proofs.Engine.Evaluation

/-!
# Starting checks

`start_runs` follows the checks of a validator and shows that starting them is a sequence of steps
below the place of the check, after which every rule clause in it has been invoked, also in the
validators that serve as its rules. A conjunction may stop early; then it has failed.
-/

namespace Criteria
set_option autoImplicit false

variable {layout : Layout} {active : Option Root} {e : Engine}

mutual

/-- Whether the evaluation of a body at a place has started all checks of a validator, unless one has
failed. -/
def Body.Started (value : Json) (place : Place) (journal : Journal) : Body → Prop
  | .validator _ checks =>
    (firstFailure? (arrivals (Check.outcomes value place 0 checks) journal)).isSome = true ∨
      Check.AllStarted value place journal 0 checks
  | .test _ => True
  | .scripted _ => True

/-- Whether the body of every rule clause in a check was invoked. A validator without clauses has
answered at once. -/
def Check.Started (value : Json) (place : Place) (journal : Journal) : Check → Prop
  | .rule _ _ body _ _ => Issued place journal ∧ body.Started value place journal ∧
      ∀ age, body = .validator age [] → (judgement? place journal).isSome = true
  | .group members => Check.AllStarted value place journal 0 members

/-- Whether the body of every rule clause in the checks of a list was invoked. -/
def Check.AllStarted (value : Json) (place : Place) (journal : Journal) (position : Nat) :
    List Check → Prop
  | [] => True
  | check :: rest => check.Started value (place.member position) journal ∧
      Check.AllStarted value place journal (position + 1) rest

end

/-- Arrivals are never taken back. -/
theorem arrivals_mono {parts : List (Journal → Option Result)} {earlier later : Journal}
    (sub : earlier <:+ later) : arrivals parts earlier <+: arrivals parts later := by
  obtain ⟨news, rfl⟩ := sub
  induction news with
  | nil => exact List.prefix_refl _
  | cons event news ih => exact ih.trans (List.prefix_append _ _)

/-- The first failure stays the first. -/
theorem firstFailure?_mono {results more : List Result} (sub : results <+: more) {f : Failure}
    (failed : firstFailure? results = some f) : firstFailure? more = some f := by
  obtain ⟨rest, rfl⟩ := sub
  rw [firstFailure?_append, failed, Option.some_or]

/-- What a list has come to lasts. -/
theorem Opening.WellFormed.decision?_mono {o : Opening} (wf : o.WellFormed) {p : Place}
    {earlier journal : Journal} (sub : earlier <:+ journal) {decision : Result}
    (decided : o.decision? p earlier = some decision) :
    o.decision? p journal = some decision := by
  have more : o.results p earlier <+: o.results p journal := arrivals_mono sub
  -- With all its results a list can get no more of them.
  have full : (o.results p earlier).length = o.checks.length →
      o.results p journal = o.results p earlier := by
    intro full
    refine (more.eq_of_length_le ?_).symm
    rw [full]
    exact wf.length_results_le p journal
  rw [decision?] at decided ⊢
  cases combinator : o.combinator with
  | all =>
    rw [combinator, Combinator.decision?] at decided
    cases failed : firstFailure? (o.results p earlier) with
    | some f =>
      rw [failed] at decided
      rw [Combinator.decision?_all_of_failure (firstFailure?_mono more failed)]
      exact decided
    | none =>
      rw [failed] at decided
      dsimp only at decided
      split at decided
      next all => rw [full all, Combinator.decision?, failed, if_pos all, decided]
      · cases decided
  | any =>
    rw [combinator, Combinator.decision?] at decided
    split at decided
    next all => rw [full all, Combinator.decision?, if_pos all, decided]
    · cases decided

mutual

theorem Body.Started.mono {earlier later : Journal} (sub : earlier <:+ later) (value : Json)
    (place : Place) : (body : Body) → body.Started value place earlier →
      body.Started value place later
  | .validator _ checks, h => by
    refine h.imp (fun failed => ?_) (Check.AllStarted.mono sub value place 0 checks)
    obtain ⟨f, found⟩ := Option.isSome_iff_exists.1 failed
    rw [firstFailure?_mono (arrivals_mono sub) found]
    rfl
  | .test _, _ => trivial
  | .scripted _, _ => trivial

theorem Check.Started.mono {earlier later : Journal} (sub : earlier <:+ later) (value : Json)
    (place : Place) : (check : Check) → check.Started value place earlier →
      check.Started value place later
  | .rule _ _ body _ _, ⟨issued, begun, answered⟩ =>
    ⟨issued.mono sub, Body.Started.mono sub value place body begun, fun age empty =>
      (lasting_judgement place).isSome_mono sub (answered age empty)⟩
  | .group members, h => Check.AllStarted.mono sub value place 0 members h

theorem Check.AllStarted.mono {earlier later : Journal} (sub : earlier <:+ later) (value : Json)
    (place : Place) (position : Nat) : (checks : List Check) →
      Check.AllStarted value place earlier position checks →
      Check.AllStarted value place later position checks
  | [], _ => trivial
  | check :: rest, h => ⟨Check.Started.mono sub value _ check h.1,
      Check.AllStarted.mono sub value place (position + 1) rest h.2⟩

end

/-! ## Scripted bodies -/

theorem perform_runs (h : Sound layout e) (rule : String) {own : Handle}
    (lends : layout.Lends e.journal own) (held : e.Held active own) (action : Action) :
    Runs layout active (fun _ => False) e (Engine.perform rule own e action) := by
  have settle : ∀ (e : Engine) (handle : Handle) (answer : Answer),
      layout.Lends e.journal handle → e.Held active handle →
      Runs layout active (fun _ => False) e ((Engine.settle handle answer e).2.note
        (.settledBy rule (Engine.settle handle answer e).1)) := fun e handle answer lends held =>
    (Runs.single (.settle lends held answer) (settle_rests handle answer e)).trans
      (.single (.told rule _) (Rests.note trivial trivial trivial))
  cases action with
  | park => exact .single (.park lends held) (Rests.park e own)
  | settle answer => exact settle e own answer lends held
  | settleParked index answer =>
    rw [Engine.perform]
    cases kept : e.parked? index with
    | none => exact .refl layout active _ e
    | some handle =>
      exact settle e handle answer (h.lends_parked? kept) (.inl (Engine.mem_of_parked? kept))

theorem performAll_runs (rule : String) {own : Handle} :
    ∀ (actions : List Action) {e : Engine}, Sound layout e → layout.Lends e.journal own →
      e.Held active own →
      Runs layout active (fun _ => False) e (actions.foldl (Engine.perform rule own) e)
  | [], e, _, _, _ => .refl layout active _ e
  | action :: actions, _, h, lends, held =>
    have first := perform_runs h rule lends held action
    first.trans (performAll_runs rule actions (first.sound h) (first.lends lends)
      (first.held held))

/-! ## Checks -/

/-- Nothing was started at a place and below it. -/
def Engine.Fresh (e : Engine) (p : Place) : Prop := ∀ x, p.Encloses x → ¬ e.Known x

theorem Engine.Fresh.member {p : Place} (h : e.Fresh p) (i : Nat) : e.Fresh (p.member i) :=
  fun x inside => h x ((p.encloses_member i).trans inside)

/-- What starts at a place leaves the members below it fresh. -/
theorem Engine.Fresh.grows {e' : Engine} {p : Place} {i : Nat} (h : e.Fresh (p.member i))
    (grows : Grows (· = p) e e') : e'.Fresh (p.member i) := by
  intro x inside known
  rcases grows.known x known with before | rfl
  · exact h x inside before
  · exact Place.not_member_encloses _ i inside

/-- What starts below one member leaves the members after it fresh. -/
theorem Engine.Fresh.after {e' : Engine} {p : Place} {k : Nat}
    (fresh : ∀ j, k ≤ j → e.Fresh (p.member j)) (grows : Grows (p.member k).Encloses e e') :
    ∀ j, k + 1 ≤ j → e'.Fresh (p.member j) := by
  intro j above x inside known
  rcases grows.known x known with before | mine
  · exact fresh j (by omega) x inside before
  · have := Place.member_unique mine inside
    omega

/-- The checks after the first one of a part of a list are in the list, too. -/
theorem getElem?_rest {check : Check} {rest checks : List Check} {k : Nat}
    (here : ∀ j c, (check :: rest)[j]? = some c → checks[k + j]? = some c) :
    ∀ j c, rest[j]? = some c → checks[k + 1 + j]? = some c := by
  intro j c found
  rw [show k + 1 + j = k + (j + 1) by omega]
  exact here (j + 1) c found

/-- A list is rejected only if it is a conjunction. -/
theorem Sound.isRejected_any (h : Sound layout e) {p : Place} {o : Opening}
    (found : layout.opening? p = some o) (any : o.combinator = .any) : e.isRejected p = false := by
  rw [Engine.isRejected]
  cases held : e.lists.get? p with
  | none => rfl
  | some progress =>
    obtain ⟨own, opened, rfl⟩ := h.lists p progress held
    obtain rfl : o = own := Option.some.inj (found.symm.trans opened)
    rw [any]
    rfl

/-- An open list holds what the results of its checks say. -/
theorem Sound.progress_at (h : Sound layout e) {p : Place} {o : Opening}
    (found : layout.opening? p = some o) (opened : e.Opened p) :
    e.lists.get? p =
      some (o.combinator.progress o.checks.length o.value (o.results p e.journal)) := by
  obtain ⟨progress, held⟩ := Option.ne_none_iff_exists'.1 opened
  obtain ⟨own, here, rfl⟩ := h.lists p progress held
  obtain rfl : o = own := Option.some.inj (found.symm.trans here)
  exact held

/-- A conjunction is rejected when a failure has arrived. -/
theorem Sound.isRejected_all (h : Sound layout e) {p : Place} {o : Opening}
    (found : layout.opening? p = some o) (conjunction : o.combinator = .all) (opened : e.Opened p) :
    e.isRejected p = (firstFailure? (o.results p e.journal)).isSome := by
  rw [Engine.isRejected, h.progress_at found opened, conjunction]
  rfl

/-- An answered question has a judgement, of this answer or of an earlier one. -/
theorem Sound.judged_answer (h : Sound layout e) {p : Place} {question : Question} {onward : Route}
    (owns : layout.Owns e.journal (.asked p question onward)) (answer : Answer) :
    (judgement? p (e.answer p question answer (Engine.deliver onward)).2.journal).isSome = true := by
  rw [Engine.answer, Engine.once]
  split
  next settled =>
    have mem : p ∈ e.settled := by simpa [Engine.isSettled] using settled
    have plain : (Event.repeated p).Plain := trivial
    rw [show (e.note (.repeated p)).journal = .repeated p :: e.journal from rfl,
      judgement?_cons_of_plain plain]
    exact (h.settled p _ owns.1).1 mem
  · have grows := (deliver_rests onward (question.judge (e.templatesOf question.definition) answer)
      ((e.markSettled p).note (.judged p answer
        (question.judge (e.templatesOf question.definition) answer)))).journal.suffix
    exact judgement?_of_mem (List.mem_cons_of_mem _ (grows.subset List.mem_cons_self))

theorem runList_of_inhabited (combinator : Combinator) {size : Nat} (inhabited : size ≠ 0)
    (value : Json) (place : Place) (onward : Route) (start : Route → Engine → Engine) (e : Engine) :
    (Engine.runList combinator size value place onward start e).2 =
      start (.list place combinator value onward) (e.putList place (.start combinator size)) := by
  rw [Engine.runList, if_neg inhabited]

/-- Opening the list at a place. -/
theorem openList_runs {p : Place} {o : Opening} (found : layout.opening? p = some o)
    (mine : active = some p.root) (inhabited : o.checks ≠ []) (closed : ¬ e.Opened p)
    (above : ∀ w i, p = w.member i → e.Opened w)
    (asked : ∀ h, layout.handle? p = some h → Issued p e.journal) :
    Runs layout active (· = p) e (e.putList p (.start o.combinator o.checks.length)) := by
  refine .single (.openList found mine inhabited closed above asked)
    { Grows.refl (· = p) e with opened := ?_, known := ?_ }
  · exact fun q opened => Engine.opened_putList.2 (.inr opened)
  · rintro q (opened | issued)
    · exact (Engine.opened_putList.1 opened).symm.imp_left .inl
    · exact .inl (.inr issued)

/-- Invoking a body starts something at its place only. -/
theorem Grows.invoke (e : Engine) (p : Place) (rule : String) (scripted : Bool) (value : Json)
    (params : List Json) : Grows (· = p) e (e.note (.invoked p rule scripted value params)) := by
  refine { Grows.refl (· = p) e with journal := ?_, known := ?_ }
  · have inner : (Event.invoked p rule scripted value params).Inner := trivial
    exact .cons inner trivial _
  · rintro q (opened | ⟨rule', scripted', value', params', mem⟩)
    · exact .inl (.inl opened)
    · rcases List.mem_cons.1 mem with equal | mem
      · cases equal
        exact .inr rfl
      · exact .inl (.inr ⟨rule', scripted', value', params', mem⟩)

/-- A body may be invoked at a place with a handle: nothing was started there, the handle is its own
once it is invoked, and a list is laid out there just for a validator that serves as the body. -/
structure Invited (layout : Layout) (active : Option Root) (e : Engine) (body : Body) (value : Json)
    (p : Place) (handle : Handle) : Prop where
  mine : active = some p.root
  held : e.Held active handle
  free : (∀ age checks, body ≠ .validator age checks) → layout.Free handle
  fresh : e.Fresh p
  above : ∀ w i, p = w.member i → e.Opened w
  root : p.path = [] → ∃ n, p.root = .loose n ∧ n < e.loose
  owns : ∀ journal, Issued p journal → e.journal <:+ journal → layout.Owns journal handle
  opening : ∀ age checks, body = .validator age checks →
    layout.opening? p = some ⟨.all, checks, value, handle.route⟩
  closed : (∀ age checks, body ≠ .validator age checks) → layout.opening? p = none

/-- Invoking a body that opens no list or one with clauses. -/
theorem Invited.invoke {body : Body} {value : Json} {p : Place} {handle : Handle}
    (invited : Invited layout active e body value p handle)
    (inhabited : ∀ age, body ≠ .validator age []) (rule : String) (scripted : Bool)
    (params : List Json) :
    Runs layout active (· = p) e (e.note (.invoked p rule scripted value params)) := by
  refine .single (.invoke rule scripted value params invited.mine (invited.fresh p (.refl p))
    invited.above invited.root fun o found => ?_) (.invoke e p rule scripted value params)
  cases body with
  | validator age checks =>
    obtain rfl := Option.some.inj ((invited.opening age checks rfl).symm.trans found)
    rintro rfl
    exact inhabited age rfl
  | test | scripted =>
    rw [invited.closed (by simp)] at found
    cases found

/-- A scripted body acts with its own handle. -/
theorem Invited.acts {plan : Place → Json → List Json → Plan} {value : Json} {p : Place} {handle : Handle}
    (invited : Invited layout active e (.scripted plan) value p handle) (h : Sound layout e)
    (rule : String) (params : List Json) :
    Runs layout active (fun _ => False) (e.note (.invoked p rule true value params))
      ((plan p value params).actions.foldl (Engine.perform rule handle)
        (e.note (.invoked p rule true value params))) := by
  have begun := invited.invoke (by simp) rule true params
  have owned := invited.owns _ ⟨_, _, _, _, List.mem_cons_self⟩ begun.grows.journal.suffix
  exact performAll_runs rule (plan p value params).actions (begun.sound h)
    ⟨owned, invited.free (by simp)⟩ (begun.held invited.held)

/-- A validator with clauses that serves as the body opens its list. -/
theorem Invited.opens {age : Nat} {checks : List Check} {value : Json} {p : Place} {handle : Handle}
    (invited : Invited layout active e (.validator age checks) value p handle)
    (h : Sound layout e) (inhabited : checks ≠ []) (rule : String) (params : List Json) :
    let opened := (e.note (.invoked p rule false value params)).putList p (.start .all checks.length)
    layout.opening? p = some ⟨.all, checks, value, handle.route⟩ ∧
      Runs layout active (· = p) e opened ∧ Sound layout opened ∧ opened.Opened p ∧
      ∀ j, opened.Fresh (p.member j) := by
  have found := invited.opening age checks rfl
  have begun := invited.invoke (by simpa using inhabited) rule false params
  have closed : ¬ (e.note (.invoked p rule false value params)).Opened p := fun opened =>
    invited.fresh p (.refl p) (.inl opened)
  have opens := openList_runs (e := e.note (.invoked p rule false value params)) found invited.mine
    inhabited closed invited.above fun _ _ => ⟨_, _, _, _, List.mem_cons_self⟩
  exact ⟨found, begun.trans opens, opens.sound (begun.sound h), Engine.opened_putList.2 (.inl rfl),
    fun j => ((invited.fresh.member j).grows begun.grows).grows opens.grows⟩

section

variable {p : Place} {i : Nat} {o : Opening}

/-- The body of a rule clause that comes next. -/
theorem invited_member {definition : Nat} {name : String} {body : Body} {negated : Bool}
    {params : List Json} (mine : active = some p.root) (found : layout.opening? p = some o)
    (here : o.checks[i]? = some (.rule definition name body negated params)) (opened : e.Opened p)
    (fresh : e.Fresh (p.member i)) :
    Invited layout active e body o.value (p.member i)
      (.asked (p.member i) ⟨definition, name, negated, params, o.value⟩ (o.route p)) where
  mine := mine
  held := .inr mine
  free other := by
    rw [Layout.Free, Layout.opening?_member, found, Option.bind_some, Opening.member?, here]
    cases body with
    | validator age checks => exact absurd rfl (other age checks)
    | test | scripted => rfl
  fresh := fresh
  above w j equal := (Place.member_inj.1 equal).1 ▸ opened
  root empty := by simp [Place.member] at empty
  owns journal issued _ := by
    refine ⟨Layout.handle?_of_opening? found ?_, issued⟩
    simp [Opening.handle?, here]
  opening age checks same := by
    subst same
    rw [Layout.opening?_member, found, Option.bind_some]
    simp [Opening.member?, here, Handle.route]
  closed other := by
    rw [Layout.opening?_member, found, Option.bind_some, Opening.member?, here]
    cases body with
    | validator age checks => exact absurd rfl (other age checks)
    | test | scripted => rfl

/-- The list of a group that comes next is opened. -/
theorem openGroup_runs {members : List Check} (mine : active = some p.root)
    (found : layout.opening? p = some o) (here : o.checks[i]? = some (.group members))
    (h : Sound layout e) (opened : e.Opened p) (fresh : e.Fresh (p.member i)) :
    layout.opening? (p.member i) = some ⟨.any, members, o.value, o.route p⟩ ∧ members ≠ [] ∧
      Runs layout active (· = p.member i) e
        (e.putList (p.member i) (.start .any members.length)) := by
  have member : layout.opening? (p.member i) = some ⟨.any, members, o.value, o.route p⟩ := by
    rw [Layout.opening?_member, found, Option.bind_some]
    simp [Opening.member?, here]
  have inhabited : members ≠ [] := by
    have wf := (h.wellFormed.opening found).check here
    rintro rfl
    simp [Check.wellFormed] at wf
  have unasked : ∀ handle, layout.handle? (p.member i) ≠ some handle := by
    intro handle handed
    rw [Layout.handle?_member, found, Option.bind_some, Opening.handle?, here] at handed
    cases handed
  have above : ∀ w j, p.member i = w.member j → e.Opened w := fun w j equal =>
    (Place.member_inj.1 equal).1 ▸ opened
  have closed : ¬ e.Opened (p.member i) := fun opened => fresh _ (.refl _) (.inl opened)
  exact ⟨member, inhabited, openList_runs member mine inhabited closed above fun handle handed =>
    absurd handed (unasked handle)⟩

end

mutual

/-- Evaluating the body at a place. -/
theorem evaluate_runs (rule : String) (params : List Json) :
    (body : Body) → ∀ (e : Engine) (value : Json) (p : Place) (handle : Handle),
      Sound layout e → Invited layout active e body value p handle →
      Runs layout active p.Encloses e (Engine.evaluate rule value params p handle body e).2 ∧
        Issued p (Engine.evaluate rule value params p handle body e).2.journal ∧
        body.Started value p (Engine.evaluate rule value params p handle body e).2.journal ∧
        ∀ age q question onward, body = .validator age [] → handle = .asked q question onward →
          (judgement? q (Engine.evaluate rule value params p handle body e).2.journal).isSome = true
  | .test holds => by
    intro e value p handle _ invited
    have begun := invited.invoke (by simp) rule false params
    rw [Engine.evaluate]
    exact ⟨begun.mono fun q equal => equal ▸ .refl p, ⟨_, _, _, _, List.mem_cons_self⟩, trivial,
      fun _ _ _ _ impossible => by cases impossible⟩
  | .scripted plan => by
    intro e value p handle h invited
    have begun := invited.invoke (by simp) rule true params
    have acted := invited.acts h rule params
    have issued : Issued p (e.note (.invoked p rule true value params)).journal :=
      ⟨_, _, _, _, List.mem_cons_self⟩
    rw [Engine.evaluate]
    exact ⟨(begun.mono fun q equal => equal ▸ .refl p).trans (acted.mono fun _ => False.elim),
      issued.mono acted.grows.journal.suffix, trivial,
      fun _ _ _ _ impossible => by cases impossible⟩
  | .validator age checks => by
    intro e value p handle h invited
    have found := invited.opening age checks rfl
    have begun := Grows.invoke e p rule false value params
    have issued : Issued p (e.note (.invoked p rule false value params)).journal :=
      ⟨_, _, _, _, List.mem_cons_self⟩
    have owned := invited.owns _ issued begun.journal.suffix
    rw [Engine.evaluate]
    by_cases empty : checks = []
    · subst empty
      have rests := deliver_rests handle.route (.ok true)
        (e.note (.invoked p rule false value params))
      have passed : Runs layout active (· = p) e _ :=
        .single (.pass rule value params invited.mine (invited.fresh p (.refl p)) invited.above
          invited.root found rfl rfl owned) (begun.trans (rests.grows _))
      refine ⟨passed.mono fun q equal => equal ▸ .refl p, issued.mono rests.journal.suffix,
        .inr trivial, ?_⟩
      rintro _ q question onward - rfl
      exact (h.invoke rule false value params invited.above invited.root).judged_answer owned _
    · obtain ⟨-, opens, sound, opened, fresh⟩ := invited.opens h empty rule params
      have started := startAll_runs checks (k := 0) found (by simp) invited.mine sound opened
        fun j _ => fresh j
      rw [runList_of_inhabited _ (by simpa using empty)]
      refine ⟨(opens.mono fun q equal => equal ▸ .refl p).trans (started.1.mono
          fun x ⟨j, _, inside⟩ => (p.encloses_member j).trans inside),
        issued.mono started.1.grows.journal.suffix, ?_, ?_⟩
      · refine started.2.imp_left fun rejected => ?_
        have failed := (started.1.sound sound).isRejected_all found rfl
          (started.1.grows.opened p opened)
        exact failed.symm.trans rejected
      · intro _ _ _ _ impossible
        cases impossible
        exact absurd rfl empty

/-- Starting the check of a member. -/
theorem start_runs : (check : Check) → ∀ ⦃e : Engine⦄ ⦃p : Place⦄ ⦃i : Nat⦄ ⦃o : Opening⦄,
      layout.opening? p = some o → o.checks[i]? = some check → active = some p.root →
      Sound layout e → e.Opened p → e.Fresh (p.member i) →
      Runs layout active (p.member i).Encloses e
          (Engine.start o.value (p.member i) (o.route p) check e) ∧
        check.Started o.value (p.member i)
          (Engine.start o.value (p.member i) (o.route p) check e).journal
  | .rule definition name body negated params => by
    intro e p i o found here mine h opened fresh
    have invited := invited_member mine found here opened fresh
    obtain ⟨evaluated, issued, begun, answered⟩ :=
      evaluate_runs name params body e o.value (p.member i) _ h invited
    have answered := fun age empty => answered age _ _ _ empty rfl
    have owns := invited.owns _ issued evaluated.grows.journal.suffix
    have held := evaluated.held invited.held
    rw [Engine.start]
    cases body with
    | validator age checks =>
      exact ⟨evaluated, issued, begun, answered⟩
    | test holds =>
      have settled : Runs layout active (fun _ => False) _ _ :=
        .single (.settle ⟨owns, invited.free (by simp)⟩ held (.ok (holds o.value params)))
          (settle_rests _ _ _)
      exact ⟨evaluated.trans (settled.mono fun _ => False.elim),
        issued.mono settled.grows.journal.suffix, trivial, fun _ impossible => by cases impossible⟩
    | scripted plan =>
      have free := invited.free (by simp)
      generalize Engine.evaluate name o.value params (p.member i) _ (.scripted plan) e =
        evaluation at *
      obtain ⟨reply, after⟩ := evaluation
      cases reply with
      | now holds =>
        have settled : Runs layout active (fun _ => False) after _ :=
          .single (.settle ⟨owns, free⟩ held (.ok holds)) (settle_rests _ _ after)
        exact ⟨evaluated.trans (settled.mono fun _ => False.elim),
          issued.mono settled.grows.journal.suffix, trivial,
          fun _ impossible => by cases impossible⟩
      | later => exact ⟨evaluated, issued, trivial, fun _ impossible => by cases impossible⟩
  | .group members => by
    intro e p i o found here mine h opened fresh
    obtain ⟨member, inhabited, opens⟩ := openGroup_runs mine found here h opened fresh
    rw [Engine.start, runList_of_inhabited _ (by simpa using inhabited)]
    have started := startAll_runs members (k := 0) member (by simp) mine (opens.sound h)
      (Engine.opened_putList.2 (.inl rfl)) fun j _ => (fresh.member j).grows opens.grows
    refine ⟨(opens.mono fun q equal => equal ▸ .refl _).trans (started.1.mono
      fun x ⟨j, _, inside⟩ => ((p.member i).encloses_member j).trans inside), ?_⟩
    refine started.2.resolve_left ?_
    rw [(started.1.sound (opens.sound h)).isRejected_any member rfl]
    exact Bool.false_ne_true

/-- Starting the checks of a list from a position on. -/
theorem startAll_runs : (checks : List Check) → ∀ ⦃e : Engine⦄ ⦃p : Place⦄ ⦃k : Nat⦄ ⦃o : Opening⦄,
      layout.opening? p = some o → (∀ j check, checks[j]? = some check →
        o.checks[k + j]? = some check) → active = some p.root → Sound layout e → e.Opened p →
      (∀ j, k ≤ j → e.Fresh (p.member j)) →
      Runs layout active (fun x => ∃ j, k ≤ j ∧ (p.member j).Encloses x) e
          (Engine.startAll o.value p k checks (o.route p) e) ∧
        ((Engine.startAll o.value p k checks (o.route p) e).isRejected p = true ∨
          Check.AllStarted o.value p
            (Engine.startAll o.value p k checks (o.route p) e).journal k checks)
  | [] => by
    intro e p k o _ _ _ _ _ _
    rw [Engine.startAll]
    exact ⟨.refl layout active _ e, .inr trivial⟩
  | check :: rest => by
    intro e p k o found here mine h opened fresh
    rw [Engine.startAll]
    split
    next rejected => exact ⟨.refl layout active _ e, .inl rejected⟩
    · obtain ⟨first, begun⟩ := start_runs check found (here 0 check rfl) mine h opened
        (fresh k (Nat.le_refl k))
      have later := startAll_runs rest (k := k + 1) found (getElem?_rest here) mine (first.sound h)
        (first.grows.opened p opened) (Engine.Fresh.after fresh first.grows)
      refine ⟨(first.mono fun x inside => ⟨k, Nat.le_refl k, inside⟩).trans
        (later.1.mono fun x ⟨j, above, inside⟩ => ⟨j, by omega, inside⟩), ?_⟩
      exact later.2.imp_right fun restStarted =>
        ⟨begun.mono later.1.grows.journal.suffix _ _ check, restStarted⟩

end

end Criteria
