import Criteria.Proofs.Call.Recount
import Criteria.Proofs.Engine.Confined
import Criteria.Proofs.Reference.Evaluator

/-!
# Checks that answer at once

While a call of a validator whose rules all answer at once is evaluated, the handles that are kept
lead to older calls, so all that is judged in the call is what its own checks come to, one after the
other. `start_immediate` says that this is what the reference evaluator makes of them.
-/

namespace Criteria
set_option autoImplicit false

/-! ## Plain checks -/

theorem Body.Immediate.isValidator {body : Body} (immediate : body.Immediate) :
    body.isValidator = false := by
  cases body with
  | test holds => rfl
  | scripted plan => rfl
  | validator age checks => exact immediate.elim

mutual

/-- Rules that answer at once are no validators. -/
theorem Check.plain_of_immediate : (check : Check) → check.Immediate → check.plain = true
  | .rule _ _ body _ _, immediate => by
    rw [Check.plain, Body.Immediate.isValidator immediate]
    rfl
  | .group members, immediate => Check.allPlain_of_immediate members immediate

theorem Check.allPlain_of_immediate : (checks : List Check) → Check.AllImmediate checks →
    Check.allPlain checks = true
  | [], _ => rfl
  | check :: rest, immediate => by
    rw [Check.allPlain, Check.plain_of_immediate check immediate.1,
      Check.allPlain_of_immediate rest immediate.2]
    rfl

end

/-! ## Results in declared order -/

namespace Combinator

/-- Whether a list takes no further results after the given ones. -/
def rejects (combinator : Combinator) (arrived : List Result) : Bool :=
  match combinator with
  | .all => (firstFailure? arrived).isSome
  | .any => false

/-- The results that a list ends up with when more are offered to it in declared order. -/
def reached (combinator : Combinator) (arrived : List Result) : List Result → List Result
  | [] => arrived
  | result :: rest =>
    if combinator.rejects arrived then arrived else combinator.reached (arrived ++ [result]) rest

variable {arrived : List Result}

theorem reached_of_rejects {combinator : Combinator} (rejects : combinator.rejects arrived = true)
    (results : List Result) : combinator.reached arrived results = arrived := by
  cases results with
  | nil => rfl
  | cons result rest => rw [reached, if_pos rejects]

/-- Alternatives are all tried. -/
theorem reached_any (results : List Result) :
    Combinator.any.reached arrived results = arrived ++ results := by
  induction results generalizing arrived with
  | nil => rw [reached, List.append_nil]
  | cons result rest ih =>
    rw [reached, rejects, if_neg Bool.false_ne_true, ih, List.append_assoc, List.singleton_append]

/-- Stopping at a failure does not change which failure is the first. -/
theorem firstFailure?_reached_all (results : List Result) :
    firstFailure? (Combinator.all.reached arrived results) =
      firstFailure? (arrived ++ results) := by
  induction results generalizing arrived with
  | nil => rw [reached, List.append_nil]
  | cons result rest ih =>
    rw [reached]
    split
    next rejected =>
      obtain ⟨f, failed⟩ := Option.isSome_iff_exists.1 rejected
      rw [firstFailure?_append, failed, Option.some_or]
    · rw [ih, List.append_assoc, List.singleton_append]

/-- Without a failure a conjunction gets all results. -/
theorem reached_all_of_clean {results : List Result}
    (clean : firstFailure? (arrived ++ results) = none) :
    Combinator.all.reached arrived results = arrived ++ results := by
  induction results generalizing arrived with
  | nil => rw [reached, List.append_nil]
  | cons result rest ih =>
    have before : firstFailure? arrived = none := by
      rw [firstFailure?_append, Option.or_eq_none_iff] at clean
      exact clean.1
    have goes_on : ¬ Combinator.all.rejects arrived = true := by simp [rejects, before]
    have split : arrived ++ result :: rest = arrived ++ [result] ++ rest := by simp
    rw [reached, if_neg goes_on, split]
    exact ih (split ▸ clean)

end Combinator

/-! ## Bodies -/

variable {base layout : Layout} {placed e e' e'' : Engine}

/-- Whether all kept handles lead along routes of a layout. -/
def Layout.Keeps (base : Layout) (e : Engine) : Prop :=
  ∀ handle, some handle ∈ e.parked → base.Carries handle.route

theorem Layout.Keeps.of_parked (kept : base.Keeps e) (same : e'.parked = e.parked) :
    base.Keeps e' := by
  rw [Layout.Keeps, same]
  exact kept

/-- A body that only settles kept handles stays where these lead. -/
theorem performAll_confined (old : Placed base placed) (rule : String) (own : Handle) :
    ∀ (actions : List Action) {e : Engine}, base.Keeps e →
      (∀ action ∈ actions, ∃ index answer, action = .settleParked index answer) →
      Confined base e (actions.foldl (Engine.perform rule own) e)
  | [], e, _, _ => .refl base e
  | action :: actions, e, kept, settles => by
    have first : Confined base e (Engine.perform rule own e action) := by
      obtain ⟨index, answer, rfl⟩ := settles action List.mem_cons_self
      rw [Engine.perform]
      cases found : e.parked? index with
      | none => exact .refl base e
      | some handle =>
        have mem : some handle ∈ e.parked := by
          rw [Engine.parked?, Option.join_eq_some_iff] at found
          exact List.mem_of_getElem? found
        exact (settle_confined old (kept handle mem) answer e).trans (.note _ fun _ => id)
    exact first.trans (performAll_confined old rule own actions (kept.of_parked first.parked)
      fun action mem => settles action (List.mem_cons_of_mem _ mem))

/-- A body that answers at once judges nothing but where the kept handles lead. -/
theorem evaluate_immediate (old : Placed base placed) {body : Body} (immediate : body.Immediate)
    (kept : base.Keeps e) (rule : String) (value : Json) (params : List Json) (p : Place)
    (handle : Handle) :
    (Engine.evaluate rule value params p handle body e).1 = .now (body.accepts value params) ∧
      Confined base e (Engine.evaluate rule value params p handle body e).2 := by
  cases body with
  | test holds => exact ⟨by rw [Engine.evaluate]; rfl, by rw [Engine.evaluate]; exact .note _ fun _ => id⟩
  | scripted plan =>
    obtain ⟨⟨holds, now⟩, settles⟩ := immediate value params
    have invoked : Confined base e (e.note (.invoked p rule true value params)) := .note _ fun _ => id
    rw [Engine.evaluate]
    refine ⟨?_, invoked.trans (performAll_confined old rule handle _
      (kept.of_parked invoked.parked) (settles p))⟩
    rw [now, Body.accepts, now]
  | validator age checks => exact immediate.elim

/-! ## Checks -/

/-- All that was judged in a call between two states of the journal lies in a region. -/
abbrev Adds (call : Nat) (region : Place → Prop) : Journal → Journal → Prop :=
  Judges fun p => p.root = .call call → region p

namespace Adds

variable {call : Nat} {region wider : Place → Prop} {first middle last : Journal}

theorem refl (call : Nat) (region : Place → Prop) (journal : Journal) :
    Adds call region journal journal :=
  Judges.refl _ journal

theorem trans (earlier : Adds call region first middle) (later : Adds call region middle last) :
    Adds call region first last :=
  Judges.trans earlier later

theorem mono (h : Adds call region first last) (sub : ∀ p, region p → wider p) :
    Adds call wider first last :=
  Judges.mono h fun p inside below => sub p (inside below)

end Adds

/-- What stays in an older layout adds nothing to a new call. -/
theorem Confined.adds (h : Confined base e e') {call : Nat} (new : base (.call call) = none)
    (region : Place → Prop) : Adds call region e.journal e'.journal := by
  obtain ⟨news, grows, inside⟩ := h.journal
  refine ⟨news, grows, fun p answer result mem below => ?_⟩
  obtain ⟨question, onward, handed, -⟩ := inside p answer result mem
  exact absurd (below ▸ new) (Layout.root_of_handle? handed)

/-- Nothing was judged at a fresh place and below it. -/
theorem Placed.untouched_of_fresh (h : Placed layout e) {p : Place} (fresh : e.Fresh p) :
    ∀ event ∈ e.journal, ¬ event.Touches p := by
  intro event mem touches
  cases event with
  | judged q answer result =>
    exact fresh q touches (.inr (h.judged q answer result mem).1)
  | _ => exact touches

/-- What is judged away from a place leaves it untouched. -/
theorem Adds.untouched {call : Nat} {region : Place → Prop} {earlier later : Journal} {q : Place}
    (h : Adds call region earlier later) (below : q.root = .call call)
    (outside : ∀ p, region p → ¬ q.Encloses p) (before : ∀ event ∈ earlier, ¬ event.Touches q) :
    ∀ event ∈ later, ¬ event.Touches q := by
  obtain ⟨news, rfl, inside⟩ := h
  intro event mem touches
  rcases List.mem_append.1 mem with new | old
  · cases event with
    | judged p answer result =>
      have there : p.root = .call call := touches.1.symm.trans below
      exact outside p (inside p answer result new there) touches
    | _ => exact touches
  · exact before event old touches

/-- The account of a settlement judges one question. -/
theorem Opening.account_adds (o : Opening) (call : Nat) (p : Place) (answer : Answer)
    (result : Result) (journal : Journal) :
    Adds call p.Encloses journal (o.account call p answer result journal) := by
  obtain ⟨report, heard, unjudged, whole⟩ : ∃ report heard,
      (∀ q given judgement, Event.judged q given judgement ∉ heard) ∧
      o.account call p answer result journal =
        .told p report :: (heard ++ .judged p answer result :: journal) :=
    ⟨_, _, fun _ _ _ => judged_not_mem_heardOf, rfl⟩
  refine ⟨.told p report :: (heard ++ [.judged p answer result]), by simp [whole], ?_⟩
  intro q given judgement mem _
  simp only [List.mem_cons, List.mem_append, List.not_mem_nil, or_false, reduceCtorEq,
    false_or] at mem
  rcases mem with heard | same
  · exact absurd heard (unjudged q given judgement)
  · cases same
    exact .refl p

/-- A list is rejected when what has arrived rejects it. -/
theorem Sound.isRejected_eq (h : Sound layout e) {p : Place} {o : Opening}
    (found : layout.opening? p = some o) (opened : e.Opened p) :
    e.isRejected p = o.combinator.rejects (o.results p e.journal) := by
  cases combinator : o.combinator with
  | all => exact h.isRejected_all found combinator opened
  | any => exact h.isRejected_any found combinator

theorem Check.length_verdicts (templates : Nat → Templates) (value : Json) (checks : List Check) :
    (Check.verdicts templates value checks).length = checks.length := by
  induction checks with
  | nil => rfl
  | cons check rest ih => rw [Check.verdicts, List.length_cons, ih, List.length_cons]

/-- The state of a call of which only checks that answer at once have been started. -/
structure Calling (base layout : Layout) (templates : Nat → Templates) (e : Engine) : Prop where
  sound : Sound layout e
  kept : base.Keeps e
  words : e.templatesOf = templates

theorem Calling.step {templates : Nat → Templates} (h : Calling base layout templates e)
    {active : Option Root} {region : Place → Prop} (runs : Runs layout active region e e')
    (same : e'.parked = e.parked) :
    Calling base layout templates e' := by
  refine ⟨runs.sound h.sound, h.kept.of_parked same, ?_⟩
  rw [← h.words]
  funext definition
  rw [Engine.templatesOf, Engine.templatesOf, runs.grows.templates]

section

variable {call : Nat} {first : Opening} {templates : Nat → Templates}

/-- What a check comes to while only it is being started arrives in its list. -/
theorem results_of_start {p : Place} {k : Nat} {o : Opening} {check : Check} {later : Journal}
    {result : Result} (below : p.root = .call call) (found : layout.opening? p = some o)
    (here : o.checks[k]? = some check) (h : Calling base layout templates e)
    (fresh : e.Fresh (p.member k)) (adds : Adds call (p.member k).Encloses e.journal later)
    (outcome : check.outcome? o.value (p.member k) later = some result) :
    o.results p later = o.results p e.journal ++ [result] := by
  have clause : ∀ journal, o.clause? p k journal = check.outcome? o.value (p.member k) journal := by
    intro journal
    rw [Opening.clause?, here, Option.bind_some]
  have before : o.clause? p k e.journal = none := by
    rw [clause]
    exact Check.outcome?_of_untouched ((h.sound.wellFormed.opening found).check here) o.value
      (h.sound.toPlaced.untouched_of_fresh fresh)
  obtain ⟨news, rfl, inside⟩ := adds
  have only : ∀ event ∈ news, ∀ j, event.Touches (p.member j) → j = k := by
    intro event mem j touches
    cases event with
    | judged q answer judgement =>
      exact Place.member_unique touches
        (inside q answer judgement mem (touches.1.symm.trans below))
    | _ => exact touches.elim
  rw [Opening.results_of_segment only, before, clause, outcome]
  rfl

/-- **A rule that answers at once** is judged on the spot, and nothing else is judged in the call. -/
theorem start_rule_immediate (old : Placed base placed) (new : base (.call call) = none)
    (root : layout (.call call) = some first) (plain : first.Plain) {definition : Nat}
    {name : String} {body : Body} {negated : Bool} {params : List Json}
    (immediate : body.Immediate) {p : Place} {i : Nat} {o : Opening}
    (found : layout.opening? p = some o)
    (here : o.checks[i]? = some (.rule definition name body negated params))
    (below : p.root = .call call) (h : Calling base layout templates e) (opened : e.Opened p)
    (fresh : e.Fresh (p.member i)) :
    let after := Engine.start o.value (p.member i) (o.route p)
      (.rule definition name body negated params) e
    after.parked = e.parked ∧ Adds call (p.member i).Encloses e.journal after.journal ∧
      judgement? (p.member i) after.journal = some (Question.judge
        ⟨definition, name, negated, params, o.value⟩ (templates definition)
        (.ok (body.accepts o.value params))) := by
  have invited := invited_member rfl found here opened fresh
  obtain ⟨evaluated, issued, -⟩ :=
    evaluate_runs name params body e o.value (p.member i) _ h.sound invited
  have owns := invited.owns _ issued evaluated.grows.journal.suffix
  obtain ⟨replies, stays⟩ := evaluate_immediate old immediate h.kept name o.value params
    (p.member i) (.asked (p.member i) ⟨definition, name, negated, params, o.value⟩ (o.route p))
  simp only [Engine.start]
  generalize Engine.evaluate name o.value params (p.member i) _ body e = evaluation at *
  obtain ⟨reply, after⟩ := evaluation
  obtain rfl : reply = .now (body.accepts o.value params) := replies
  dsimp only at evaluated issued owns stays ⊢
  have calling := h.step evaluated stays.parked
  -- So far nothing was judged here: what the body settled leads to older calls.
  have untouched : ∀ event ∈ after.journal, ¬ event.Touches (p.member i) :=
    (stays.adds new fun _ => False).untouched below (fun _ impossible => impossible.elim)
      (h.sound.toPlaced.untouched_of_fresh fresh)
  have unjudged : judgement? (p.member i) after.journal = none := by
    have wf : (Check.rule definition name body negated params).wellFormed = true :=
      (h.sound.wellFormed.opening found).check here
    exact Check.outcome?_of_untouched wf o.value untouched
  have unsettled : p.member i ∉ after.settled := by
    rw [calling.sound.settled _ _ owns.1, unjudged]
    exact Bool.false_ne_true
  have account := settle_account root plain calling.sound owns below unsettled
    (.ok (body.accepts o.value params))
  have confined := settle_confined calling.sound.toPlaced owns.carries
    (.ok (body.accepts o.value params)) after
  refine ⟨confined.parked.trans stays.parked, ?_, ?_⟩
  · refine (stays.adds new _).trans ?_
    rw [account]
    exact first.account_adds call (p.member i) _ _ _
  · rw [account, ← calling.words]
    exact (lasting_judgement _).mono (first.account_suffix call (p.member i) _ _ _)
      (judgement?_cons_self unjudged)

mutual

/-- **Starting a check** whose rules answer at once brings it to its verdict, and nothing else is
judged in the call. -/
theorem start_immediate (old : Placed base placed) (new : base (.call call) = none)
    (root : layout (.call call) = some first) (plain : first.Plain) :
    (check : Check) → check.Immediate → ∀ ⦃e : Engine⦄ ⦃p : Place⦄ ⦃i : Nat⦄ ⦃o : Opening⦄,
      layout.opening? p = some o → o.checks[i]? = some check → p.root = .call call →
      Calling base layout templates e → e.Opened p → e.Fresh (p.member i) →
      let after := Engine.start o.value (p.member i) (o.route p) check e
      after.parked = e.parked ∧ Adds call (p.member i).Encloses e.journal after.journal ∧
        check.outcome? o.value (p.member i) after.journal = some (check.verdict templates o.value)
  | .rule definition name body negated params => by
    intro immediate e p i o found here below h opened fresh
    rw [Check.outcome?, Check.verdict]
    exact start_rule_immediate old new root plain immediate found here below h opened fresh
  | .group members => by
    intro immediate e p i o found here below h opened fresh
    obtain ⟨member, inhabited, opens⟩ := openGroup_runs rfl found here h.sound opened fresh
    have calling := h.step opens rfl
    have nothing_yet : Opening.results ⟨.any, members, o.value, o.route p⟩ (p.member i) e.journal =
        [] := by
      have closed : ¬ e.Opened (p.member i) := fun opened => fresh _ (.refl _) (.inl opened)
      exact Opening.results_eq_nil (h.sound.toPlaced.untouched closed)
    obtain ⟨parked, adds, results⟩ := startAll_immediate old new root plain members immediate
      (k := 0) member (fun j check found => by rwa [Nat.zero_add]) below calling
      (Engine.opened_putList.2 (.inl rfl)) fun j _ => (fresh.member j).grows opens.grows
    have wfAll := h.sound.wellFormed.opening member
    have nonempty : members.length ≠ 0 := by simpa using inhabited
    simp only [Engine.start, runList_of_inhabited .any nonempty]
    refine ⟨parked, adds.mono fun x ⟨j, _, inside⟩ => ((p.member i).encloses_member j).trans inside, ?_⟩
    have arrived : Opening.results ⟨.any, members, o.value, o.route p⟩ (p.member i) (Engine.startAll
        o.value (p.member i) 0 members (Route.list (p.member i) .any o.value (o.route p))
        (e.putList (p.member i) (.start .any members.length))).journal =
        Check.verdicts templates o.value members := by
      rw [Combinator.reached_any, show (e.putList _ _).journal = e.journal from rfl, nothing_yet,
        List.nil_append] at results
      exact results
    rw [wfAll.outcome?_group, Opening.decision?, Combinator.decision?, arrived,
      if_pos (Check.length_verdicts templates o.value members), Check.verdict]

/-- Starting the checks of a list from a position on brings in their verdicts. -/
theorem startAll_immediate (old : Placed base placed) (new : base (.call call) = none)
    (root : layout (.call call) = some first) (plain : first.Plain) :
    (checks : List Check) → Check.AllImmediate checks →
      ∀ ⦃e : Engine⦄ ⦃p : Place⦄ ⦃k : Nat⦄ ⦃o : Opening⦄,
      layout.opening? p = some o → (∀ j check, checks[j]? = some check →
        o.checks[k + j]? = some check) → p.root = .call call → Calling base layout templates e →
      e.Opened p → (∀ j, k ≤ j → e.Fresh (p.member j)) →
      let after := Engine.startAll o.value p k checks (o.route p) e
      after.parked = e.parked ∧
        Adds call (fun x => ∃ j, k ≤ j ∧ (p.member j).Encloses x) e.journal after.journal ∧
        o.results p after.journal = o.combinator.reached (o.results p e.journal)
          (Check.verdicts templates o.value checks)
  | [] => by
    intro _ e p k o _ _ _ _ _ _
    exact ⟨by rw [Engine.startAll], by rw [Engine.startAll]; exact .refl call _ _,
      by rw [Engine.startAll]; rfl⟩
  | check :: rest => by
    intro immediate e p k o found here below h opened fresh
    have rejection := h.sound.isRejected_eq found opened
    simp only [Engine.startAll]
    by_cases rejected : e.isRejected p = true
    · rw [if_pos rejected]
      refine ⟨rfl, .refl call _ _, ?_⟩
      rw [Combinator.reached_of_rejects (rejection ▸ rejected)]
    · rw [if_neg rejected]
      have at_k : o.checks[k]? = some check := here 0 check rfl
      obtain ⟨runs, -⟩ := start_runs check found at_k rfl h.sound opened (fresh k (Nat.le_refl k))
      obtain ⟨parked, adds, outcome⟩ := start_immediate old new root plain check immediate.1 found
        at_k below h opened (fresh k (Nat.le_refl k))
      obtain ⟨parked', adds', results⟩ := startAll_immediate old new root plain rest immediate.2
        (k := k + 1) found (getElem?_rest here) below (h.step runs parked)
        (runs.grows.opened p opened) (Engine.Fresh.after fresh runs.grows)
      refine ⟨parked'.trans parked,
        (adds.mono fun x inside => ⟨k, Nat.le_refl k, inside⟩).trans
          (adds'.mono fun x ⟨j, above, inside⟩ => ⟨j, by omega, inside⟩), ?_⟩
      rw [results, Check.verdicts, Combinator.reached, if_neg (rejection ▸ rejected),
        results_of_start below found at_k h (fresh k (Nat.le_refl k)) adds outcome]

end

end

end Criteria
