import Criteria.Proofs.Call.Completion
import Criteria.Proofs.Call.Recount
import Criteria.Proofs.Settle.Lasting

/-!
# What a settling caller is told

In a call of a plain validator a first settlement is told the failure of the top-level clause above it
if it makes that clause fail, and nothing otherwise. It makes the clause fail just if the answer was
judged a failure and every group on the way now has nothing but failures in it.
-/

namespace Criteria
set_option autoImplicit false

/-! ## Failed groups -/

/-- A group has failed when all its members have. -/
theorem Check.failed_group {members : List Check} {value : Json} {p : Place} {journal : Journal}
    (wf : (Check.group members).wellFormed = true) (clear : Clearly journal) :
    (∃ f, (Check.group members).outcome? value p journal = some (.error f)) ↔
      ∀ k m, members[k]? = some m → ∃ f, Check.outcome? value (p.member k) m journal = some (.error f) := by
  simp only [Check.wellFormed, Bool.and_eq_true] at wf
  have wfAll : Opening.WellFormed ⟨.any, members, value, .call 0⟩ := wf.2
  rw [wfAll.outcome?_group, Opening.decision?, Combinator.decision?]
  have decided := (wfAll.length_results_eq_iff p journal).trans Opening.forall_mem_parts
  constructor
  · rintro ⟨f, failed⟩ k m found
    split at failed
    next full =>
      obtain ⟨result, outcome⟩ := Option.isSome_iff_exists.1 (decided.1 full k m found)
      obtain rfl | ⟨g, rfl⟩ := clear.outcome outcome
      · -- A passed member lets the group pass.
        have arrived := wfAll.mem_results.2 ⟨k, m, found, outcome⟩
        have passes : (Opening.results ⟨.any, members, value, .call 0⟩ p journal).any Result.holds =
            true := List.any_eq_true.2 ⟨_, arrived, rfl⟩
        rw [alternative, if_pos passes] at failed
        cases failed
      · exact ⟨g, outcome⟩
    · cases failed
  · intro failed
    have full := decided.2 fun k m found => by
      obtain ⟨f, outcome⟩ := failed k m found
      rw [outcome]
      rfl
    have fails : (Opening.results ⟨.any, members, value, .call 0⟩ p journal).any Result.holds =
        false := by
      rw [List.any_eq_false]
      intro result mem
      obtain ⟨k, m, found, outcome⟩ := wfAll.mem_results.1 mem
      obtain ⟨f, outcome'⟩ := failed k m found
      obtain rfl : .error f = result := Option.some.inj (outcome'.symm.trans outcome)
      exact Bool.false_ne_true
    rw [if_pos full, alternative, fails]
    exact ⟨_, rfl⟩

namespace Validator

/-- The checks of the list at a path: those of the validator or, further down, of a group. -/
def list? (v : Validator) : List Nat → Option (List Check)
  | [] => some v.checks
  | k :: path => (v.list? path).bind fun checks =>
    match checks[k]? with
    | some (.group members) => some members
    | _ => none

/-- Whether all clauses of the list at a path have failed. -/
def Failed (v : Validator) (call : Nat) (value : Json) (path : List Nat) (journal : Journal) : Prop :=
  ∀ members, v.list? path = some members → ∀ k m, members[k]? = some m →
    ∃ f, Check.outcome? value (Place.member ⟨.call call, path⟩ k) m journal = some (.error f)

variable {v : Validator} {call : Nat} {value : Json} {journal : Journal}

theorem list?_cons {k : Nat} {path : List Nat} {members : List Check}
    (h : v.list? (k :: path) = some members) :
    ∃ outer, v.list? path = some outer ∧ outer[k]? = some (.group members) := by
  obtain ⟨outer, above, here⟩ := Option.bind_eq_some_iff.1 h
  refine ⟨outer, above, ?_⟩
  split at here
  next group =>
    cases here
    exact group
  · cases here

/-- The check at a path that only groups enclose. -/
def ownClause? (v : Validator) : List Nat → Option Check
  | [] => none
  | k :: path => (v.list? path).bind (·[k]?)

theorem ownClause?_cons {k : Nat} {path : List Nat} {check : Check} :
    v.ownClause? (k :: path) = some check ↔
      ∃ outer, v.list? path = some outer ∧ outer[k]? = some check := by
  rw [ownClause?, Option.bind_eq_some_iff]

/-- A group's members stand below it. -/
theorem ownClause?_member {path : List Nat} {members : List Check}
    (found : v.ownClause? path = some (.group members)) (k : Nat) :
    v.ownClause? (k :: path) = members[k]? := by
  cases path with
  | nil => cases found
  | cons i path =>
    obtain ⟨outer, above, here⟩ := ownClause?_cons.1 found
    rw [ownClause?, list?, above, Option.bind_some, here]
    rfl

theorem wellFormed_list? (wf : v.wellFormed = true) :
    ∀ {path : List Nat} {members : List Check}, v.list? path = some members →
      Check.allWellFormed members = true
  | [], members, h => by
    cases h
    exact wf
  | k :: path, members, h => by
    obtain ⟨outer, above, group⟩ := list?_cons h
    have inner := Check.allWellFormed_iff.1 (wellFormed_list? wf above) _ (List.mem_of_getElem? group)
    simp only [Check.wellFormed, Bool.and_eq_true] at inner
    exact inner.2

theorem wellFormed_of_list? (wf : v.wellFormed = true) {path : List Nat} {outer : List Check}
    (above : v.list? path = some outer) {k : Nat} {check : Check} (found : outer[k]? = some check) :
    check.wellFormed = true :=
  Check.allWellFormed_iff.1 (wellFormed_list? wf above) _ (List.mem_of_getElem? found)

/-- A path that has a list has one at each of its ends. -/
theorem list?_of_suffix {path g : List Nat} (behind : g <:+ path) {members : List Check}
    (h : v.list? path = some members) : ∃ outer, v.list? g = some outer := by
  induction path generalizing members with
  | nil =>
    obtain rfl := List.eq_nil_of_suffix_nil behind
    exact ⟨_, rfl⟩
  | cons k path ih =>
    rcases List.suffix_cons_iff.1 behind with rfl | inside
    · exact ⟨members, h⟩
    · obtain ⟨outer, above, -⟩ := list?_cons h
      exact ih inside above

/-- Below a failed top-level clause all lists have failed. -/
theorem failed_below (wf : v.wellFormed = true) (clear : Clearly journal) {i : Nat} {f : Failure}
    (failed : v.outcome? call value i journal = some (.error f)) :
    ∀ {path : List Nat}, path ≠ [] → path.getLastD 0 = i → v.Failed call value path journal
  | [], inside, _ => absurd rfl inside
  | [k], _, last => by
    obtain rfl : k = i := last
    intro members here
    obtain ⟨outer, top, group⟩ := list?_cons here
    cases top
    rw [outcome?, group, Option.bind_some] at failed
    have top : v.list? [] = some v.checks := rfl
    exact (Check.failed_group (wellFormed_of_list? wf top group) clear).1 ⟨f, failed⟩
  | k :: j :: path, _, last => by
    intro members here
    obtain ⟨outer, above, group⟩ := list?_cons here
    have outerFailed := failed_below wf clear failed (by simp)
      (by simpa [List.getLastD] using last) outer above k _ group
    exact (Check.failed_group (wellFormed_of_list? wf above group) clear).1 outerFailed

variable {path : List Nat} {k : Nat} {outer : List Check} {definition : Nat} {name : String}
  {body : Body} {negated : Bool} {params : List Json}

/-- Below a failed top-level clause every rule clause was judged a failure. -/
theorem judgement?_of_failed (wf : v.wellFormed = true) (clear : Clearly journal) {f : Failure}
    (above : v.list? path = some outer)
    (rule : outer[k]? = some (.rule definition name body negated params))
    (failed : v.outcome? call value (Place.member ⟨.call call, path⟩ k).first journal =
      some (.error f)) :
    ∃ g, judgement? (Place.member ⟨.call call, path⟩ k) journal = some (.error g) := by
  by_cases top : path = []
  · subst top
    cases above
    rw [Place.first_member_of_root rfl, outcome?, rule, Option.bind_some] at failed
    exact ⟨f, failed⟩
  · rw [Place.first_member top] at failed
    exact failed_below wf clear failed top rfl outer above k _ rule

/-- A top-level clause has failed when the rule clause was judged a failure and all groups on the way
to it have failed. -/
theorem failed_of_judgement (wf : v.wellFormed = true) (clear : Clearly journal) {f : Failure}
    (above : v.list? path = some outer)
    (rule : outer[k]? = some (.rule definition name body negated params))
    (judged : judgement? (Place.member ⟨.call call, path⟩ k) journal = some (.error f))
    (groups : ∀ g, g ≠ [] → g <:+ k :: path → v.Failed call value g journal) :
    ∃ g, v.outcome? call value (Place.member ⟨.call call, path⟩ k).first journal =
      some (.error g) := by
  by_cases top : path = []
  · subst top
    cases above
    rw [Place.first_member_of_root rfl, outcome?, rule, Option.bind_some]
    exact ⟨f, judged⟩
  · rw [Place.first_member top]
    -- The last position of the path is that of the top-level group.
    have ends : [path.getLastD 0] <:+ path := (Place.first_encloses (p := ⟨.call call, path⟩) top).2
    obtain ⟨members, here⟩ := list?_of_suffix ends above
    obtain ⟨checks, first, group⟩ := list?_cons here
    cases first
    rw [outcome?, Place.first, group, Option.bind_some]
    have whole : v.list? [] = some v.checks := rfl
    refine (Check.failed_group (wellFormed_of_list? wf whole group) clear).2 ?_
    exact groups _ (by simp) (ends.trans (List.suffix_cons _ _)) members here

/-- The lists that a call opens are those of its validator. -/
theorem list?_of_opening {layout : Layout}
    (root : layout (.call call) = some (.ofCall call v.checks value)) (plain : v.Plain) :
    ∀ {path : List Nat} {o : Opening}, layout.opening? ⟨.call call, path⟩ = some o →
      v.list? path = some o.checks ∧ o.value = value ∧ o.Plain
  | [], o, found => by
    obtain rfl : .ofCall call v.checks value = o := Option.some.inj (root.symm.trans found)
    exact ⟨rfl, rfl, plain⟩
  | i :: path, o, found => by
    obtain ⟨outer, above, member⟩ := Option.bind_eq_some_iff.1 found
    have above : layout.opening? ⟨.call call, path⟩ = some outer := above
    obtain ⟨checks, same, outerPlain⟩ := list?_of_opening root plain above
    obtain ⟨inner, members, group, rfl⟩ := outerPlain.member member
    exact ⟨by rw [list?, checks, Option.bind_some, group], same, inner⟩

/-- A handle of a call is that of a rule clause of its validator. -/
theorem rule_of_handle {layout : Layout}
    (root : layout (.call call) = some (.ofCall call v.checks value)) (plain : v.Plain) {p : Place}
    {handle : Handle} (below : p.root = .call call) (handed : layout.handle? p = some handle) :
    ∃ path k outer definition name body negated params onward,
      p = Place.member ⟨.call call, path⟩ k ∧ v.list? path = some outer ∧
      outer[k]? = some (.rule definition name body negated params) ∧
      handle = .asked p ⟨definition, name, negated, params, value⟩ onward := by
  obtain ⟨w, k, o, rfl, found, member⟩ := Layout.handle?_eq_some handed
  obtain ⟨definition, name, body, negated, params, rule, equal⟩ := Opening.handle?_eq_some member
  obtain ⟨root', path⟩ := w
  obtain rfl : root' = .call call := below
  obtain ⟨checks, same, -⟩ := list?_of_opening root plain found
  rw [same] at equal
  exact ⟨path, k, o.checks, definition, name, body, negated, params, _, rfl, checks, rule, equal⟩

end Validator

/-! ## The report of a first settlement -/

theorem toldOf_eq_error {before after : Option Result} {f : Failure} :
    toldOf before after = .error f ↔ before = none ∧ after = some (.error f) := by
  rcases before with _ | _ <;> rcases after with _ | _ | _ <;> simp [toldOf]

theorem mem_heardOf {call id : Nat} {returned : Bool} {before after : Option Result} {f : Failure} :
    .completed id (.error f) ∈ heardOf call returned before after ↔
      id = call ∧ returned = true ∧ before = none ∧ after = some (.error f) := by
  rcases before with _ | _ <;> rcases after with _ | g | _ <;> cases returned <;>
    simp [heardOf, Except.isOk, Except.toBool, eq_comm]

/-- Without a failure the list of a call is undecided as long as a clause is. -/
theorem Validator.undecided_of_pending {v : Validator} {call : Nat} {value : Json} {i : Nat}
    {journal : Journal} (wf : v.wellFormed = true) (bound : i < v.checks.length)
    (pending : v.outcome? call value i journal = none)
    (clean : v.failure? call value journal = none) :
    (Opening.ofCall call v.checks value).decision? (.ofCall call) journal = none := by
  have decides : (Opening.ofCall call v.checks value).decision? (.ofCall call) journal =
    Combinator.all.decision? v.checks.length value (v.results call value journal) := rfl
  rw [Validator.failure?] at clean
  simp only [decides, Combinator.decision?, clean]
  rw [if_neg]
  intro full
  have come := (Validator.length_results_eq_iff wf journal).1 full i bound
  rw [pending] at come
  cases come

/-- The list of a call is newly decided by a failure when a clause newly fails and none had before. -/
theorem Validator.decision?_fails {v : Validator} {call : Nat} (value : Json) {i : Nat}
    {event : Event} (journal : Journal) (wf : v.wellFormed = true) (bound : i < v.checks.length)
    (touches : event.Touches ((Place.ofCall call).member i)) (f : Failure) :
    ((Opening.ofCall call v.checks value).decision? (.ofCall call) journal = none ∧
      (Opening.ofCall call v.checks value).decision? (.ofCall call) (event :: journal) =
        some (.error f)) ↔
      (v.outcome? call value i journal = none ∧
        v.outcome? call value i (event :: journal) = some (.error f)) ∧
      v.failure? call value journal = none := by
  have cases := Opening.clause?_cases (.ofCall call v.checks value) journal touches
  rw [Validator.decision?_eq_error]
  constructor
  · rintro ⟨undecided, fails⟩
    have clean : v.failure? call value journal = none := by
      cases failed : v.failure? call value journal with
      | none => rfl
      | some g =>
        rw [Validator.decision?_eq_error.2 failed] at undecided
        cases undecided
    refine ⟨?_, clean⟩
    obtain ⟨-, same⟩ | ⟨result, before, after, arrives⟩ := cases
    · rw [Validator.failure?, ← Validator.results_eq, same] at fails
      rw [Validator.failure?, ← Validator.results_eq, fails] at clean
      cases clean
    · rw [Validator.failure?, ← Validator.results_eq, arrives, firstFailure?_append] at fails
      rw [Validator.failure?, ← Validator.results_eq] at clean
      rw [clean, Option.none_or] at fails
      have last := mem_of_firstFailure? fails
      rw [List.mem_singleton] at last
      exact ⟨before, last ▸ after⟩
  · rintro ⟨⟨before, after⟩, clean⟩
    refine ⟨undecided_of_pending wf bound before clean, ?_⟩
    obtain ⟨same, -⟩ | ⟨result, -, now, arrives⟩ := cases
    · have unchanged := same.symm.trans after
      rw [show (Opening.ofCall call v.checks value).clause? (.ofCall call) i journal =
        v.outcome? call value i journal from rfl, before] at unchanged
      cases unchanged
    · obtain rfl : result = .error f := Option.some.inj (now.symm.trans after)
      rw [Validator.failure?, ← Validator.results_eq, arrives, firstFailure?_append]
      rw [Validator.failure?, ← Validator.results_eq] at clean
      rw [clean]
      rfl

namespace Validator

variable {v : Validator} {call : Nat} {value : Json} {path : List Nat} {k : Nat}
  {outer : List Check} {definition : Nat} {name : String} {body : Body} {negated : Bool}
  {params : List Json} {answer : Answer} {result : Result} {before : Journal}

/-- The top-level clause above a rule clause. -/
theorem first_lt (call : Nat) (above : v.list? path = some outer)
    (rule : outer[k]? = some (.rule definition name body negated params)) :
    (Place.member ⟨.call call, path⟩ k).first < v.checks.length := by
  by_cases top : path = []
  · subst top
    cases above
    rw [Place.first_member_of_root rfl]
    exact (List.getElem?_eq_some_iff.1 rule).1
  · rw [Place.first_member top]
    have ends : [path.getLastD 0] <:+ path := (Place.first_encloses (p := ⟨.call call, path⟩) top).2
    obtain ⟨members, here⟩ := list?_of_suffix ends above
    obtain ⟨checks, first, group⟩ := list?_cons here
    cases first
    exact (List.getElem?_eq_some_iff.1 group).1

/-- The first settlement of a rule clause makes its top-level clause fail when it is judged a failure
and all groups on the way have failed with it. -/
theorem fails_iff (wf : v.wellFormed = true) (above : v.list? path = some outer)
    (rule : outer[k]? = some (.rule definition name body negated params))
    (clear : Clearly (.judged (Place.member ⟨.call call, path⟩ k) answer result :: before))
    (unjudged : judgement? (Place.member ⟨.call call, path⟩ k) before = none) :
    (∃ f, v.outcome? call value (Place.member ⟨.call call, path⟩ k).first before = none ∧
      v.outcome? call value (Place.member ⟨.call call, path⟩ k).first
        (.judged (Place.member ⟨.call call, path⟩ k) answer result :: before) = some (.error f)) ↔
      (∃ f, result = .error f) ∧ ∀ g, g ≠ [] → g <:+ k :: path → v.Failed call value g
        (.judged (Place.member ⟨.call call, path⟩ k) answer result :: before) := by
  have judged : judgement? (Place.member ⟨.call call, path⟩ k)
      (.judged (Place.member ⟨.call call, path⟩ k) answer result :: before) = some result :=
    judgement?_cons_self unjudged
  constructor
  · rintro ⟨f, -, failed⟩
    refine ⟨?_, ?_⟩
    · obtain ⟨g, fails⟩ := judgement?_of_failed wf clear above rule failed
      exact ⟨g, Option.some.inj (judged.symm.trans fails)⟩
    · intro g inside behind
      have below : Place.Encloses ⟨.call call, g⟩ (Place.member ⟨.call call, path⟩ k) := ⟨rfl, behind⟩
      exact failed_below wf clear failed inside (Place.first_of_encloses inside below).symm
  · rintro ⟨⟨f, rfl⟩, groups⟩
    obtain ⟨g, failed⟩ := failed_of_judgement wf clear above rule judged groups
    refine ⟨g, ?_, failed⟩
    have way : (Event.judged (Place.member ⟨.call call, path⟩ k) answer (.error f)).Touches
        ((Place.ofCall call).member (Place.member ⟨.call call, path⟩ k).first) :=
      Place.first_encloses (p := Place.member ⟨.call call, path⟩ k) (by simp [Place.member])
    obtain ⟨same, -⟩ | ⟨_, fresh, -⟩ :=
      Opening.clause?_cases (.ofCall call v.checks value) before way
    · -- Had the clause failed before, the rule clause would have been judged.
      have had := same.symm.trans failed
      obtain ⟨h, fails⟩ := judgement?_of_failed wf (clear.mono (List.suffix_cons _ _)) above rule had
      rw [unjudged] at fails
      cases fails
    · exact fresh

end Validator

/-- A first settlement notes its judgement, what that sets off, and then what the settler is told. -/
theorem settle_of_unsettled {e : Engine} {p : Place} (question : Question) (onward : Route)
    (answer : Answer) (unsettled : e.isSettled p = false) :
    ∃ during, (Engine.settle (.asked p question onward) answer e).2.journal =
      .told p (Engine.settle (.asked p question onward) answer e).1 :: (during ++
        .judged p answer (question.judge (e.templatesOf question.definition) answer) ::
          e.journal) := by
  have fresh : ¬ e.isSettled p = true := by simp [unsettled]
  rw [Engine.settle, Engine.answer, Engine.once, if_neg fresh]
  obtain ⟨during, grows⟩ := (deliver_rests onward
    (question.judge (e.templatesOf question.definition) answer) ((e.markSettled p).note (.judged p
      answer (question.judge (e.templatesOf question.definition) answer)))).journal.suffix
  exact ⟨during, congrArg (List.cons _) grows.symm⟩

/-- **What a settling caller is told.** In every run, for every call of a plain validator and every
first settlement in it: the settler is told something, and this is the failure of the top-level clause
above if the settlement makes that clause fail, and no failure otherwise. The clause is made to fail
just if the answer is judged a failure and all groups on the way have failed with it. The completion
receives a failure from the settlement just if the settler is told this failure, the call had returned
and no clause had failed before. What the journal says that a settler is told is what settling gives
back, and a settlement that is not the first gives back nothing. -/
theorem settlement_report {earlier later : List Move} (valid : ∀ m ∈ earlier ++ later, m.Valid)
    {v : Validator} (built : v.Built) (plain : v.Plain) (value : Json) :
    let e := Engine.empty.run earlier
    let call := e.calls.size
    let now := (e.call v value).2.run later
    (∀ p answer result before, p.root = .call call →
      .judged p answer result :: before <:+ now.journal →
      let after := .judged p answer result :: before
      (Place.member (.ofCall call) p.first).Encloses p ∧ p.first < v.checks.length ∧
      (∃ report during, .told p report :: (during ++ after) <:+ now.journal) ∧
      ∀ report during, .told p report :: (during ++ after) <:+ now.journal →
        (∀ f, report = .error f ↔ v.outcome? call value p.first before = none ∧
          v.outcome? call value p.first after = some (.error f)) ∧
        ((∃ f, report = .error f) ↔ (∃ f, result = .error f) ∧
          ∀ g, g ≠ [] → g <:+ p.path → v.Failed call value g after) ∧
        (∀ f, .completed call (.error f) ∈ during ↔ report = .error f ∧
          (returned? call before).isSome = true ∧ v.failure? call value before = none)) ∧
    (∀ (state : Engine) p question onward answer, state.isSettled p = false →
      ∃ during, (Engine.settle (.asked p question onward) answer state).2.journal =
        .told p (Engine.settle (.asked p question onward) answer state).1 :: (during ++
          .judged p answer (question.judge (state.templatesOf question.definition) answer) ::
            state.journal)) ∧
    (∀ (state : Engine) handle answer, state.isSettled handle.place = true →
      (Engine.settle handle answer state).1 = .ok ()) := by
  intro e call now
  obtain ⟨layout, -, trace, sound, root, -⟩ := run_call valid built value (rfl : _ = e)
  have wf := built.wellFormed
  have recounts := (Trace.recounts trace).2 call _ root plain
  refine ⟨?_, fun state p question onward answer unsettled =>
    settle_of_unsettled question onward answer unsettled,
    fun state handle answer settled => congrArg Prod.fst (settle_again settled answer)⟩
  intro p answer result before below behind after
  obtain ⟨unjudged, account⟩ := recounts.judged p answer result before below behind List.nil_suffix
  obtain ⟨-, question, onward, templates, handed, -⟩ :=
    sound.judged p answer result (behind.subset List.mem_cons_self)
  obtain ⟨path, k, outer, definition, name, body, negated, params, -, rfl, above, rule, -⟩ :=
    Validator.rule_of_handle root plain below handed
  have clear : Clearly after := sound.toPlaced.clearly.mono behind
  have way := Place.first_encloses (p := Place.member ⟨.call call, path⟩ k) (by simp [Place.member])
  have touches : (Event.judged (Place.member ⟨.call call, path⟩ k) answer result).Touches
      ((Place.ofCall call).member (Place.member ⟨.call call, path⟩ k).first) := way
  have bound := Validator.first_lt call above rule
  refine ⟨way, bound, ⟨_, _, account⟩, ?_⟩
  intro report during told
  obtain ⟨same, rest⟩ := List.cons.inj (recounts.account_unique below behind told)
  obtain ⟨-, rfl⟩ := Event.told.inj same
  obtain rfl := List.append_cancel_right rest
  refine ⟨fun f => toldOf_eq_error, ?_, ?_⟩
  · simp only [toldOf_eq_error]
    exact Validator.fails_iff wf above rule clear unjudged
  · intro f
    have fails := Validator.decision?_fails value before wf bound touches f
    rw [mem_heardOf, toldOf_eq_error]
    constructor
    · rintro ⟨-, returned, decided⟩
      exact ⟨(fails.1 decided).1, returned, (fails.1 decided).2⟩
    · rintro ⟨failed, returned, clean⟩
      exact ⟨rfl, returned, fails.2 ⟨failed, clean⟩⟩

/-! ## A group that fails -/

/-- The waiting handles of the group are settled so that both alternatives fail. -/
def Move.failing : List Move := [.settle 2 (.ok false), .settle 1 (.ok true)]

/-- The engine after this. -/
def Engine.failing : Engine := (Engine.empty.call .waiting .null).2.run Move.failing

/-- The failure of the negated alternative. -/
def Failure.waiting : Failure :=
  Question.failure ⟨0, "waiting", true, [], .null⟩ ⟨none, none⟩

/-- The one who settles the last alternative of the group is told that the group has failed. -/
theorem settlement_report_failing :
    ∃ f, .told ⟨.call 0, [0, 1]⟩ (.error f) ∈ Engine.failing.journal := by
  have valid : ∀ m ∈ [] ++ Move.failing, m.Valid := by simp [Move.failing, Move.Valid]
  have behind : .judged ⟨.call 0, [0, 1]⟩ (.ok true) (.error .waiting) ::
      Engine.failing.journal.drop 3 <:+ Engine.failing.journal := ⟨Engine.failing.journal.take 2, rfl⟩
  have failed : ∀ g, g ≠ [] → g <:+ [0, 1] → Validator.waiting.Failed 0 .null g
      (.judged ⟨.call 0, [0, 1]⟩ (.ok true) (.error .waiting) ::
        Engine.failing.journal.drop 3) := by
    intro g inside suffix members here k m found
    rcases List.suffix_cons_iff.1 suffix with rfl | suffix
    · cases show none = some members from here
    · obtain rfl | empty := List.suffix_cons_iff.1 suffix
      · cases show some _ = some members from here
        rcases k with _ | _ | k
        · cases found
          exact ⟨_, rfl⟩
        · cases found
          exact ⟨_, rfl⟩
        · cases found
      · exact absurd (List.eq_nil_of_suffix_nil empty) inside
  obtain ⟨-, -, ⟨report, during, noted⟩, told⟩ :=
    (settlement_report valid Validator.built_waiting rfl .null).1 _ _ _ _ rfl behind
  obtain ⟨f, rfl⟩ := (told report during noted).2.1.2 ⟨⟨_, rfl⟩, failed⟩
  exact ⟨f, noted.subset List.mem_cons_self⟩

end Criteria
