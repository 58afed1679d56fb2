import Criteria.Proofs.Call.Settlement
import Criteria.Proofs.Nested.Waiting

/-!
# Rule clauses that validators answer for

A clause of a called validator has a path, also if it stands in a validator that serves as a rule
(`Validator.clauseAt?`). If a validator serves as its rule, its body's list stands at the same path,
and what that list has come to settles the clause: yes as soon as all clauses of the list have passed,
no as soon as one of them has failed, and nothing else (`Sound.answered_by_list`).
-/

namespace Criteria
set_option autoImplicit false

/-- The checks of the list that a check opens. -/
def Check.members? : Check → Option (List Check)
  | .group members => some members
  | .rule _ _ (.validator _ checks) _ _ => some checks
  | .rule _ _ _ _ _ => none

namespace Validator

/-- The checks of the list at a path, also inside the validators that serve as rules. -/
def deepList? (v : Validator) : List Nat → Option (List Check)
  | [] => some v.checks
  | k :: path => (v.deepList? path).bind fun checks => checks[k]?.bind Check.members?

/-- The check at a path, also inside the validators that serve as rules. -/
def clauseAt? (v : Validator) : List Nat → Option Check
  | [] => none
  | k :: path => (v.deepList? path).bind (·[k]?)

variable {v : Validator} {path : List Nat} {k : Nat} {checks : List Check}

/-- A list that only groups enclose stands at the same path. -/
theorem deepList?_of_list? : ∀ {path : List Nat} {checks : List Check},
    v.list? path = some checks → v.deepList? path = some checks
  | [], _, found => found
  | k :: path, checks, found => by
    obtain ⟨outer, above, group⟩ := list?_cons found
    rw [deepList?, deepList?_of_list? above, Option.bind_some, group]
    rfl

theorem clauseAt?_cons {check : Check} :
    v.clauseAt? (k :: path) = some check ↔
      ∃ outer, v.deepList? path = some outer ∧ outer[k]? = some check := by
  rw [clauseAt?, Option.bind_eq_some_iff]

/-- A check that opens a list has it at its own path. -/
theorem deepList?_of_clauseAt? {check : Check} (found : v.clauseAt? path = some check) :
    v.deepList? path = check.members? := by
  cases path with
  | nil => cases found
  | cons k path =>
    obtain ⟨outer, above, here⟩ := clauseAt?_cons.1 found
    rw [deepList?, above, Option.bind_some, here, Option.bind_some]

end Validator

/-! ## Where they stand in a layout -/

section

variable {layout : Layout} {v : Validator} {call : Nat} {value : Json}

/-- A check opens a list with the checks that are its members. -/
theorem Opening.member?_isSome {o : Opening} {p : Place} {k : Nat} {check : Check}
    {members : List Check} (here : o.checks[k]? = some check) (opens : check.members? = some members) :
    ∃ inner, o.member? p k = some inner ∧ inner.checks = members ∧ inner.value = o.value := by
  match check, opens with
  | .group _, rfl => exact ⟨⟨.any, members, o.value, o.route p⟩, by simp [member?, here], rfl, rfl⟩
  | .rule definition name (.validator _ _) negated params, rfl =>
    exact ⟨⟨.all, members, o.value,
      .answer (p.member k) ⟨definition, name, negated, params, o.value⟩ (o.route p)⟩,
      by simp [member?, here], rfl, rfl⟩

/-- The lists of a call are those of its validator. -/
theorem Validator.opening?_of_deepList?
    (root : layout (.call call) = some (.ofCall call v.checks value)) :
    ∀ {path : List Nat} {checks : List Check}, v.deepList? path = some checks →
      ∃ o, layout.opening? ⟨.call call, path⟩ = some o ∧ o.checks = checks ∧ o.value = value
  | [], _, found => ⟨_, root, Option.some.inj found, rfl⟩
  | k :: path, checks, found => by
    obtain ⟨outer, above, found⟩ := Option.bind_eq_some_iff.1 found
    obtain ⟨check, here, opens⟩ := Option.bind_eq_some_iff.1 found
    obtain ⟨o, opened, rfl, rfl⟩ := opening?_of_deepList? root above
    obtain ⟨inner, member, checks, value⟩ :=
      Opening.member?_isSome (p := ⟨.call call, path⟩) here opens
    refine ⟨inner, ?_, checks, value⟩
    exact (congrArg (Option.bind · _) opened).trans member

theorem Validator.deepList?_of_opening?
    (root : layout (.call call) = some (.ofCall call v.checks value)) :
    ∀ {path : List Nat} {o : Opening}, layout.opening? ⟨.call call, path⟩ = some o →
      v.deepList? path = some o.checks ∧ o.value = value
  | [], o, found => by
    obtain rfl := Option.some.inj (root.symm.trans found)
    exact ⟨rfl, rfl⟩
  | k :: path, o, found => by
    obtain ⟨outer, above, member⟩ := Option.bind_eq_some_iff.1 found
    have above : layout.opening? ⟨.call call, path⟩ = some outer := above
    obtain ⟨checks, same⟩ := deepList?_of_opening? root above
    rw [deepList?, checks, Option.bind_some]
    obtain ⟨members, group, rfl⟩ | ⟨_, _, _, _, _, _, rule, -, rfl⟩ := Opening.member?_eq_some member
    · exact ⟨by rw [group]; rfl, same⟩
    · exact ⟨by rw [rule]; rfl, same⟩

variable {path : List Nat} {definition : Nat} {name : String} {body : Body} {negated : Bool}
  {params : List Json}

/-- A rule clause of a call hands out the handle of its question. -/
theorem Validator.handle?_of_clauseAt?
    (root : layout (.call call) = some (.ofCall call v.checks value))
    (found : v.clauseAt? path = some (.rule definition name body negated params)) :
    ∃ onward, layout.handle? ⟨.call call, path⟩ =
      some (.asked ⟨.call call, path⟩ ⟨definition, name, negated, params, value⟩ onward) := by
  cases path with
  | nil => cases found
  | cons k path =>
    obtain ⟨outer, above, here⟩ := clauseAt?_cons.1 found
    obtain ⟨o, opened, rfl, rfl⟩ := opening?_of_deepList? root above
    refine ⟨o.route ⟨.call call, path⟩, ?_⟩
    refine Layout.handle?_of_opening? (p := ⟨.call call, path⟩) opened ?_
    rw [Opening.handle?, here]
    rfl

/-- What hands out a handle in a call is a rule clause of its validator. -/
theorem Validator.clauseAt?_of_handle?
    (root : layout (.call call) = some (.ofCall call v.checks value)) {handle : Handle}
    (handed : layout.handle? ⟨.call call, path⟩ = some handle) :
    ∃ definition name body negated params onward,
      v.clauseAt? path = some (.rule definition name body negated params) ∧
      handle = .asked ⟨.call call, path⟩ ⟨definition, name, negated, params, value⟩ onward := by
  obtain ⟨w, k, o, place, opened, asks⟩ := Layout.handle?_eq_some handed
  obtain ⟨definition, name, body, negated, params, here, rfl⟩ := Opening.handle?_eq_some asks
  obtain ⟨root', way⟩ := w
  obtain ⟨rfl, rfl⟩ : Root.call call = root' ∧ path = k :: way := by simpa [Place.member] using place
  obtain ⟨checks, rfl⟩ := deepList?_of_opening? root opened
  exact ⟨definition, name, body, negated, params, _, clauseAt?_cons.2 ⟨_, checks, here⟩, rfl⟩

/-- Where a validator serves as the rule of a clause, its list answers for the clause. -/
theorem Validator.relays_of_clauseAt?
    (root : layout (.call call) = some (.ofCall call v.checks value)) {age : Nat}
    {checks : List Check}
    (found : v.clauseAt? path = some (.rule definition name (.validator age checks) negated params)) :
    ∃ o, layout.Relays ⟨.call call, path⟩ o ∧ o.checks = checks ∧ o.value = value := by
  obtain ⟨onward, handed⟩ := handle?_of_clauseAt? root found
  obtain ⟨o, opened, same, value⟩ := opening?_of_deepList? root (deepList?_of_clauseAt? found)
  exact ⟨o, ⟨opened, _, handed⟩, same, value⟩

/-- What a call waits for is a rule clause of its validator that is no validator. -/
theorem Validator.clause_of_waits {e : Engine}
    (root : layout (.call call) = some (.ofCall call v.checks value)) {route : Route}
    (waits : Waits layout e call (.ofCall call) route) :
    ∃ path definition name body negated params,
      v.clauseAt? path = some (.rule definition name body negated params) ∧
      body.isValidator = false ∧ Issued ⟨.call call, path⟩ e.journal ∧
      e.isSettled ⟨.call call, path⟩ = false ∧ ∃ handle,
        layout.handle? ⟨.call call, path⟩ = some handle ∧
        (e.leadsTo call route = true → e.leadsTo call handle.route = true) := by
  obtain ⟨⟨r, path⟩, handle, ⟨rfl, -⟩, handed, leaf, issued, unsettled, leads⟩ := waits
  obtain ⟨definition, name, body, negated, params, onward, found, rfl⟩ :=
    clauseAt?_of_handle? root handed
  refine ⟨path, definition, name, body, negated, params, found, ?_, issued, unsettled, _, handed,
    leads⟩
  cases body with
  | validator age checks =>
    obtain ⟨o, opened, -⟩ := opening?_of_deepList? root (deepList?_of_clauseAt? found)
    cases opened.symm.trans leaf
  | test | scripted => rfl

end

/-! ## What their lists have come to -/

theorem Check.failure?_mono {value : Json} {place : Place} {checks : List Check}
    {earlier journal : Journal} (sub : earlier <:+ journal) {f : Failure}
    (failed : Check.failure? value place checks earlier = some f) :
    Check.failure? value place checks journal = some f :=
  firstFailure?_mono (arrivals_mono sub) failed

/-- A list settles the rule clause that it answers for as soon as it is decided and not otherwise:
with yes when all its clauses have passed, and with no when one has failed. It does so once: the handle
of the clause is judged at most once, and after that it is not settled again. -/
structure AnsweredByList (value : Json) (p : Place) (checks : List Check) (journal : Journal) :
    Prop where
  once : ∀ answer result before, .judged p answer result :: before <:+ journal →
    judgement? p before = none
  unrepeated : .repeated p ∉ journal
  fits : ∀ answer result before, .judged p answer result :: before <:+ journal →
    (answer = .ok true ∧ Check.AllPassed value p checks before) ∨
      (answer = .ok false ∧ (Check.failure? value p checks before).isSome = true)
  latest : ∀ answer result before, .judged p answer result :: before <:+ journal → checks ≠ [] →
    ∃ event earlier, before = event :: earlier ∧
      ¬ Check.AllPassed value p checks earlier ∧ Check.failure? value p checks earlier = none
  passed : (∃ result, .judged p (.ok true) result ∈ journal) ↔
    Issued p journal ∧ Check.AllPassed value p checks journal
  failed : (∃ result, .judged p (.ok false) result ∈ journal) ↔
    (Check.failure? value p checks journal).isSome = true

namespace Sound

variable {layout : Layout} {e : Engine} {p : Place} {o : Opening} {answer : Answer} {result : Result}
  {before : Journal}

/-- A list that answers for a rule clause succeeds when all its clauses have passed, and fails when one
has. -/
theorem relays_decision? (h : Sound layout e) (relays : layout.Relays p o) {journal : Journal}
    (behind : journal <:+ e.journal) {decision : Result} :
    o.decision? p journal = some decision ↔ (decision = .ok true ∧ o.Passed p journal) ∨
      ∃ f, decision = .error f ∧ o.failure? p journal = some f := by
  obtain ⟨-, -, -, -, -, -, conjunction, -⟩ := relays.member
  exact (h.wellFormed.opening relays.1).decision?_all conjunction (h.toPlaced.clearly.mono behind)

/-- The answer says whether all clauses had passed or one had failed. -/
theorem relays_fits (h : Sound layout e) (relayed : Relayed layout e.journal)
    (relays : layout.Relays p o) (behind : .judged p answer result :: before <:+ e.journal) :
    (answer = .ok true ∧ o.Passed p before) ∨
      (answer = .ok false ∧ (o.failure? p before).isSome = true) := by
  obtain ⟨decision, decided, rfl, -⟩ := relayed.relayed p o answer result before relays behind
  obtain ⟨rfl, passed⟩ | ⟨f, rfl, failed⟩ :=
    (h.relays_decision? relays ((List.suffix_cons _ _).trans behind)).1 decided
  · exact .inl ⟨rfl, passed⟩
  · exact .inr ⟨rfl, by rw [failed]; rfl⟩

/-- Before the event that comes before the answer, neither was the case. -/
theorem relays_latest (h : Sound layout e) (relayed : Relayed layout e.journal)
    (relays : layout.Relays p o) (behind : .judged p answer result :: before <:+ e.journal)
    (inhabited : o.checks ≠ []) : ∃ event earlier, before = event :: earlier ∧
      ¬ o.Passed p earlier ∧ o.failure? p earlier = none := by
  obtain ⟨decision, -, -, latest⟩ := relayed.relayed p o answer result before relays behind
  obtain ⟨event, earlier, rfl, undecided⟩ := latest inhabited
  have sub : earlier <:+ e.journal :=
    (List.suffix_cons _ _).trans ((List.suffix_cons _ _).trans behind)
  refine ⟨event, earlier, rfl, fun passed => ?_, Option.eq_none_iff_forall_ne_some.2 fun f failed => ?_⟩
  · cases undecided.symm.trans ((h.relays_decision? relays sub).2 (.inl ⟨rfl, passed⟩))
  · cases undecided.symm.trans ((h.relays_decision? relays sub).2 (.inr ⟨f, rfl, failed⟩))

/-- A list that has come to a decision has answered. -/
theorem relays_judged (h : Sound layout e) (relayed : Relayed layout e.journal)
    (relays : layout.Relays p o) (inhabited : o.checks ≠ []) {decision : Result}
    (decided : (decision = .ok true ∧ o.Passed p e.journal) ∨
      ∃ f, decision = .error f ∧ o.failure? p e.journal = some f) :
    ∃ answer result before, .judged p answer result :: before <:+ e.journal := by
  have comes := (h.relays_decision? relays (List.suffix_refl _)).2 decided
  exact suffix_of_judgement? (relayed.settles p o relays inhabited (by rw [comes]; rfl))

/-- The clause is answered with yes just if it was invoked and all clauses of the list have passed. -/
theorem relays_passed (h : Sound layout e) (relayed : Relayed layout e.journal)
    (prompt : Prompt layout e.journal) (relays : layout.Relays p o) :
    (∃ result, .judged p (.ok true) result ∈ e.journal) ↔
      Issued p e.journal ∧ o.Passed p e.journal := by
  constructor
  · rintro ⟨result, mem⟩
    obtain ⟨before, behind⟩ := suffix_of_mem mem
    obtain ⟨-, passed⟩ | ⟨impossible, -⟩ := h.relays_fits relayed relays behind
    · exact ⟨(h.judged p _ result mem).1,
        Check.AllPassed.mono passed ((List.suffix_cons _ _).trans behind)⟩
    · cases impossible
  · rintro ⟨issued, passed⟩
    obtain ⟨answer, result, before, behind⟩ : ∃ answer result before,
        .judged p answer result :: before <:+ e.journal := by
      by_cases empty : o.checks = []
      · exact suffix_of_judgement? (prompt p o relays empty issued)
      · exact h.relays_judged relayed relays empty (.inl ⟨rfl, passed⟩)
    obtain ⟨rfl, -⟩ | ⟨rfl, failed⟩ := h.relays_fits relayed relays behind
    · exact ⟨result, behind.subset List.mem_cons_self⟩
    · obtain ⟨f, failed⟩ := Option.isSome_iff_exists.1 failed
      have fails := Check.failure?_mono ((List.suffix_cons _ _).trans behind) failed
      cases fails.symm.trans (Check.AllPassed.clean passed (h.wellFormed.opening relays.1))

/-- The clause is answered with no just if a clause of the list has failed. -/
theorem relays_failed (h : Sound layout e) (relayed : Relayed layout e.journal)
    (relays : layout.Relays p o) : (∃ result, .judged p (.ok false) result ∈ e.journal) ↔
      (o.failure? p e.journal).isSome = true := by
  have clean : o.Passed p e.journal → o.failure? p e.journal = none := fun passed =>
    Check.AllPassed.clean passed (h.wellFormed.opening relays.1)
  constructor
  · rintro ⟨result, mem⟩
    obtain ⟨before, behind⟩ := suffix_of_mem mem
    obtain ⟨impossible, -⟩ | ⟨-, failed⟩ := h.relays_fits relayed relays behind
    · cases impossible
    · obtain ⟨f, failed⟩ := Option.isSome_iff_exists.1 failed
      have fails := Check.failure?_mono ((List.suffix_cons _ _).trans behind) failed
      exact Option.isSome_iff_exists.2 ⟨f, fails⟩
  · intro failed
    obtain ⟨f, failed⟩ := Option.isSome_iff_exists.1 failed
    have inhabited : o.checks ≠ [] := by
      intro empty
      have passed : o.Passed p e.journal := by
        intro part mem
        rw [empty] at mem
        cases mem
      cases failed.symm.trans (clean passed)
    obtain ⟨answer, result, before, behind⟩ :=
      h.relays_judged relayed relays inhabited (.inr ⟨f, rfl, failed⟩)
    obtain ⟨-, passed⟩ | ⟨rfl, -⟩ := h.relays_fits relayed relays behind
    · have passed := Check.AllPassed.mono passed ((List.suffix_cons _ _).trans behind)
      cases failed.symm.trans (clean passed)
    · exact ⟨result, behind.subset List.mem_cons_self⟩

/-- **A validator that serves as a rule settles the clause** just as its own list is decided. -/
theorem answered_by_list (h : Sound layout e) (relayed : Relayed layout e.journal)
    (prompt : Prompt layout e.journal) (relays : layout.Relays p o) :
    AnsweredByList o.value p o.checks e.journal where
  once answer result before := relayed.once p answer result before
  unrepeated := relayed.unrepeated relays
  fits _ _ _ := h.relays_fits relayed relays
  latest _ _ _ := h.relays_latest relayed relays
  passed := h.relays_passed relayed prompt relays
  failed := h.relays_failed relayed relays

end Sound

/-- A rejected clause of a list is a failure of the list. -/
theorem Sound.failure?_of_rejected {layout : Layout} {e : Engine} (h : Sound layout e)
    (relayed : Relayed layout e.journal) {p : Place} {o : Opening} (relays : layout.Relays p o) {i : Nat}
    {cause : String} {result : Result}
    (mem : .judged (p.member i) (.error cause) result ∈ e.journal) :
    (o.failure? p e.journal).isSome = true := by
  obtain ⟨-, question, onward, templates, handed, rfl⟩ := h.judged _ _ result mem
  obtain ⟨before, behind⟩ := suffix_of_mem mem
  have judged : judgement? (p.member i) e.journal = some (question.judge templates (.error cause)) :=
    (lasting_judgement _).mono behind (judgement?_cons_self (relayed.once _ _ _ _ behind))
  rw [Layout.handle?_member, relays.1, Option.bind_some] at handed
  obtain ⟨_, _, _, _, _, rule, -⟩ := Opening.handle?_eq_some handed
  have arrived : question.judge templates (.error cause) ∈ o.results p e.journal :=
    (h.wellFormed.opening relays.1).mem_results.2 ⟨i, _, rule, judged⟩
  rw [Option.isSome_iff_ne_none]
  intro clean
  have ok := firstFailure?_eq_none_iff.1 clean _ arrived
  simp [Question.judge, Except.isOk, Except.toBool] at ok

end Criteria
