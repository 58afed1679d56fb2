import Criteria.Proofs.Call.Verdict
import Criteria.Proofs.Nested.Clause

/-!
# The verdict with validators as rules

Where a validator serves as the rule of a clause, the answer to the clause is whether all clauses of
the validator hold. Putting this in for the clause, at any depth, gives a formula over the answers of
the other rules (`Validator.truth`), and the call comes to a success just if the formula is true.
-/

namespace Criteria
set_option autoImplicit false

/-! ## The formula -/

mutual

/-- The answer of a rule body at a path: of a validator, whether all its clauses hold, and otherwise
the one that is given there. -/
def Body.answer (answers : List Nat → Answer) (path : List Nat) : Body → Answer
  | .validator _ checks => .ok (Check.allTrue answers path 0 checks)
  | .test _ => answers path
  | .scripted _ => answers path

/-- Whether a check holds, with the formula of each validator in place of its answer. -/
def Check.truth (answers : List Nat → Answer) (path : List Nat) : Check → Bool
  | .rule _ _ body negated _ => (body.answer answers path).meets negated
  | .group members => Check.someTrue answers path 0 members

/-- Whether one of the checks of the list at a path holds. -/
def Check.someTrue (answers : List Nat → Answer) (path : List Nat) (position : Nat) :
    List Check → Bool
  | [] => false
  | check :: rest =>
    check.truth answers (position :: path) || Check.someTrue answers path (position + 1) rest

/-- Whether all checks of the list at a path hold. -/
def Check.allTrue (answers : List Nat → Answer) (path : List Nat) (position : Nat) :
    List Check → Bool
  | [] => true
  | check :: rest =>
    check.truth answers (position :: path) && Check.allTrue answers path (position + 1) rest

end

/-- Whether all clauses of a validator hold, with the formulas of the validators in it. -/
def Validator.truth (v : Validator) (answers : List Nat → Answer) : Bool :=
  Check.allTrue answers [] 0 v.checks

section

variable {answers : List Nat → Answer} {path : List Nat} {checks : List Check}

theorem Check.someTrue_iff : ∀ {position : Nat}, Check.someTrue answers path position checks = true ↔
    ∃ k check, checks[k]? = some check ∧
      Check.truth answers ((position + k) :: path) check = true := by
  induction checks with
  | nil => simp [Check.someTrue]
  | cons check rest ih =>
    intro position
    rw [Check.someTrue, Bool.or_eq_true, ih]
    constructor
    · rintro (here | ⟨k, later, found, holds⟩)
      · exact ⟨0, check, rfl, here⟩
      · refine ⟨k + 1, later, found, ?_⟩
        rwa [show position + (k + 1) = position + 1 + k by omega]
    · rintro ⟨_ | k, later, found, holds⟩
      · cases found
        exact .inl holds
      · refine .inr ⟨k, later, found, ?_⟩
        rwa [show position + 1 + k = position + (k + 1) by omega]

theorem Check.allTrue_iff : ∀ {position : Nat}, Check.allTrue answers path position checks = true ↔
    ∀ k check, checks[k]? = some check →
      Check.truth answers ((position + k) :: path) check = true := by
  induction checks with
  | nil => simp [Check.allTrue]
  | cons check rest ih =>
    intro position
    rw [Check.allTrue, Bool.and_eq_true, ih]
    constructor
    · rintro ⟨here, all⟩ (_ | k) later found
      · cases found
        exact here
      · rw [show position + (k + 1) = position + 1 + k by omega]
        exact all k later found
    · intro all
      refine ⟨all 0 check rfl, fun k later found => ?_⟩
      rw [show position + 1 + k = position + (k + 1) by omega]
      exact all (k + 1) later found

end

/-! ## What the journal says about it -/

/-- Whether the rules of a call that are no validators have given these answers. -/
def Leaves (v : Validator) (call : Nat) (answers : List Nat → Answer) (journal : Journal) : Prop :=
  ∀ path definition name body negated params,
    v.clauseAt? path = some (.rule definition name body negated params) → body.isValidator = false →
      ∀ answer result, .judged ⟨.call call, path⟩ answer result ∈ journal → answer = answers path

/-- Whether the rules of a call that are no validators have answered, as far as they were asked. -/
def LeavesSettled (v : Validator) (call : Nat) (journal : Journal) : Prop :=
  ∀ path definition name body negated params,
    v.clauseAt? path = some (.rule definition name body negated params) → body.isValidator = false →
      Issued ⟨.call call, path⟩ journal → ∃ answer result,
        .judged ⟨.call call, path⟩ answer result ∈ journal

section

variable {layout : Layout} {e : Engine} {v : Validator} {call : Nat} {value : Json}
  {answers : List Nat → Answer}

/-- Whether whatever a check of the call has come to is what the formula says of it. -/
def Check.Fits (v : Validator) (call : Nat) (value : Json) (answers : List Nat → Answer)
    (whole : Journal) (check : Check) : Prop :=
  ∀ path journal result, v.clauseAt? path = some check → journal <:+ whole →
    check.outcome? value ⟨.call call, path⟩ journal = some result →
      result.holds = check.truth answers path

/-- What a conjunction has come to is what the formula says if this is so of its clauses. -/
theorem Check.allTrue_of_decision (h : Sound layout e) {path : List Nat} {o : Opening}
    (opened : layout.opening? ⟨.call call, path⟩ = some o) (conjunction : o.combinator = .all)
    (above : v.deepList? path = some o.checks)
    (fits : ∀ check ∈ o.checks, check.Fits v call o.value answers e.journal) {journal : Journal}
    (behind : journal <:+ e.journal) {decision : Result}
    (decided : o.decision? ⟨.call call, path⟩ journal = some decision) :
    decision.holds = Check.allTrue answers path 0 o.checks := by
  have wf := h.wellFormed.opening opened
  have clause : ∀ {k : Nat} {check : Check} {result : Result}, o.checks[k]? = some check →
      check.outcome? o.value (Place.member ⟨.call call, path⟩ k) journal = some result →
        result.holds = check.truth answers (k :: path) := fun found outcome =>
    fits _ (List.mem_of_getElem? found) _ journal _
      (Validator.clauseAt?_cons.2 ⟨_, above, found⟩) behind outcome
  obtain ⟨rfl, passed⟩ | ⟨f, rfl, failed⟩ :=
    (wf.decision?_all conjunction (h.toPlaced.clearly.mono behind)).1 decided
  · refine (Check.allTrue_iff.2 fun k check found => ?_).symm
    rw [Nat.zero_add, ← clause found (Opening.forall_mem_parts.1 passed k check found)]
    rfl
  · obtain ⟨k, check, found, outcome⟩ := wf.mem_results.1 (mem_of_firstFailure? failed)
    have fails := clause found outcome
    refine (Bool.eq_false_iff.2 fun all => ?_).symm
    rw [← Nat.zero_add k, Check.allTrue_iff.1 all k check found] at fails
    cases fails

/-- A rule clause has come to what its answer says. -/
theorem Placed.holds_of_judged (h : Placed layout e)
    (root : layout (.call call) = some (.ofCall call v.checks value)) {path : List Nat}
    {definition : Nat} {name : String} {body : Body} {negated : Bool} {params : List Json}
    (found : v.clauseAt? path = some (.rule definition name body negated params)) {answer : Answer}
    {result : Result} (mem : .judged ⟨.call call, path⟩ answer result ∈ e.journal) :
    result.holds = answer.meets negated := by
  obtain ⟨-, question, onward, templates, handed, rfl⟩ := h.judged _ answer result mem
  obtain ⟨further, asked⟩ := Validator.handle?_of_clauseAt? root found
  cases handed.symm.trans asked
  rw [Question.holds_judge]

mutual

/-- The answer to a rule clause is that of its body. -/
theorem Body.answer_of_judged (h : Sound layout e) (relayed : Relayed layout e.journal)
    (root : layout (.call call) = some (.ofCall call v.checks value))
    (leaves : Leaves v call answers e.journal) : (body : Body) →
    ∀ path definition name negated params,
      v.clauseAt? path = some (.rule definition name body negated params) → ∀ answer result before,
        .judged ⟨.call call, path⟩ answer result :: before <:+ e.journal →
          answer = body.answer answers path
  | .test _ => fun path definition name negated params found answer result before behind =>
    leaves path definition name _ negated params found rfl answer result
      (behind.subset List.mem_cons_self)
  | .scripted _ => fun path definition name negated params found answer result before behind =>
    leaves path definition name _ negated params found rfl answer result
      (behind.subset List.mem_cons_self)
  | .validator age checks => by
    intro path definition name negated params found answer result before behind
    have inner := Check.allFit h relayed root leaves checks
    obtain ⟨o, relays, rfl, rfl⟩ := Validator.relays_of_clauseAt? root found
    obtain ⟨decision, decided, rfl, -⟩ := relayed.relayed _ o answer result before relays behind
    obtain ⟨-, -, -, -, -, -, conjunction, -⟩ := relays.member
    have above : v.deepList? path = some o.checks := Validator.deepList?_of_clauseAt? found
    rw [Body.answer]
    exact congrArg Except.ok (Check.allTrue_of_decision h relays.1 conjunction above inner
      ((List.suffix_cons _ _).trans behind) decided)

/-- What a check has come to is what the formula says of it. -/
theorem Check.fits (h : Sound layout e) (relayed : Relayed layout e.journal)
    (root : layout (.call call) = some (.ofCall call v.checks value))
    (leaves : Leaves v call answers e.journal) : (check : Check) →
    check.Fits v call value answers e.journal
  | .rule definition name body negated params => by
    intro path journal result found behind outcome
    obtain ⟨answer, mem⟩ := mem_of_judgement? outcome
    obtain ⟨before, noted⟩ := suffix_of_mem mem
    have answered := Body.answer_of_judged h relayed root leaves body path definition name negated
      params found answer result before (noted.trans behind)
    rw [Check.truth, ← answered]
    exact h.toPlaced.holds_of_judged root found (behind.subset mem)
  | .group members => by
    intro path journal result found behind outcome
    have list : v.deepList? path = some members := Validator.deepList?_of_clauseAt? found
    have inner := Check.allFit h relayed root leaves members
    obtain ⟨o, opened, rfl, rfl⟩ := Validator.opening?_of_deepList? root list
    have wf : Check.allWellFormed o.checks = true := h.wellFormed.opening opened
    rw [Check.truth, Bool.eq_iff_iff, Check.someTrue_iff]
    refine Check.holds_group (fun j m => m.truth answers ((0 + j) :: path)) wf ?_ outcome
    intro j m result here come
    rw [Nat.zero_add]
    exact inner m (List.mem_of_getElem? here) (j :: path) journal result
      (Validator.clauseAt?_cons.2 ⟨_, list, here⟩) behind come

theorem Check.allFit (h : Sound layout e) (relayed : Relayed layout e.journal)
    (root : layout (.call call) = some (.ofCall call v.checks value))
    (leaves : Leaves v call answers e.journal) : (checks : List Check) →
    ∀ check ∈ checks, check.Fits v call value answers e.journal
  | [] => by simp
  | first :: rest => List.forall_mem_cons.2
    ⟨Check.fits h relayed root leaves first, Check.allFit h relayed root leaves rest⟩

end

/-- A call whose leaves are settled has come to something, unless it has left clauses out. -/
theorem Validator.decided_of_leaves (h : Sound layout e) (relayed : Relayed layout e.journal)
    (root : layout (.call call) = some (.ofCall call v.checks value))
    (settled : LeavesSettled v call e.journal)
    (started : Check.AllStarted value (.ofCall call) e.journal 0 v.checks) :
    ∃ decision, (Opening.ofCall call v.checks value).decision? (.ofCall call) e.journal =
      some decision := by
  refine Option.ne_none_iff_exists'.1 fun undecided => ?_
  have found : layout.opening? (.ofCall call) = some (.ofCall call v.checks value) := root
  obtain ⟨path, definition, name, body, negated, params, clause, leaf, issued, unsettled, handle,
    handed, -⟩ := clause_of_waits root
      (h.waits_of_list found undecided started (Check.allWait h relayed v.checks))
  obtain ⟨answer, result, mem⟩ := settled path definition name body negated params clause leaf issued
  have judged := (h.settled _ handle handed).2 (judgement?_of_mem mem)
  simp [Engine.isSettled, judged] at unsettled

/-- **The verdict is the formula.** Once the rules of a call that are no validators have answered, the
call has come to a success just if the formula is true. -/
theorem Validator.overall_of_leaves (h : Sound layout e) (relayed : Relayed layout e.journal)
    (root : layout (.call call) = some (.ofCall call v.checks value)) {result : Result}
    {before : Journal} (returned : returned? call e.journal = some (result, before))
    (onward : before <:+ e.journal)
    (started : firstFailure? ((Opening.ofCall call v.checks value).results (.ofCall call) before) =
      none → Check.AllStarted value (.ofCall call) before 0 v.checks)
    (leaves : Leaves v call answers e.journal) (settled : LeavesSettled v call e.journal) :
    ∃ outcome : Result, overall? result (completions call e.journal) = some outcome ∧
      (outcome = .ok true ∨ ∃ f, outcome = .error f) ∧
      (outcome = .ok true ↔ v.truth answers = true) := by
  have found : layout.opening? ⟨.call call, []⟩ = some (.ofCall call v.checks value) := root
  have here : v.deepList? [] = some v.checks := rfl
  have wf := h.wellFormed.opening found
  obtain ⟨outcome, comes, decided⟩ := Validator.overall_of_decided h root returned fun clean =>
    Validator.decided_of_leaves h relayed root settled
      (Check.AllStarted.mono onward _ _ 0 v.checks (started clean))
  have clear := wf.clear_decision?_all rfl h.toPlaced.clearly decided
  have holds : outcome.holds = Check.allTrue answers [] 0 v.checks :=
    Check.allTrue_of_decision h found rfl here (Check.allFit h relayed root leaves v.checks)
      (List.suffix_refl _) decided
  refine ⟨outcome, comes, clear, ?_⟩
  rw [Validator.truth, ← holds]
  obtain rfl | ⟨f, rfl⟩ := clear <;> simp [Result.holds]

end

end Criteria
