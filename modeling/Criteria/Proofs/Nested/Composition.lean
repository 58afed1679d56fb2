import Criteria.Proofs.Nested.Formula
import Criteria.Proofs.Nested.Report

/-!
# Validators compose

A validator that serves as a rule answers for the clause by what its own list comes to, and the list
that the clause stands in sees nothing else of it: not its failures, and nothing of what happens in it
after the answer. The one who first makes it fail is told the failure of the outer clause if that fails
with it, and otherwise the failure inside.
-/

namespace Criteria
set_option autoImplicit false

variable {layout : Layout}

/-! ## Outside a clause that was settled -/

/-- The way from a place down to another leads through one of its members. -/
theorem Place.exists_member_encloses {x q : Place} (encloses : x.Encloses q) (other : x ≠ q) :
    ∃ k, (x.member k).Encloses q := by
  obtain ⟨root, before, path⟩ := encloses
  rcases before.eq_nil_or_concat with rfl | ⟨init, k, rfl⟩
  · refine absurd ?_ other
    obtain ⟨xr, xp⟩ := x
    obtain ⟨qr, qp⟩ := q
    exact Place.mk.injEq .. ▸ ⟨root, path⟩
  · exact ⟨k, root, init, by simpa [Place.member] using path⟩

/-- If the member on the way to a judgement is as before, then so are the clauses of every list above
it. -/
theorem Layout.parts_above {w q : Place} {i : Nat} {o : Opening} {answer : Answer} {result : Result}
    {journal : Journal} (found : layout.opening? w = some o) (below : (w.member i).Encloses q)
    (same : layout.outcome? (w.member i) (.judged q answer result :: journal) =
      layout.outcome? (w.member i) journal)
    {x : Place} {outer : Opening} (above : x.Encloses w) (opened : layout.opening? x = some outer) :
    ∀ part ∈ outer.parts x, part (.judged q answer result :: journal) = part journal := by
  have results := Layout.results_above found below same above opened
  have inside := above.trans (w.encloses_member i)
  have other : x ≠ w.member i := by
    rintro rfl
    exact Place.not_member_encloses w i above
  obtain ⟨k, way⟩ := Place.exists_member_encloses inside other
  have touches : (Event.judged q answer result).Touches (x.member k) := way.trans below
  refine Opening.parts_cons_of_member touches fun check here => ?_
  have clause := Opening.clause?_of_no_arrival touches results
  rwa [Opening.clause?, Opening.clause?, here] at clause

/-- What happens strictly inside a rule clause changes nothing in the lists that enclose it. -/
theorem Layout.parts_of_inside {p x : Place} {handle : Handle} {outer : Opening}
    (handed : layout.handle? p = some handle) (opened : layout.opening? x = some outer)
    (above : x.Encloses p) (other : x ≠ p) {news : Journal} (inside : ∀ event ∈ news, event.Inside p)
    (journal : Journal) : ∀ part ∈ outer.parts x, part (news ++ journal) = part journal := by
  induction news with
  | nil => exact fun _ _ => rfl
  | cons event news ih =>
    intro part mem
    rw [← ih (fun event mem => inside event (List.mem_cons_of_mem _ mem)) part mem]
    obtain ⟨w, i, o, rfl, found, asked⟩ := Layout.handle?_eq_some handed
    obtain ⟨_, _, _, _, _, rule, -⟩ := Opening.handle?_eq_some asked
    have here := inside event List.mem_cons_self
    cases event with
    | judged q answer result =>
      refine Layout.parts_above found here.1 ?_
        ((Place.encloses_member_iff.1 above).resolve_left other) opened part mem
      simp only [Layout.outcome?_member, found, rule, Option.bind_some, Check.outcome?]
      exact judgement?_cons_of_ne here.2
    | _ => exact Opening.parts_cons_of_untouched id part mem

/-! ## The first failure inside -/

section

variable {first o : Opening} {root : Root} {before last : Journal}

/-- A list that has nothing to tell leaves it at what was raised above. -/
theorem Combinator.tell_nothing (raised : Report) : Combinator.all.tell (.ok ()) raised = raised := by
  cases raised <;> rfl

/-- What is told of the clauses on a way through groups is told of the top-level clause. -/
theorem Opening.told_of_groups (conjunction : first.combinator = .all) :
    ∀ {way : List Nat}, way ≠ [] →
      (∀ k i path, k :: i :: path <:+ way → ∀ o, first.at? root (i :: path) = some o →
        o.combinator = .any) →
      first.told root before last way = toldOf (first.clause? ⟨root, []⟩ (way.getLastD 0) before)
        (first.clause? ⟨root, []⟩ (way.getLastD 0) last)
  | [], inside, _ => absurd rfl inside
  | [i], _, _ => by
    rw [told, told, toldAt, at?]
    dsimp only
    rw [if_pos conjunction]
    rfl
  | k :: i :: path, _, groups => by
    have further := told_of_groups conjunction (List.cons_ne_nil i path) fun k' i' path' behind =>
      groups k' i' path' (behind.trans (List.suffix_cons _ _))
    have nothing : first.toldAt root before last (i :: path) k = .ok () := by
      rw [toldAt]
      split
      · rfl
      next o here => rw [groups k i path (List.suffix_refl _) o here, if_neg (by simp)]
    rw [told, nothing, further, Combinator.tell_nothing]
    simp [List.getLastD]

/-- The clause on the way to what has happened is the one whose failure a conjunction newly has. -/
theorem Opening.clause?_of_first_failure {p : Place} {i : Nat} {news journal : Journal} {f : Failure}
    (only : ∀ event ∈ news, ∀ j, event.Touches (p.member j) → j = i)
    (clean : o.failure? p journal = none) (failed : o.failure? p (news ++ journal) = some f) :
    o.clause? p i journal = none ∧ o.clause? p i (news ++ journal) = some (.error f) := by
  have arrives : o.results p (news ++ journal) = _ := Opening.results_of_segment only
  have clean : firstFailure? (o.results p journal) = none := clean
  have failed : firstFailure? (o.results p (news ++ journal)) = some f := failed
  rw [arrives, firstFailure?_append, clean, Option.none_or] at failed
  split at failed
  next unknown =>
    refine ⟨Option.isNone_iff_eq_none.1 unknown, ?_⟩
    simpa using mem_of_firstFailure? failed
  · cases failed

end

namespace Validator

variable {v : Validator} {call : Nat} {value : Json}

/-- Below a group stands a disjunction. -/
theorem combinator_of_list? (root : layout (.call call) = some (.ofCall call v.checks value)) {k : Nat}
    {path : List Nat} {members : List Check} (found : v.list? (k :: path) = some members) {o : Opening}
    (opened : layout.opening? ⟨.call call, k :: path⟩ = some o) : o.combinator = .any := by
  obtain ⟨checks, above, group⟩ := list?_cons found
  obtain ⟨outer, here, member⟩ := Option.bind_eq_some_iff.1 opened
  have here : layout.opening? ⟨.call call, path⟩ = some outer := here
  obtain ⟨same, -⟩ := deepList?_of_opening? root here
  obtain rfl := Option.some.inj ((deepList?_of_list? above).symm.trans same)
  rw [Opening.member?, group] at member
  cases member
  rfl

/-- **The one who first makes a validator fail** that serves as a rule of a called validator, directly
or in groups of it, is told the failure of the top-level clause above if it newly fails, and otherwise
the failure of the validator. -/
theorem report_of_first_failure
    (root : layout (.call call) = some (.ofCall call v.checks value)) {w : List Nat} {k : Nat}
    {outer : List Check} {definition : Nat} {name : String} {age : Nat} {checks : List Check}
    {negated : Bool} {params : List Json} (above : v.list? w = some outer)
    (rule : outer[k]? = some (.rule definition name (.validator age checks) negated params))
    {q : Place} {answer : Answer} {result : Result} {before during : Journal} {report : Report}
    (inside : (Place.member ⟨.call call, w⟩ k).Encloses q) (other : Place.member ⟨.call call, w⟩ k ≠ q)
    (account : (Opening.ofCall call v.checks value).Recounted call q answer result before
      (.told q report :: during)) {g : Failure}
    (clean : Check.failure? value (Place.member ⟨.call call, w⟩ k) checks before = none)
    (failed : Check.failure? value (Place.member ⟨.call call, w⟩ k) checks during = some g) :
    report = match toldOf
        (v.outcome? call value (Place.member ⟨.call call, w⟩ k).first before)
        (v.outcome? call value (Place.member ⟨.call call, w⟩ k).first during) with
      | .error f => .error f
      | .ok () => .error g := by
  obtain ⟨report', noted, whole, told, rises, -⟩ := account
  obtain ⟨same, rfl⟩ := List.cons.inj whole
  obtain ⟨-, rfl⟩ := Event.told.inj same
  obtain ⟨i, way⟩ := Place.exists_member_encloses inside other
  obtain ⟨o, relays, rfl, rfl⟩ := relays_of_clauseAt? root
    (clauseAt?_cons.2 ⟨outer, deepList?_of_list? above, rule⟩)
  obtain ⟨-, -, -, -, -, -, conjunction, -⟩ := relays.member
  -- Whatever has happened is on the way to the settled handle, so it concerns one clause in here.
  have only : ∀ event ∈ noted ++ [.judged q answer result], ∀ j,
      event.Touches ((Place.member ⟨.call call, w⟩ k).member j) → j = i := by
    intro event mem j touches
    rcases List.mem_append.1 mem with mem | mem
    · exact (rises event mem).member_unique touches way
    · rw [List.mem_singleton.1 mem] at touches
      exact Place.member_unique touches way
  rw [List.append_cons] at failed told ⊢
  obtain ⟨pending, fails⟩ := Opening.clause?_of_first_failure only clean failed
  have here : (Opening.ofCall call v.checks o.value).at? (.call call) (k :: w) = some o :=
    (Layout.below_eq_at? root _).symm.trans relays.1
  have inner : (Opening.ofCall call v.checks o.value).toldAt (.call call) before
      (noted ++ [.judged q answer result] ++ before) (k :: w) i = .error g := by
    rw [Opening.toldAt_new here pending fails, conjunction]
    rfl
  have outermost : (Opening.ofCall call v.checks o.value).told (.call call) before
      (noted ++ [.judged q answer result] ++ before) (k :: w) =
        toldOf (v.outcome? call o.value (Place.member ⟨.call call, w⟩ k).first before)
          (v.outcome? call o.value (Place.member ⟨.call call, w⟩ k).first
            (noted ++ [.judged q answer result] ++ before)) := by
    refine Opening.told_of_groups rfl (List.cons_ne_nil k w) fun k' i' path' behind o' opened => ?_
    have ends : i' :: path' <:+ w := by
      rcases List.suffix_cons_iff.1 behind with equal | inside
      · exact (List.cons.inj equal).2 ▸ List.suffix_refl _
      · exact (List.suffix_cons _ _).trans inside
    obtain ⟨members, list⟩ := list?_of_suffix ends above
    exact combinator_of_list? root list ((Layout.below_eq_at? root _).trans opened)
  have raised : (Opening.ofCall call v.checks o.value).told (.call call) before
      (noted ++ [.judged q answer result] ++ before) (i :: k :: w) =
        Combinator.all.tell (.error g)
          (toldOf (v.outcome? call o.value (Place.member ⟨.call call, w⟩ k).first before)
            (v.outcome? call o.value (Place.member ⟨.call call, w⟩ k).first
              (noted ++ [.judged q answer result] ++ before))) := by
    rw [Opening.told, inner, outermost]
  rw [told]
  cases outcome : toldOf (v.outcome? call o.value (Place.member ⟨.call call, w⟩ k).first before)
      (v.outcome? call o.value (Place.member ⟨.call call, w⟩ k).first
        (noted ++ [.judged q answer result] ++ before)) <;>
    rw [outcome] at raised <;> exact Opening.told_of_error raised way.2

/-- A settlement inside a rule clause that is settled already changes nothing outside the clause, if
the clause is not settled again. -/
theorem later_inside {e : Engine} (root : layout (.call call) = some (.ofCall call v.checks value))
    (chronicle : Chronicle ((Opening.ofCall call v.checks value).Recounted call) call [] e.journal)
    {path : List Nat} {definition : Nat} {name : String} {body : Body} {negated : Bool}
    {params : List Json}
    (found : v.clauseAt? path = some (.rule definition name body negated params)) {q : Place}
    {answer : Answer} {result : Result} {before : Journal}
    (inside : Place.Encloses ⟨.call call, path⟩ q) (other : ⟨.call call, path⟩ ≠ q)
    (behind : .judged q answer result :: before <:+ e.journal)
    (settled : (judgement? ⟨.call call, path⟩ before).isSome = true)
    (unrepeated : .repeated ⟨.call call, path⟩ ∉ e.journal) :
    ∃ report during, .told q report :: (during ++ .judged q answer result :: before) <:+ e.journal ∧
      (∀ event ∈ during, event.Inside ⟨.call call, path⟩) ∧
      ∀ w outer, v.deepList? w = some outer → w <:+ path → w ≠ path →
        ∀ part ∈ Check.outcomes value ⟨.call call, w⟩ 0 outer,
          part (.told q report :: (during ++ .judged q answer result :: before)) = part before := by
  obtain ⟨-, -, -, within, report, during, rfl, -, -, shields⟩ :=
    chronicle.judged q answer result before inside.1.symm behind List.nil_suffix
  have below : ∀ event ∈ during, event.Inside ⟨.call call, path⟩ := by
    intro event mem
    refine shields _ inside other settled event mem ?_
    rintro rfl
    exact unrepeated (within.subset (List.mem_cons_of_mem _ (List.mem_append_left _ mem)))
  refine ⟨report, during, within, below, fun w outer list above strict => ?_⟩
  obtain ⟨onward, handed⟩ := handle?_of_clauseAt? root found
  obtain ⟨o, opened, rfl, rfl⟩ := opening?_of_deepList? root list
  have news : ∀ event ∈ .told q report :: (during ++ [.judged q answer result]),
      event.Inside ⟨.call call, path⟩ := by
    intro event mem
    simp only [List.mem_cons, List.mem_append, List.not_mem_nil, or_false] at mem
    obtain rfl | mem | rfl := mem
    · exact ⟨inside, other.symm⟩
    · exact below event mem
    · exact ⟨inside, other.symm⟩
  have encloses : Place.Encloses ⟨.call call, w⟩ ⟨.call call, path⟩ := ⟨rfl, above⟩
  have apart : (⟨.call call, w⟩ : Place) ≠ ⟨.call call, path⟩ := fun same =>
    strict (congrArg Place.path same)
  have unchanged := Layout.parts_of_inside handed opened encloses apart news before
  rwa [List.cons_append, List.append_assoc] at unchanged

end Validator

/-- **Validators compose.** In every run, for every call of a validator and every rule clause in it, at
any depth, for which a validator answers: the list of the validator settles the clause once and never
again, whether it has clauses or not and is decided in the call or later, with yes when all its clauses
have passed and with no when one has failed first, for which a rejection counts too. A failure of the
clause is its own leaf, in the words of its own definition, and carries no cause. Once the clause is
settled, what is still settled inside changes nothing outside. If the clause stands in the called
validator itself or in groups of it, whoever makes the inner validator fail is told the failure of the
top-level clause above if it fails with it, and otherwise the inner failure; this is what settling gives
back. And once the rules that are no validators have answered, the call has come to a success just if
the formula holds in which each validator stands for the conjunction of its clauses. -/
theorem validators_compose {earlier later : List Move} (valid : ∀ m ∈ earlier ++ later, m.Valid)
    {v : Validator} (built : v.Built) (value : Json) :
    let e := Engine.empty.run earlier
    let call := e.calls.size
    let now := (e.call v value).2.run later
    (∀ path definition name age checks negated params,
      v.clauseAt? path = some (.rule definition name (.validator age checks) negated params) →
      let p : Place := ⟨.call call, path⟩
      AnsweredByList value p checks now.journal ∧
      (∀ i cause result, .judged (p.member i) (.error cause) result ∈ now.journal →
        ∃ judgement, .judged p (.ok false) judgement ∈ now.journal) ∧
      (∀ answer result before, .judged p answer result :: before <:+ now.journal → ∃ state,
        Engine.empty.Noted (earlier ++ .call v value :: later) (.judged p answer result) before state ∧
        (answer = .ok !negated → result = .ok true) ∧
        (answer = .ok negated → ∃ f, result = .error f ∧
          f = Question.failure ⟨definition, name, negated, params, value⟩
            (state.templatesOf definition) ∧
          f.rule = some name ∧ f.negated = negated ∧ f.params = params ∧ f.value = value ∧
          f.nested = [] ∧ f.cause = none)) ∧
      ∀ q answer result before, p.Encloses q → p ≠ q →
        .judged q answer result :: before <:+ now.journal → (judgement? p before).isSome = true →
        ∃ report during, .told q report :: (during ++ .judged q answer result :: before) <:+
            now.journal ∧
          (∀ event ∈ during, event.Inside p) ∧
          ∀ w outer, v.deepList? w = some outer → w <:+ path → w ≠ path →
            ∀ part ∈ Check.outcomes value ⟨.call call, w⟩ 0 outer,
              part (.told q report :: (during ++ .judged q answer result :: before)) = part before) ∧
    (∀ w outer k definition name age checks negated params, v.list? w = some outer →
      outer[k]? = some (.rule definition name (.validator age checks) negated params) →
      let p := Place.member ⟨.call call, w⟩ k
      ∀ q answer result before report during g, p.Encloses q → p ≠ q →
        .judged q answer result :: before <:+ now.journal → .told q report :: during <:+ now.journal →
        Check.failure? value p checks before = none →
        Check.failure? value p checks during = some g →
        (∀ f, v.outcome? call value p.first before = none →
          v.outcome? call value p.first during = some (.error f) → report = .error f) ∧
        ((∀ f, ¬ (v.outcome? call value p.first before = none ∧
          v.outcome? call value p.first during = some (.error f))) → report = .error g)) ∧
    (∀ (state : Engine) p question onward answer, state.isSettled p = false →
      ∃ during, (Engine.settle (.asked p question onward) answer state).2.journal =
        .told p (Engine.settle (.asked p question onward) answer state).1 :: (during ++
          .judged p answer (question.judge (state.templatesOf question.definition) answer) ::
            state.journal)) ∧
    ∀ answers, Leaves v call answers now.journal → LeavesSettled v call now.journal →
      ∃ outcome, overall? (e.call v value).1 (completions call now.journal) = some outcome ∧
        (outcome = .ok true ∨ ∃ f, outcome = .error f) ∧
        (outcome = .ok true ↔ v.truth answers = true) := by
  intro e call now
  obtain ⟨layout, before, whole, course, root, -, onward, returned, -, started⟩ :=
    run_call_course valid built value (rfl : _ = e)
  have trace := course.trace
  have judged := course.judged
  rw [whole] at trace judged
  have sound := Trace.sound trace sound_empty
  have relayed : Relayed layout now.journal := Trace.relayed trace
  have prompt : Prompt layout now.journal := Trace.prompt trace
  have chronicle := (Trace.chronicle trace).2 call _ root _ (accounts_recounted _ call)
  refine ⟨?_, ?_, fun state p question onward answer unsettled =>
    settle_of_unsettled question onward answer unsettled, fun answers leaves settled =>
      Validator.overall_of_leaves sound relayed root returned onward started leaves settled⟩
  · intro path definition name age checks negated params found p
    obtain ⟨o, relays, rfl, rfl⟩ := Validator.relays_of_clauseAt? root found
    have answered := sound.answered_by_list relayed prompt relays
    refine ⟨answered, fun i cause result mem => ?_, ?_,
      fun q answer result before inside other behind settled =>
        Validator.later_inside root chronicle found inside other behind settled
          answered.unrepeated⟩
    · exact answered.failed.2 (sound.failure?_of_rejected relayed relays mem)
    · intro answer result before behind
      obtain ⟨question, further, state, handed, noted, rfl⟩ :=
        judged p answer result before behind List.nil_suffix
      obtain ⟨onward, asked⟩ := Validator.handle?_of_clauseAt? root found
      cases handed.symm.trans asked
      refine ⟨state, noted, ?_, ?_⟩
      · rintro rfl
        cases negated <;> rfl
      · rintro rfl
        refine ⟨_, if_pos rfl, rfl, rfl, rfl, rfl, rfl, rfl, rfl⟩
  · intro w outer k definition name age checks negated params above rule p q answer result before
      report during g inside other behind told clean failed
    have account := chronicle.account_unique inside.1.symm behind told
    have reported := Validator.report_of_first_failure root above rule inside other account clean
      failed
    refine ⟨fun f pending fails => ?_, fun stays => ?_⟩
    · have pending : v.outcome? call value (Place.member ⟨.call call, w⟩ k).first before = none :=
        pending
      rw [reported, toldOf_eq_error.2 ⟨pending, fails⟩]
    · rw [reported]
      cases outcome : toldOf (v.outcome? call value (Place.member ⟨.call call, w⟩ k).first before)
          (v.outcome? call value (Place.member ⟨.call call, w⟩ k).first during) with
      | error f => exact absurd (toldOf_eq_error.1 outcome) (stays f)
      | ok => rfl

/-! ## A negated validator that fails -/

/-- A validator of two clauses, both of which wait. -/
def Validator.pair : Validator :=
  ⟨1, [.rule 0 "waiting" .waiting false [], .rule 0 "waiting" .waiting false []]⟩

/-- A validator for the values that the other one refuses. -/
def Validator.opposed : Validator := ⟨2, [.rule 1 "pair" Validator.pair.body true []]⟩

theorem Validator.built_opposed : Validator.opposed.Built := by
  have rules : ∀ d ∈ Registry.waiting.entries, d.body.Built := by
    intro d mem
    obtain rfl : d = ⟨0, "waiting", .waiting⟩ := List.mem_singleton.1 mem
    exact .scripted _
  have built : Validator.build 1 .waiting [.rule "waiting" false [], .rule "waiting" false []] =
    .ok .pair := rfl
  refine ⟨2, Registry.empty.insert ⟨1, "pair", Validator.pair.body⟩, [.rule "pair" true []], ?_, rfl⟩
  intro d mem
  obtain rfl : d = ⟨1, "pair", Validator.pair.body⟩ := List.mem_singleton.1 mem
  exact .validator rules built

/-- Both clauses of the inner validator fail, one after the other. -/
def Move.refusals : List Move := [.settle 0 (.ok false), .settle 1 (.ok false)]

/-- The engine after this. -/
def Engine.opposed : Engine := (Engine.empty.call .opposed .null).2.run Move.refusals

/-- Whether an event says no, if it judges an answer. -/
def Event.refuses : Event → Bool
  | .judged _ (.ok holds) _ => !holds
  | .judged _ (.error _) _ => false
  | _ => true

/-- The one who makes the inner validator fail is told its failure, and the outer clause passes. -/
theorem validators_compose_opposed :
    .told ⟨.call 0, [0, 0]⟩ (.error (Question.failure ⟨0, "waiting", false, [], .null⟩ ⟨none, none⟩)) ∈
        Engine.opposed.journal ∧
      overall? (Engine.empty.call .opposed .null).1 (completions 0 Engine.opposed.journal) =
        some (.ok true) := by
  have valid : ∀ m ∈ [] ++ Move.refusals, m.Valid := by simp [Move.refusals, Move.Valid]
  obtain ⟨-, reports, -, verdict⟩ := validators_compose valid Validator.built_opposed .null
  refine ⟨?_, ?_⟩
  · have judged : .judged ⟨.call 0, [0, 0]⟩ (.ok false)
        (.error (Question.failure ⟨0, "waiting", false, [], .null⟩ ⟨none, none⟩)) ::
          Engine.opposed.journal.drop 7 <:+ Engine.opposed.journal :=
      ⟨Engine.opposed.journal.take 6, rfl⟩
    obtain ⟨report, told⟩ : ∃ report, .told ⟨.call 0, [0, 0]⟩ report ::
        Engine.opposed.journal.drop 3 <:+ Engine.opposed.journal :=
      ⟨_, Engine.opposed.journal.take 2, rfl⟩
    have inside : Place.Encloses (Place.member ⟨.call 0, []⟩ 0) ⟨.call 0, [0, 0]⟩ := by decide
    have apart : (Place.member ⟨.call 0, []⟩ 0) ≠ ⟨.call 0, [0, 0]⟩ := by decide
    obtain ⟨-, otherwise⟩ := reports [] _ 0 _ _ _ _ _ _ rfl rfl _ _ _ _ report _ _ inside apart
      judged told rfl rfl
    have stays := otherwise fun f fails => by
      cases show some (.ok true : Result) = some (.error f) from fails.2
    rw [stays] at told
    exact told.subset List.mem_cons_self
  · have leaves : Leaves .opposed 0 (fun _ => .ok false) Engine.opposed.journal := by
      intro path _ _ _ _ _ _ _ answer result mem
      have refuses := List.all_eq_true.1
        (rfl : Engine.opposed.journal.all Event.refuses = true) _ mem
      cases answer with
      | ok holds =>
        cases holds with
        | false => rfl
        | true => cases refuses
      | error cause => cases refuses
    have settled : LeavesSettled .opposed 0 Engine.opposed.journal := by
      rintro path _ _ _ _ _ _ _ ⟨rule, scripted, value, params, mem⟩
      have some_judged := List.all_eq_true.1
        (rfl : Journal.isSettled Engine.opposed.journal = true) _ mem
      obtain ⟨event, there, judges⟩ := List.any_eq_true.1 some_judged
      cases event with
      | judged q answer result =>
        obtain rfl : q = _ := eq_of_beq judges
        exact ⟨answer, result, there⟩
      | _ => cases judges
    obtain ⟨outcome, comes, -, holds⟩ := verdict _ leaves settled
    rw [holds.2 rfl] at comes
    exact comes

end Criteria
