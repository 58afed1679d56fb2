import Criteria.Proofs.Error.Mirrored
import Criteria.Proofs.Order.Invoked

/-!
# Alternatives that answer at once

Alternatives are started in declared order, and starting one that answers at once brings it to a result
before the next one is started (`start_orderly`). This needs no more than that evaluation invokes a body
only after the alternatives before it were started, so nothing that bodies do to handles matters.
-/

namespace Criteria
set_option autoImplicit false

variable {layout later : Layout} {active : Option Root} {e e' : Engine}

/-! ## What is noted between invocations -/

/-- What is noted while nothing is invoked is no invocation. -/
theorem Passive.uninvoked (passive : Passive e e') {event : Event} {before : Journal}
    (behind : event :: before <:+ e'.journal) (ahead : e.journal <:+ before) :
    event.invocation? = none := by
  obtain ⟨front, starts⟩ := behind
  obtain ⟨middle, rfl⟩ := ahead
  rw [Passive, ← starts, invocations_append, invocations_cons, invocations_append] at passive
  have same := congrArg List.length passive
  simp only [List.length_append] at same
  rw [← Option.toList_eq_nil_iff]
  exact List.eq_nil_of_length_eq_zero (by omega)

namespace Layout

theorem Prepared.mono {x : Place} {earlier journal : Journal} (prepared : layout.Prepared x earlier)
    (sub : earlier <:+ journal) : layout.Prepared x journal := by
  intro w o i j check found any less inside here instant
  exact (Check.lasting_outcome o.value (w.member i) check).isSome_mono sub
    (prepared w o i j check found any less inside here instant)

/-- A member of a list is prepared if the list is and, among alternatives, those before it. -/
theorem Prepared.member {p : Place} {journal : Journal} (prepared : layout.Prepared p journal)
    {o : Opening} (found : layout.opening? p = some o) {k : Nat}
    (before : o.combinator = .any → ∀ i check, i < k → o.checks[i]? = some check →
      check.Instant o.value (p.member i) →
        (check.outcome? o.value (p.member i) journal).isSome = true) :
    layout.Prepared (p.member k) journal := by
  intro w own i j check opened any less inside here instant
  rcases Place.encloses_member_iff.1 inside with same | above
  · obtain ⟨rfl, rfl⟩ := Place.member_inj.1 same
    obtain rfl := Option.some.inj (found.symm.trans opened)
    exact before any i check less here instant
  · exact prepared w own i j check opened any less above here instant

/-- As long as nothing is invoked, order is kept. -/
theorem Orderly.passive (orderly : layout.Orderly e.journal) (passive : Passive e e')
    (sub : e.journal <:+ e'.journal) : layout.Orderly e'.journal := by
  intro x rule scripted value params before behind
  rcases suffix_cases behind sub with ahead | inside
  · cases passive.uninvoked behind ahead
  · exact orderly x rule scripted value params before inside

/-- A body may be invoked where all is prepared. -/
theorem Orderly.invoke (orderly : layout.Orderly e.journal) {p : Place}
    (prepared : layout.Prepared p e.journal) (rule : String) (scripted : Bool) (value : Json)
    (params : List Json) :
    layout.Orderly (e.note (.invoked p rule scripted value params)).journal := by
  intro x rule' scripted' value' params' before behind
  rcases List.suffix_cons_iff.1 behind with same | inside
  · cases same
    exact prepared
  · exact orderly x rule' scripted' value' params' before inside

end Layout

/-! ## Evaluation -/

/-- Evaluation keeps that validators answer for rules just as their lists are decided. -/
theorem Runs.relayed {region : Place → Prop} (runs : Runs layout active region e e')
    (h : Sound layout e) (relayed : Relayed layout e.journal) : Relayed layout e'.journal := by
  obtain ⟨steps, -⟩ := runs
  have kept : Sound layout e' ∧ Relayed layout e'.journal := by
    induction steps with
    | refl => exact ⟨h, relayed⟩
    | tail _ step ih => exact ⟨step.sound ih.1, step.relayed ih.1 ih.2⟩
  exact kept.2

/-- A conjunction is decided once it is rejected or all its clauses have come to something. -/
theorem Sound.decided_of_instant (h : Sound layout e) {p : Place} {o : Opening}
    (found : layout.opening? p = some o) (conjunction : o.combinator = .all) (opened : e.Opened p)
    (instant : Check.AllInstant o.value p 0 o.checks)
    (come : e.isRejected p = true ∨ ∀ i (check : Check), o.checks[i]? = some check →
      check.Instant o.value (p.member i) →
        (check.outcome? o.value (p.member i) e.journal).isSome = true) :
    (o.decision? p e.journal).isSome = true := by
  rcases come with rejected | come
  · rw [h.isRejected_all found conjunction opened] at rejected
    obtain ⟨f, failed⟩ := Option.isSome_iff_exists.1 rejected
    rw [Opening.decision?, conjunction, Combinator.decision?_all_of_failure failed]
    rfl
  · refine (h.wellFormed.opening found).decided_of_full (Opening.forall_mem_parts.2 ?_)
    exact fun i check here => come i check here (instant.check here)

mutual

/-- Evaluating a body starts alternatives in order. -/
theorem evaluate_orderly (rule : String) (params : List Json) : (body : Body) →
    ∀ (e : Engine) (value : Json) (p : Place) (handle : Handle), Sound layout e →
      Relayed layout e.journal → layout.Orderly e.journal → layout.Prepared p e.journal →
      Invited layout active e body value p handle →
      layout.Orderly (Engine.evaluate rule value params p handle body e).2.journal ∧
        ∀ age checks, body = .validator age checks → checks ≠ [] → Check.AllInstant value p 0 checks →
          (Opening.decision? ⟨.all, checks, value, handle.route⟩ p
            (Engine.evaluate rule value params p handle body e).2.journal).isSome = true
  | .test holds => by
    intro e value p handle _ _ orderly prepared _
    rw [Engine.evaluate]
    exact ⟨orderly.invoke prepared rule false value params, fun _ _ impossible => by cases impossible⟩
  | .scripted plan => by
    intro e value p handle h _ orderly prepared invited
    have invoked := orderly.invoke prepared rule true value params
    rw [Engine.evaluate]
    exact ⟨invoked.passive (performAll_passive rule handle _ _)
      (invited.acts h rule params).grows.journal.suffix, fun _ _ impossible => by cases impossible⟩
  | .validator age checks => by
    intro e value p handle h relayed orderly prepared invited
    have invoked := orderly.invoke prepared rule false value params
    rw [Engine.evaluate]
    by_cases empty : checks = []
    · subst empty
      refine ⟨invoked.passive (deliver_passive handle.route (.ok true) _)
        (deliver_rests handle.route (.ok true) _).journal.suffix, ?_⟩
      intro _ _ same inhabited
      cases same
      exact absurd rfl inhabited
    · obtain ⟨found, opens, sound, opened, fresh⟩ := invited.opens h empty rule params
      rw [runList_of_inhabited _ (by simpa using empty)]
      have sub := opens.grows.journal.suffix
      have laid : ∀ j check, checks[j]? = some check → checks[0 + j]? = some check :=
        fun j check here => by rwa [Nat.zero_add]
      have started := (startAll_runs checks (k := 0) found laid invited.mine sound opened
        fun j _ => fresh j).1
      obtain ⟨ordered, come⟩ := startAll_orderly checks (k := 0) found laid invited.mine sound
        (opens.relayed h relayed) invoked (prepared.mono sub)
        (fun impossible => by cases impossible) opened fun j _ => fresh j
      refine ⟨ordered, fun _ _ same _ instant => ?_⟩
      cases same
      refine (started.sound sound).decided_of_instant found rfl (started.grows.opened p opened)
        instant (come.imp_right fun come i check here => ?_)
      have outcome := come i check here
      rwa [Nat.zero_add] at outcome

/-- **Starting a check** starts alternatives in order, and brings it to a result if it answers at once. -/
theorem start_orderly : (check : Check) → ∀ ⦃e : Engine⦄ ⦃p : Place⦄ ⦃i : Nat⦄ ⦃o : Opening⦄,
      layout.opening? p = some o → o.checks[i]? = some check → active = some p.root →
      Sound layout e → Relayed layout e.journal → layout.Orderly e.journal →
      layout.Prepared (p.member i) e.journal → e.Opened p → e.Fresh (p.member i) →
      layout.Orderly (Engine.start o.value (p.member i) (o.route p) check e).journal ∧
        (check.Instant o.value (p.member i) → (check.outcome? o.value (p.member i)
          (Engine.start o.value (p.member i) (o.route p) check e).journal).isSome = true)
  | .rule definition name body negated params => by
    intro e p i o found here mine h relayed orderly prepared opened fresh
    have invited := invited_member mine found here opened fresh
    obtain ⟨evaluated, issued, -, answered⟩ :=
      evaluate_runs name params body e o.value (p.member i) _ h invited
    obtain ⟨ordered, decided⟩ := evaluate_orderly name params body e o.value (p.member i) _ h relayed
      orderly prepared invited
    have owns := invited.owns _ issued evaluated.grows.journal.suffix
    rw [Engine.start_rule]
    refine ⟨ordered.passive (heed_passive _ _) (heed_rests _ _).journal.suffix, fun instant => ?_⟩
    cases body with
    | test holds => exact (evaluated.sound h).judged_answer owns _
    | scripted plan =>
      obtain ⟨holds, now⟩ := instant
      have answers := (evaluated.sound h).judged_answer owns (.ok holds)
      rw [Engine.evaluate] at answers ⊢
      rw [now]
      exact answers
    | validator age checks =>
      have laid := invited.opening age checks rfl
      by_cases empty : checks = []
      · subst empty
        exact answered age _ _ _ rfl rfl
      · exact (evaluated.relayed h relayed).settles (p.member i) _ ⟨laid, _, owns.1⟩ empty
          (decided age checks rfl empty instant)
  | .group members => by
    intro e p i o found here mine h relayed orderly prepared opened fresh
    obtain ⟨member, inhabited, opens⟩ := openGroup_runs mine found here h opened fresh
    have sound := opens.sound h
    have laid : ∀ j check, members[j]? = some check → members[0 + j]? = some check :=
      fun j check here => by rwa [Nat.zero_add]
    have fresh := fun j (_ : 0 ≤ j) => (fresh.member j).grows opens.grows
    have here : (e.putList (p.member i) (.start .any members.length)).Opened (p.member i) :=
      Engine.opened_putList.2 (.inl rfl)
    have started := (startAll_runs members (k := 0) member laid mine sound here fresh).1
    obtain ⟨ordered, come⟩ := startAll_orderly members (k := 0) member laid mine sound relayed orderly
      prepared (fun _ i check impossible => absurd impossible (Nat.not_lt_zero i)) here fresh
    rw [Engine.start, runList_of_inhabited _ (by simpa using inhabited)]
    refine ⟨ordered, fun instant => ?_⟩
    have come := come.resolve_left (by
      rw [(started.sound sound).isRejected_any member rfl]
      exact Bool.false_ne_true)
    have wf := h.wellFormed.opening member
    rw [wf.outcome?_group]
    refine wf.decided_of_full (Opening.forall_mem_parts.2 fun j check here => ?_)
    have outcome := come j check here
    rw [Nat.zero_add] at outcome
    exact outcome (instant.check here)

/-- Starting the checks of a list from a position on. -/
theorem startAll_orderly : (checks : List Check) →
    ∀ ⦃e : Engine⦄ ⦃p : Place⦄ ⦃k : Nat⦄ ⦃o : Opening⦄, layout.opening? p = some o →
      (∀ j check, checks[j]? = some check → o.checks[k + j]? = some check) → active = some p.root →
      Sound layout e → Relayed layout e.journal → layout.Orderly e.journal →
      layout.Prepared p e.journal →
      (o.combinator = .any → ∀ i check, i < k → o.checks[i]? = some check →
        check.Instant o.value (p.member i) → (check.outcome? o.value (p.member i) e.journal).isSome = true) →
      e.Opened p → (∀ j, k ≤ j → e.Fresh (p.member j)) →
      layout.Orderly (Engine.startAll o.value p k checks (o.route p) e).journal ∧
        ((Engine.startAll o.value p k checks (o.route p) e).isRejected p = true ∨
          ∀ j (check : Check), checks[j]? = some check → check.Instant o.value (p.member (k + j)) →
            (check.outcome? o.value (p.member (k + j))
              (Engine.startAll o.value p k checks (o.route p) e).journal).isSome = true)
  | [] => by
    intro e p k o _ _ _ _ _ orderly _ _ _ _
    rw [Engine.startAll]
    exact ⟨orderly, .inr fun _ _ impossible => by cases impossible⟩
  | check :: rest => by
    intro e p k o found laid mine h relayed orderly prepared before opened fresh
    rw [Engine.startAll]
    split
    next rejected => exact ⟨orderly, .inl rejected⟩
    · have here : o.checks[k]? = some check := laid 0 check rfl
      have free := fresh k (Nat.le_refl k)
      obtain ⟨first, -⟩ := start_runs check found here mine h opened free
      obtain ⟨ordered, come⟩ := start_orderly check found here mine h relayed orderly
        (prepared.member found before) opened free
      have sub := first.grows.journal.suffix
      have sound := first.sound h
      have opened := first.grows.opened p opened
      have shift : ∀ j, k + (j + 1) = k + 1 + j := fun j => by omega
      have laid : ∀ j c, rest[j]? = some c → o.checks[k + 1 + j]? = some c := fun j c at_j =>
        shift j ▸ laid (j + 1) c at_j
      have fresh : ∀ j, k + 1 ≤ j →
          (Engine.start o.value (p.member k) (o.route p) check e).Fresh (p.member j) := by
        intro j above x inside known
        rcases first.grows.known x known with before | within
        · exact fresh j (by omega) x inside before
        · have := Place.member_unique within inside
          omega
      have more := (startAll_runs rest (k := k + 1) found laid mine sound opened fresh).1
      obtain ⟨ordered, comes⟩ := startAll_orderly rest (k := k + 1) found laid mine sound
        (first.relayed h relayed) ordered (prepared.mono sub)
        (fun any i c less at_i instant => by
          rcases Nat.lt_succ_iff_lt_or_eq.1 less with less | rfl
          · exact (Check.lasting_outcome o.value (p.member i) c).isSome_mono sub
              (before any i c less at_i instant)
          · obtain rfl := Option.some.inj (here.symm.trans at_i)
            exact come instant)
        opened fresh
      refine ⟨ordered, comes.imp_right fun comes j c at_j => ?_⟩
      cases j with
      | zero =>
        intro instant
        obtain rfl : check = c := by simpa using at_j
        exact (Check.lasting_outcome o.value (p.member k) check).isSome_mono
          more.grows.journal.suffix (come instant)
      | succ j =>
        rw [shift]
        exact comes j c at_j

end

end Criteria
