import Criteria.Proofs.Error.Decision
import Criteria.Proofs.Snapshot.Capture

/-!
# Failures that mirror checks

`Check.Mirrored` says of a failure that it is the clause tree of a check again: a leaf for a rule clause,
as the first answer to it was judged, and for a group a node over the failures of all its members, in the
order in which they were decided. Such a tree has an aggregate just where it has no rule, and it counts
the clauses of the check (`Check.Mirrored.shape`). Every failure that a check comes to mirrors it
(`Placed.mirrored`), provided that whoever is judged was invoked before and that alternatives are decided
in declared order as long as they answer at once.
-/

namespace Criteria
set_option autoImplicit false

/-! ## Rules that answer at once -/

mutual

/-- Whether a body answers at once at a place, also if a validator has to be asked for that. -/
def Body.Instant (value : Json) (params : List Json) (p : Place) : Body → Prop
  | .test _ => True
  | .scripted plan => ∃ holds, (plan p value params).reply = .now holds
  | .validator _ checks => Check.AllInstant value p 0 checks

/-- Whether all rule clauses of the check at a place answer at once. -/
def Check.Instant (value : Json) (p : Place) : Check → Prop
  | .rule _ _ body _ params => body.Instant value params p
  | .group members => Check.AllInstant value p 0 members

/-- Whether all rule clauses of the checks at a place, the first at `position`, answer at once. -/
def Check.AllInstant (value : Json) (p : Place) (position : Nat) : List Check → Prop
  | [] => True
  | check :: rest =>
    check.Instant value (p.member position) ∧ Check.AllInstant value p (position + 1) rest

end

theorem Check.AllInstant.at_position {value : Json} {p : Place} {checks : List Check} :
    ∀ {position i : Nat} {check : Check}, Check.AllInstant value p position checks →
      checks[i]? = some check → check.Instant value (p.member (position + i)) := by
  induction checks with
  | nil => exact fun _ impossible => by cases impossible
  | cons first rest ih =>
    intro position i check instant here
    cases i with
    | zero =>
      obtain rfl : first = check := by simpa using here
      exact instant.1
    | succ i =>
      have later := ih (i := i) instant.2 (by simpa using here)
      rwa [Nat.add_assoc, Nat.add_comm 1 i] at later

/-- Each check of a list that answers at once answers at once. -/
theorem Check.AllInstant.check {value : Json} {p : Place} {checks : List Check}
    (instant : Check.AllInstant value p 0 checks) {i : Nat} {check : Check}
    (here : checks[i]? = some check) : check.Instant value (p.member i) :=
  Nat.zero_add i ▸ instant.at_position here

/-! ## Trees of failures -/

/-- A list of positions is the order in which the members of a group were decided: each member was
decided before those that follow. This is the declared order if all members answer at once. -/
structure DecisionOrder (value : Json) (place : Place) (journal : Journal) (members : List Check)
    (order : List Nat) : Prop where
  all : order.Perm (List.range members.length)
  decided : order.Pairwise (DecidedBefore (Check.outcomes value place 0 members) journal)
  declared : Check.AllInstant value place 0 members → order = List.range members.length

mutual

/-- Whether a failure is the clause tree of the check at a place. -/
def Check.Mirrored (value : Json) (place : Place) (journal : Journal) : Check → Failure → Prop
  | .rule _ name _ negated params, f =>
    f.value = value ∧ f.rule = some name ∧ f.negated = negated ∧ f.params = params ∧ f.nested = [] ∧
      ∃ answer before, .judged place answer (.error f) :: before <:+ journal ∧
        judgement? place before = none ∧ ∀ cause, f.cause = some cause ↔ answer = .error cause
  | .group members, f =>
    f.value = value ∧ f.rule = none ∧ f.negated = false ∧ f.params = [] ∧ f.cause = none ∧
      f.message = "All " ++ members.length.repr ++ " alternatives failed" ∧
      f.nested.length = members.length ∧ members ≠ [] ∧
      ∃ declared order, Check.AllMirrored value place journal 0 members declared ∧
        DecisionOrder value place journal members order ∧
        f.nested = order.filterMap (declared[·]?)

/-- Whether failures are, one by one, the clause trees of the checks of the list at a place. -/
def Check.AllMirrored (value : Json) (place : Place) (journal : Journal) (position : Nat) :
    List Check → List Failure → Prop
  | [], fs => fs = []
  | check :: rest, fs => ∃ f more, fs = f :: more ∧
      check.Mirrored value (place.member position) journal f ∧
      Check.AllMirrored value place journal (position + 1) rest more

end

mutual

/-- The number of rule clauses and groups in a check. -/
def Check.count : Check → Nat
  | .rule _ _ _ _ _ => 1
  | .group members => 1 + Check.countAll members

/-- The number of rule clauses and groups in checks. -/
def Check.countAll : List Check → Nat
  | [] => 0
  | check :: rest => check.count + Check.countAll rest

end

namespace Failure

theorem flatten_eq (f : Failure) : f.flatten = f :: flattenAll f.nested := by
  obtain ⟨message, value, rule, negated, params, nested, cause⟩ := f
  rfl

theorem count_eq (f : Failure) : f.count = 1 + countAll f.nested := by
  obtain ⟨message, value, rule, negated, params, nested, cause⟩ := f
  rfl

/-- The order of siblings does not matter for their number. -/
theorem countAll_perm {fs gs : List Failure} (perm : fs.Perm gs) : countAll fs = countAll gs := by
  induction perm with
  | nil => rfl
  | cons f _ ih => rw [countAll, countAll, ih]
  | swap f g rest => rw [countAll, countAll, countAll, countAll, Nat.add_left_comm]
  | trans _ _ first second => exact first.trans second

/-- A failure fits a value: it is about it, and it is an aggregate just if it has no rule. -/
def Fits (value : Json) (f : Failure) : Prop :=
  f.value = value ∧ (f.isAggregate = true ↔ f.rule = none)

end Failure

theorem Check.AllMirrored.length {value : Json} {place : Place} {journal : Journal} :
    ∀ {checks : List Check} {position : Nat} {fs : List Failure},
      Check.AllMirrored value place journal position checks fs → fs.length = checks.length
  | [], _, _, h => congrArg List.length h
  | check :: rest, _, _, h => by
    obtain ⟨f, more, rfl, -, later⟩ := h
    rw [List.length_cons, List.length_cons, later.length]

/-- The members of a group are those that are listed in declared order. -/
theorem DecisionOrder.perm {value : Json} {place : Place} {journal : Journal} {members : List Check}
    {order : List Nat} (h : DecisionOrder value place journal members order) {declared : List Failure}
    (length : declared.length = members.length) :
    (order.filterMap (declared[·]?)).Perm declared := by
  have same : (List.range members.length).filterMap (declared[·]?) = declared := by
    have whole := filterMap_eq_range some declared
    simpa only [List.filterMap_some, length, Option.bind_fun_some] using whole.symm
  have perm := h.all.filterMap (declared[·]?)
  rwa [same] at perm

mutual

/-- **The tree of a failure has the shape of the check that it mirrors.** -/
theorem Check.Mirrored.shape {value : Json} {place : Place} {journal : Journal} : (check : Check) →
    ∀ ⦃f : Failure⦄, check.Mirrored value place journal f →
      (∀ g ∈ f.flatten, g.Fits value) ∧ f.count = check.count
  | .rule _ name _ negated params => by
    rintro f ⟨about, rule, -, -, leaf, -⟩
    rw [Failure.flatten_eq, Failure.count_eq, leaf]
    refine ⟨fun g mem => ?_, rfl⟩
    obtain rfl := List.mem_singleton.1 mem
    refine ⟨about, ?_⟩
    rw [Failure.isAggregate, leaf, rule]
    simp
  | .group members => by
    rintro f ⟨about, rule, -, -, -, -, length, inhabited, declared, order, mirrored, ordered, nested⟩
    have perm : f.nested.Perm declared := nested ▸ ordered.perm mirrored.length
    obtain ⟨fits, count⟩ := Check.AllMirrored.shape members mirrored
    rw [Failure.flatten_eq, Failure.count_eq, Check.count, ← count]
    refine ⟨fun g mem => ?_, ?_⟩
    · rcases List.mem_cons.1 mem with rfl | mem
      · refine ⟨about, iff_of_true ?_ rule⟩
        rw [Failure.isAggregate, Bool.not_eq_true', List.isEmpty_eq_false_iff]
        exact fun empty => inhabited (List.eq_nil_of_length_eq_zero (by rw [← length, empty]; rfl))
      · obtain ⟨h, among, inside⟩ := Failure.mem_flattenAll.1 mem
        exact fits g (Failure.mem_flattenAll.2 ⟨h, perm.mem_iff.1 among, inside⟩)
    · rw [Failure.countAll_perm perm]

/-- The trees of failures have the shapes of the checks that they mirror. -/
theorem Check.AllMirrored.shape {value : Json} {place : Place} {journal : Journal} :
    (checks : List Check) → ∀ ⦃position : Nat⦄ ⦃fs : List Failure⦄,
      Check.AllMirrored value place journal position checks fs →
        (∀ g ∈ Failure.flattenAll fs, g.Fits value) ∧ Failure.countAll fs = Check.countAll checks
  | [] => by
    rintro position fs rfl
    exact ⟨fun g mem => absurd mem List.not_mem_nil, rfl⟩
  | check :: rest => by
    rintro position _ ⟨f, more, rfl, first, later⟩
    obtain ⟨fits, count⟩ := Check.Mirrored.shape check first
    obtain ⟨fitsLater, countLater⟩ := Check.AllMirrored.shape rest later
    rw [Failure.flattenAll, Failure.countAll, Check.countAll, count, countLater]
    refine ⟨fun g mem => ?_, rfl⟩
    exact (List.mem_append.1 mem).elim (fits g) (fitsLater g)

end

/-! ## What a journal says about failures -/

/-- The judgement of a question is that of the first answer to it. -/
theorem first_of_judgement? {p : Place} {result : Result} : ∀ {journal : Journal},
    judgement? p journal = some result → ∃ answer before,
      .judged p answer result :: before <:+ journal ∧ judgement? p before = none
  | [], h => by cases h
  | event :: earlier, h => by
    rw [judgement?, Option.or_eq_some_iff] at h
    rcases h with before | ⟨unjudged, now⟩
    · obtain ⟨answer, first, behind, unjudged⟩ := first_of_judgement? before
      exact ⟨answer, first, behind.trans (List.suffix_cons _ _), unjudged⟩
    · cases event with
      | judged q answer judgement =>
        rw [Event.judgementAt?] at now
        split at now
        next here =>
          cases now
          exact ⟨answer, earlier, here ▸ List.suffix_refl _, unjudged⟩
        · cases now
      | _ => cases now

/-- What has come to something was judged at or below its place. -/
theorem Check.judged_of_outcome? {check : Check} (wf : check.wellFormed = true) {value : Json}
    {p : Place} {journal : Journal} (come : (check.outcome? value p journal).isSome = true) :
    ∃ q answer result, p.Encloses q ∧ Event.judged q answer result ∈ journal := by
  by_contra nowhere
  rw [Check.outcome?_of_untouched wf value] at come
  · cases come
  · intro event mem touches
    cases event with
    | judged q answer result => exact nowhere ⟨q, answer, result, touches, mem⟩
    | _ => exact touches

/-- A check changes what it has come to by events at or below its place only. -/
theorem Check.touches_of_decides {value : Json} {p : Place} {checks : List Check} {event : Event}
    {earlier : Journal} {i : Nat}
    (decides : Decides (Check.outcomes value p 0 checks) event earlier i = true) :
    event.Touches (p.member i) := by
  rw [Decides, resultAt?, resultAt?, Check.getElem?_outcomes, Nat.zero_add] at decides
  cases here : checks[i]? with
  | none => simp [here] at decides
  | some check =>
    by_contra untouched
    simp only [here, Option.map_some, Option.bind_some,
      Check.outcome?_cons_of_untouched value earlier untouched check, Bool.and_eq_true,
      Option.isNone_iff_eq_none] at decides
    obtain ⟨before, after⟩ := decides
    rw [before] at after
    cases after

/-- No event decides two members of a group. -/
theorem Check.exclusive_outcomes (value : Json) (p : Place) (checks : List Check) :
    Exclusive (Check.outcomes value p 0 checks) := fun _ _ _ _ first second =>
  (Check.touches_of_decides first).member_unique (Check.touches_of_decides second)

/-- Whether alternatives that answer at once and stand before those on the way to a place have come to
something. -/
def Layout.Prepared (layout : Layout) (x : Place) (journal : Journal) : Prop :=
  ∀ w o i j check, layout.opening? w = some o → o.combinator = .any → i < j →
    (w.member j).Encloses x → o.checks[i]? = some check → check.Instant o.value (w.member i) →
      (check.outcome? o.value (w.member i) journal).isSome = true

/-- Whether alternatives are started in declared order and those that answer at once have come to
something before the next one is. -/
def Layout.Orderly (layout : Layout) (journal : Journal) : Prop :=
  ∀ x rule scripted value params before,
    .invoked x rule scripted value params :: before <:+ journal → layout.Prepared x before

/-- Whether each rule clause was invoked before it was judged. -/
def Timely (journal : Journal) : Prop :=
  ∀ p answer result before, .judged p answer result :: before <:+ journal → Issued p before

section

variable {layout : Layout} {e : Engine}

/-- **Alternatives that answer at once are decided in declared order.** -/
theorem Layout.Orderly.declared {journal : Journal} (orderly : layout.Orderly journal)
    (timely : Timely journal) {p : Place} {o : Opening} (found : layout.opening? p = some o)
    (any : o.combinator = .any) (wf : o.WellFormed) (instant : Check.AllInstant o.value p 0 o.checks)
    {i j : Nat} (less : i < j) {earlier : Journal} (sub : earlier <:+ journal)
    (come : (resultAt? (o.parts p) j earlier).isSome = true) :
    (resultAt? (o.parts p) i earlier).isSome = true := by
  have at_position : ∀ k, resultAt? (o.parts p) k earlier =
      o.checks[k]?.bind fun check => check.outcome? o.value (p.member k) earlier := fun k => by
    rw [resultAt?, Opening.getElem?_parts, Option.bind_map]
    rfl
  rw [at_position] at come ⊢
  cases later : o.checks[j]? with
  | none => simp [later] at come
  | some second =>
    rw [later, Option.bind_some] at come
    have bound := Nat.lt_trans less (List.getElem?_eq_some_iff.1 later).1
    obtain ⟨first, here⟩ : ∃ first, o.checks[i]? = some first :=
      ⟨_, List.getElem?_eq_getElem bound⟩
    -- The later alternative was judged, hence invoked, and by then the earlier one was decided.
    obtain ⟨q, answer, result, inside, mem⟩ := Check.judged_of_outcome? (wf.check later) come
    obtain ⟨judged, behind⟩ := suffix_of_mem mem
    obtain ⟨rule, scripted, value, params, invoked⟩ :=
      timely q answer result judged (behind.trans sub)
    obtain ⟨begun, starts⟩ := suffix_of_mem invoked
    have into : .invoked q rule scripted value params :: begun <:+ earlier :=
      starts.trans ((List.suffix_cons _ _).trans behind)
    have decided := orderly q rule scripted value params begun (into.trans sub) p o i j first found any
      less inside here (instant.check here)
    rw [here, Option.bind_some]
    exact (Check.lasting_outcome o.value (p.member i) first).isSome_mono
      ((List.suffix_cons _ _).trans into) decided

/-- The failure that a rule clause is judged to be is a leaf for it. -/
theorem Placed.mirrored_rule (h : Placed layout e) {p : Place} {i : Nat} {o : Opening}
    (found : layout.opening? p = some o) {definition : Nat} {name : String} {body : Body}
    {negated : Bool} {params : List Json}
    (here : o.checks[i]? = some (.rule definition name body negated params)) {f : Failure}
    (failed : judgement? (p.member i) e.journal = some (.error f)) :
    (Check.rule definition name body negated params).Mirrored o.value (p.member i) e.journal f := by
  obtain ⟨answer, before, behind, unjudged⟩ := first_of_judgement? failed
  obtain ⟨-, question, onward, templates, handed, judged⟩ :=
    h.judged _ _ _ (behind.subset List.mem_cons_self)
  have own : o.handle? p i = some
      (.asked (p.member i) ⟨definition, name, negated, params, o.value⟩ (o.route p)) := by
    rw [Opening.handle?, here]
  obtain ⟨-, rfl, -⟩ := Handle.asked.inj
    (Option.some.inj (handed.symm.trans (Layout.handle?_of_opening? found own)))
  cases answer with
  | ok holds =>
    rw [Question.judge] at judged
    split at judged
    · obtain rfl := Except.error.inj judged
      exact ⟨rfl, rfl, rfl, rfl, rfl, .ok holds, before, behind, unjudged, fun cause => by
        simp [Question.failure, Failure.ofRule]⟩
    · cases judged
  | error cause =>
    obtain rfl := Except.error.inj judged
    exact ⟨rfl, rfl, rfl, rfl, rfl, .error cause, before, behind, unjudged, fun other => by simp⟩

/-- What a group fails with, given the failures of its members in declared order. -/
theorem Placed.mirrored_group (h : Placed layout e) (timely : Timely e.journal)
    (orderly : layout.Orderly e.journal) {p : Place} {members : List Check} {value : Json}
    {onward : Route} (found : layout.opening? p = some ⟨.any, members, value, onward⟩) {f : Failure}
    (failed : (Check.group members).outcome? value p e.journal = some (.error f))
    (inhabited : members ≠ []) {declared : List Failure}
    (mirrored : Check.AllMirrored value p e.journal 0 members declared)
    (outcomes : ∀ i, declared[i]?.map Except.error =
      resultAt? (Check.outcomes value p 0 members) i e.journal) :
    (Check.group members).Mirrored value p e.journal f := by
  have wf : Opening.WellFormed ⟨.any, members, value, onward⟩ := h.wellFormed.opening found
  have lasting := Check.lasting_outcomes value p 0 members
  have blank := Check.blank_outcomes value p 0 members wf
  have sized := Check.length_outcomes value p 0 members
  have length := mirrored.length
  -- All members have come to a failure, so all of them are listed.
  have perm : (decisions (Check.outcomes value p 0 members) e.journal).Perm
      (List.range members.length) := by
    refine (List.perm_ext_iff_of_nodup (nodup_decisions lasting blank e.journal)
      List.nodup_range).2 fun i => ?_
    rw [mem_decisions lasting blank, ← outcomes i, Option.isSome_map, List.mem_range, ← length,
      isSome_getElem?]
  have order : DecisionOrder value p e.journal members
      (decisions (Check.outcomes value p 0 members) e.journal) :=
    { all := perm
      decided := decisions_pairwise lasting blank (Check.exclusive_outcomes value p members) e.journal
      declared := fun instant => eq_range_of_declared perm
        (decisions_pairwise lasting blank (Check.exclusive_outcomes value p members) e.journal)
        fun i j less _ earlier sub come => orderly.declared timely found rfl wf instant less sub come }
  have nested : failures (arrivals (Check.outcomes value p 0 members) e.journal) =
      (decisions (Check.outcomes value p 0 members) e.journal).filterMap (declared[·]?) := by
    rw [arrivals_eq lasting blank, failures, List.filterMap_filterMap]
    refine List.filterMap_congr fun i _ => ?_
    rw [← outcomes i]
    cases declared[i]? <;> rfl
  have count : ((decisions (Check.outcomes value p 0 members) e.journal).filterMap
      (declared[·]?)).length = members.length := by
    rw [(order.perm length).length_eq, length]
  rw [Check.outcome?, disjunction?] at failed
  split at failed
  · rw [alternative] at failed
    split at failed
    · cases failed
    · obtain rfl := Except.error.inj (Option.some.inj failed)
      rw [nested]
      refine ⟨rfl, rfl, rfl, rfl, rfl, ?_, count, inhabited, declared, _, mirrored, order, rfl⟩
      rw [Failure.aggregate, count]
  · cases failed

mutual

/-- **Every failure that a check comes to mirrors it.** -/
theorem Placed.mirrored (h : Placed layout e) (timely : Timely e.journal)
    (orderly : layout.Orderly e.journal) : (check : Check) → ∀ ⦃p : Place⦄ ⦃i : Nat⦄ ⦃o : Opening⦄,
      layout.opening? p = some o → o.checks[i]? = some check → ∀ ⦃f : Failure⦄,
        check.outcome? o.value (p.member i) e.journal = some (.error f) →
          check.Mirrored o.value (p.member i) e.journal f
  | .rule _ _ _ _ _ => fun _ _ _ found here _ failed => h.mirrored_rule found here failed
  | .group members => by
    intro p i o found here f failed
    have member : layout.opening? (p.member i) = some ⟨.any, members, o.value, o.route p⟩ := by
      rw [Layout.opening?_member, found, Option.bind_some, Opening.member?, here]
    have wf := (h.wellFormed.opening found).check here
    have inhabited : members ≠ [] := by
      rintro rfl
      simp [Check.wellFormed] at wf
    obtain ⟨declared, mirrored, outcomes⟩ := Placed.allMirrored h timely orderly members (k := 0) member
      (fun j check at_j => by rwa [Nat.zero_add])
      fun j check at_j => by
        rw [Nat.zero_add]
        exact (Check.failed_group wf h.clearly).1 ⟨f, failed⟩ j check at_j
    refine h.mirrored_group timely orderly member failed inhabited mirrored fun j => ?_
    rw [outcomes j, resultAt?, Check.getElem?_outcomes, Option.bind_map]
    rfl

/-- The failures that the checks of a list come to mirror them. -/
theorem Placed.allMirrored (h : Placed layout e) (timely : Timely e.journal)
    (orderly : layout.Orderly e.journal) : (checks : List Check) →
      ∀ ⦃p : Place⦄ ⦃k : Nat⦄ ⦃o : Opening⦄, layout.opening? p = some o →
        (∀ j check, checks[j]? = some check → o.checks[k + j]? = some check) →
        (∀ j (check : Check), checks[j]? = some check → ∃ f,
          check.outcome? o.value (p.member (k + j)) e.journal = some (.error f)) →
        ∃ fs, Check.AllMirrored o.value p e.journal k checks fs ∧
          ∀ j, fs[j]?.map Except.error = checks[j]?.bind fun (check : Check) =>
            check.outcome? o.value (p.member (k + j)) e.journal
  | [] => fun _ _ _ _ _ _ => ⟨[], rfl, fun _ => rfl⟩
  | check :: rest => by
    intro p k o found here fails
    obtain ⟨f, failed⟩ := fails 0 check rfl
    have shift : ∀ j, k + (j + 1) = k + 1 + j := fun j => by omega
    obtain ⟨fs, mirrored, outcomes⟩ := Placed.allMirrored h timely orderly rest (k := k + 1) found
      (fun j later at_j => shift j ▸ here (j + 1) later at_j)
      fun j later at_j => shift j ▸ fails (j + 1) later at_j
    refine ⟨f :: fs, ⟨f, fs, rfl, Placed.mirrored h timely orderly check found (here 0 check rfl) failed,
      mirrored⟩, fun j => ?_⟩
    cases j with
    | zero => exact failed.symm
    | succ j =>
      rw [List.getElem?_cons_succ, List.getElem?_cons_succ, shift]
      exact outcomes j

end

end

end Criteria
