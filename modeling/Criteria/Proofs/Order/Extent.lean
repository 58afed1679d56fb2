import Criteria.Proofs.Order.Ordered

/-!
# Order and extent of rule invocation

A call invokes the rule bodies of its own clauses in declared order, depth first, up to and including the
top-level clause during whose start a top-level clause has failed first, and no further. The same holds
of every validator that serves as a rule in the call. After its return the call invokes nothing.
-/

namespace Criteria
set_option autoImplicit false

variable {layout : Layout} {active : Option Root}

theorem Engine.isRejected_open (e : Engine) (p : Place) (combinator : Combinator) (size : Nat) :
    (e.putList p (.start combinator size)).isRejected p = false := by
  rw [isRejected, get?_putList, if_pos rfl]
  rfl

/-- The own rule clauses of the first checks of a list are those of the list that stand below them. -/
theorem Check.filter_placesAll_take {p : Place} {checks : List Check} {j : Nat}
    {news : List Invocation} (inside : ∀ x ∈ news, ∃ i, 0 ≤ i ∧ i < 0 + (checks.take j).length ∧
      (p.member i).Encloses x.place) :
    news.filter (fun x => x.place ∈ Check.placesAll p 0 checks) =
      news.filter fun x => x.place ∈ Check.placesAll p 0 (checks.take j) := by
  have split := Check.placesAll_append p (checks.take j) (checks.drop j) 0
  rw [List.take_append_drop] at split
  refine List.filter_congr fun x mem => decide_eq_decide.2 ?_
  rw [split]
  refine List.mem_append.trans (or_iff_left fun later => ?_)
  obtain ⟨i, -, below, within⟩ := inside x mem
  obtain ⟨i', above, within'⟩ := Check.encloses_placesAll (checks.drop j) later
  have := Place.member_unique within within'
  omega

/-- **A list that has just been opened starts its clauses in declared order** until one has failed. -/
theorem Sound.enumerates {first : Engine} (h : Sound layout first) {p : Place}
    {checks : List Check} {value : Json} {onward : Route}
    (found : layout.opening? p = some ⟨.all, checks, value, onward⟩) (mine : active = some p.root)
    (opened : first.Opened p) (fresh : ∀ j, first.Fresh (p.member j))
    (live : first.isRejected p = false) :
    ∃ k, Engine.startAll value p 0 checks (.list p .all value onward) first =
        first.stage value p 0 checks (.list p .all value onward) k ∧
      Check.Enumerates value p checks onward first k
        (first.stage value p 0 checks (.list p .all value onward) k).journal := by
  have laid : ∀ j i check, (checks.take j)[i]? = some check → checks[0 + i]? = some check := by
    intro j i check here
    rw [Nat.zero_add]
    rw [List.getElem?_take] at here
    split at here
    · exact here
    · cases here
  have free : ∀ j, 0 ≤ j → first.Fresh (p.member j) := fun j _ => fresh j
  obtain ⟨k, begins, -⟩ := startAll_invokes checks found
    (fun j check here => by rwa [Nat.zero_add]) mine h opened free
  have begins : Begins value p 0 checks (.list p .all value onward) first k := begins
  -- At each stage the list is rejected just if one of its clauses has failed.
  have verdict : ∀ j, (first.stage value p 0 checks (.list p .all value onward) j).isRejected p =
      (Check.failure? value p checks
        (first.stage value p 0 checks (.list p .all value onward) j).journal).isSome := by
    intro j
    have runs := (startAll_runs (checks.take j) found (laid j) mine h opened free).1
    exact (runs.sound h).isRejected_all found rfl (runs.grows.opened p opened)
  have blank : (invocations first.journal).filter
      (fun x => x.place ∈ Check.placesAll p 0 checks) = [] :=
    List.filter_eq_nil_iff.2 fun x mem own => by
      obtain ⟨j, -, within⟩ := Check.encloses_placesAll checks (of_decide_eq_true own)
      exact fresh j _ within (.inr (issued_of_mem_invocations mem))
  have order : ∀ j ≤ k, invocationsAt (Check.placesAll p 0 checks)
      (first.stage value p 0 checks (.list p .all value onward) j).journal =
        Check.sequenceAll value p 0 (checks.take j) := by
    intro j within
    obtain ⟨k', part, news, more, inside, own⟩ :=
      startAll_invokes (checks.take j) found (laid j) mine h opened free
    obtain rfl : k' = j := begins.take value p _ within part
    rw [List.take_take, Nat.min_self] at own
    have more : invocations (first.stage value p 0 checks (.list p .all value onward) k').journal =
      invocations first.journal ++ news := more
    rw [invocationsAt, more, List.filter_append, blank, List.nil_append,
      Check.filter_placesAll_take inside, own]
  refine ⟨k, begins.stops, begins.bound, fun inhabited => ?_, fun j check below here => ?_,
    fun j below => ?_, fun room => ?_, order, List.suffix_refl _, order k (Nat.le_refl k)⟩
  · refine Nat.pos_of_ne_zero fun none => ?_
    have stopped := begins.rejected (none ▸ List.length_pos_iff.2 inhabited)
    rw [none, Engine.stage, List.take_zero, Engine.startAll, live] at stopped
    cases stopped
  · rw [begins.next j check below here, Nat.zero_add]
  · have goes := begins.goes j below
    rw [verdict] at goes
    exact Option.isSome_eq_false_iff.1 goes |> Option.isNone_iff_eq_none.1
  · have stopped := begins.rejected room
    rw [verdict] at stopped
    exact Option.isSome_iff_ne_none.1 stopped

/-! ## Validators that serve as rules -/

mutual

theorem evaluate_ordered (rule : String) (params : List Json) : (body : Body) →
    ∀ (e : Engine) (value : Json) (p : Place) (handle : Handle), Sound layout e →
      Invited layout active e body value p handle →
      body.Ordered value p (Engine.evaluate rule value params p handle body e).2.journal
  | .test _ => fun _ _ _ _ _ _ => trivial
  | .scripted _ => fun _ _ _ _ _ _ => trivial
  | .validator age checks => by
    intro e value p handle h invited
    rw [Engine.evaluate]
    by_cases empty : checks = []
    · subst empty
      have suffix := (deliver_rests handle.route (.ok true)
        (e.note (.invoked p rule false value params))).journal.suffix
      refine ⟨fun _ => ⟨handle.route, e.note (.invoked p rule false value params), 0,
        ⟨_, _, _, _, List.mem_cons_self⟩, ?_⟩, trivial⟩
      refine ⟨Nat.le_refl 0, absurd rfl, nofun, nofun, nofun, fun j _ => ?_, suffix, ?_⟩
      · rw [List.take_nil]
        exact List.filter_eq_nil_iff.2 fun _ _ own =>
          absurd (of_decide_eq_true own) List.not_mem_nil
      · exact List.filter_eq_nil_iff.2 fun _ _ own =>
          absurd (of_decide_eq_true own) List.not_mem_nil
    · obtain ⟨found, opens, sound, opened, fresh⟩ := invited.opens h empty rule params
      have invoked : Issued p ((e.note (.invoked p rule false value params)).putList p
          (.start .all checks.length)).journal := ⟨_, _, _, _, List.mem_cons_self⟩
      obtain ⟨k, stops, enumerates⟩ := sound.enumerates found invited.mine opened fresh
        (Engine.isRejected_open _ p _ _)
      rw [runList_of_inhabited _ (by simpa using empty)]
      refine ⟨fun _ => ⟨handle.route, _, k, invoked, ?_⟩, ?_⟩
      · rw [stops]
        exact enumerates
      · exact startAll_ordered checks found (fun j check here => by rwa [Nat.zero_add]) invited.mine
          sound opened fun j _ => fresh j

theorem start_ordered : (check : Check) → ∀ ⦃e : Engine⦄ ⦃p : Place⦄ ⦃i : Nat⦄ ⦃o : Opening⦄,
      layout.opening? p = some o → o.checks[i]? = some check → active = some p.root →
      Sound layout e → e.Opened p → e.Fresh (p.member i) →
      check.Ordered o.value (p.member i)
        (Engine.start o.value (p.member i) (o.route p) check e).journal
  | .rule definition name body negated params => by
    intro e p i o found here mine h opened fresh
    have invited := invited_member mine found here opened fresh
    have ordered := evaluate_ordered name params body e o.value (p.member i) _ h invited
    rw [Engine.start_rule]
    exact Body.Ordered.mono o.value body (heed_undisturbed _ _ _) ordered
  | .group members => by
    intro e p i o found here mine h opened fresh
    obtain ⟨member, inhabited, opens⟩ := openGroup_runs mine found here h opened fresh
    rw [Engine.start, runList_of_inhabited _ (by simpa using inhabited)]
    exact startAll_ordered members member (fun j check here => by rwa [Nat.zero_add]) mine
      (opens.sound h) (Engine.opened_putList.2 (.inl rfl))
      fun j _ => (fresh.member j).grows opens.grows

/-- **The validators that serve as rules in a list start their clauses in order.** -/
theorem startAll_ordered : (checks : List Check) → ∀ ⦃e : Engine⦄ ⦃p : Place⦄ ⦃position : Nat⦄
      ⦃o : Opening⦄, layout.opening? p = some o → (∀ j check, checks[j]? = some check →
        o.checks[position + j]? = some check) → active = some p.root → Sound layout e →
      e.Opened p → (∀ j, position ≤ j → e.Fresh (p.member j)) →
      Check.AllOrdered o.value p
        (Engine.startAll o.value p position checks (o.route p) e).journal position checks
  | [] => fun _ _ _ _ _ _ _ _ _ _ => trivial
  | check :: rest => by
    intro e p position o found here mine h opened fresh
    rw [Engine.startAll]
    split
    · exact Check.AllOrdered.of_fresh o.value (check :: rest) p position fun j above x within issued =>
        fresh j above x within (.inr issued)
    · have head : o.checks[position]? = some check := here 0 check rfl
      have free := fresh position (Nat.le_refl position)
      obtain ⟨first, -⟩ := start_runs check found head mine h opened free
      have laid := getElem?_rest here
      have later := Engine.Fresh.after fresh first.grows
      have sound := first.sound h
      have still := first.grows.opened p opened
      obtain ⟨runs, -⟩ := startAll_runs rest found laid mine sound still later
      refine ⟨Check.Ordered.mono o.value check (runs.undisturbed fun x within => ?_)
        (start_ordered check found head mine h opened free),
        startAll_ordered rest found laid mine sound still later⟩
      rintro ⟨j, above, inside⟩
      have := Place.member_unique within inside
      omega

end

/-! ## Calls -/

/-- What a call starts, and the validators in it. -/
theorem Sound.call_enumerates {e : Engine} (h : Sound layout e) {v : Validator}
    (wf : v.wellFormed = true) (value : Json) :
    (∃ k, Check.Enumerates value (.ofCall e.calls.size) v.checks (.call e.calls.size)
        (e.opened v.checks value) k (e.call v value).2.journal ∧
      (v.checks ≠ [] → (e.call v value).2 =
        ((e.opened v.checks value).stage value (.ofCall e.calls.size) 0 v.checks
          (.list (.ofCall e.calls.size) .all value (.call e.calls.size)) k).leave e.calls.size
            (e.call v value).1)) ∧
      Check.AllOrdered value (.ofCall e.calls.size) (e.call v value).2.journal 0 v.checks := by
  by_cases empty : v.checks = []
  · obtain ⟨_, steady, -⟩ := call_made h wf value
    have suffix := (Trace.follows steady.trace h).journal
    rw [empty]
    have nowhere : ∀ journal, invocationsAt (Check.placesAll (.ofCall e.calls.size) 0 []) journal =
        [] := fun journal => List.filter_eq_nil_iff.2 fun _ _ own =>
      absurd (of_decide_eq_true own) List.not_mem_nil
    refine ⟨⟨0, ⟨Nat.le_refl 0, absurd rfl, nofun, nofun, nofun, fun j _ => ?_, suffix,
      nowhere _⟩, absurd rfl⟩, trivial⟩
    rw [List.take_nil]
    exact nowhere _
  · obtain ⟨opens, opened, fresh⟩ := opened_runs h empty value
    have here : (layout.withCall e.calls.size v.checks value).opening? (.ofCall e.calls.size) =
      some (.ofCall e.calls.size v.checks value) := Layout.extend_self _ _ _
    have sound := opens.sound (h.enter wf empty value)
    have mine : some (Root.call e.calls.size) = some (Place.ofCall e.calls.size).root := rfl
    obtain ⟨k, stops, enumerates⟩ := sound.enumerates here mine opened fresh
      (Engine.isRejected_open _ _ _ _)
    have ordered := startAll_ordered v.checks here (fun j check here => by rwa [Nat.zero_add]) rfl
      sound opened fun j _ => fresh j
    have left : (e.call v value).2 = (e.started v.checks value).leave e.calls.size
        (e.call v value).1 := by rw [Engine.call_of_inhabited empty]
    have undisturbed : Undisturbed (.ofCall e.calls.size) (e.started v.checks value).journal
        (e.call v value).2.journal := by
      rw [left]
      exact .of_passive (List.suffix_cons _ _) (Passive.note (Engine.updateCall _ _ _) rfl) _
    refine ⟨⟨k, ?_, fun _ => left.trans ?_⟩, Check.AllOrdered.mono value v.checks 0 undisturbed ordered⟩
    · rw [← stops] at enumerates
      exact enumerates.mono undisturbed
    · rw [← stops]
      rfl

/-- **Order and extent of rule invocation.** In every run, for every call of a validator: there is a
number `k` such that the call starts its first `k` top-level clauses, one after the other, and then
returns; until the start of the `k`-th clause no top-level clause has failed, and if clauses are left out
then one has failed during the start of the `k`-th clause. By the end of each clause's start, and after
the return, the call has invoked of its own rule bodies just those of the started clauses, depth first
and in declared order, with the tested value and the parameters of the clause; this includes all members
of the groups in them. These are the rule clauses that only groups enclose, each at a place of its own and
so invoked once. The same holds of every validator that serves as a rule somewhere in the call. After the
return nothing is invoked below the call any more. -/
theorem invocation_order {earlier later : List Move} (valid : ∀ m ∈ earlier ++ later, m.Valid)
    {v : Validator} (built : v.Built) (value : Json) :
    let e := Engine.empty.run earlier
    let place : Place := .ofCall e.calls.size
    let returned := (e.call v value).2
    (∃ k, Check.Enumerates value place v.checks (.call e.calls.size) (e.opened v.checks value) k
        returned.journal ∧
      (v.checks ≠ [] → returned =
        ((e.opened v.checks value).stage value place 0 v.checks
          (.list place .all value (.call e.calls.size)) k).leave e.calls.size
            (e.call v value).1)) ∧
    Check.AllOrdered value place returned.journal 0 v.checks ∧
    ((Check.sequenceAll value place 0 v.checks).map (·.place)).Nodup ∧
    (∀ i, i ∈ Check.sequenceAll value place 0 v.checks ↔
      ∃ path definition name body negated params,
        v.ownClause? path = some (.rule definition name body negated params) ∧
          i = ⟨⟨.call e.calls.size, path⟩, name, value, params⟩) ∧
    invocationsBelow place (returned.run later).journal =
      invocationsBelow place returned.journal := by
  intro e place returned
  obtain ⟨layout, -, sound⟩ := sound_run fun m mem => valid m (List.mem_append_left later mem)
  obtain ⟨enumerates, ordered⟩ := sound.call_enumerates built.wellFormed value
  obtain ⟨before, calls, returns, -⟩ := call_made sound built.wellFormed value
  have entered := Trace.sound calls.trace sound
  obtain ⟨last, goes⟩ := run_course entered fun m mem => valid m (List.mem_append_right earlier mem)
  refine ⟨enumerates, ordered, ?_, fun i => Validator.mem_sequenceAll_iff,
    Trace.invocations_of_returned goes.trace entered ?_⟩
  · rw [Check.map_place_sequenceAll]
    exact Check.nodup_placesAll v.checks place 0
  · rw [returns, returned?, if_pos rfl]
    exact Option.some_ne_none _

/-! ## A clause that spoils an earlier one -/

/-- A body that settles the handle of another one with no, and does not answer itself. -/
def Body.spoiling : Body := .scripted fun _ _ _ => ⟨[.settleParked 0 (.ok false)], .later⟩

/-- The registry of two rules: one waits, the other one spoils it. -/
def Registry.spoiled : Registry := Registry.waiting.insert ⟨1, "spoiling", .spoiling⟩

/-- A clause that waits, a group that spoils it, and a clause after that. -/
def Validator.spoiled : Validator :=
  ⟨2, [.rule 0 "waiting" .waiting false [],
    .group [.rule 1 "spoiling" .spoiling false [], .rule 0 "waiting" .waiting true []],
    .rule 0 "waiting" .waiting false []]⟩

theorem Validator.built_spoiled : Validator.spoiled.Built := by
  refine ⟨2, .spoiled, [.rule "waiting" false [],
    .group [.rule "spoiling" false [], .rule "waiting" true []], .rule "waiting" false []], ?_, rfl⟩
  intro d mem
  obtain rfl | mem := List.mem_cons.1 mem
  · exact .scripted _
  · obtain rfl : d = ⟨0, "waiting", .waiting⟩ := List.mem_singleton.1 mem
    exact .scripted _

/-- The first clause fails during the start of the group. All members of the group are invoked all the same,
and the clause after it is not. -/
theorem invocation_order_spoiled :
    let returned := (Engine.empty.call .spoiled .null).2
    (∃ k, Check.Enumerates .null (.ofCall 0) Validator.spoiled.checks (.call 0)
      (Engine.empty.opened Validator.spoiled.checks .null) k returned.journal) ∧
    (invocations returned.journal).map (·.place.path) = [[0], [0, 1], [1, 1]] ∧
    invocationsBelow (.ofCall 0) (returned.run [.settle 0 (.ok true)]).journal =
      invocationsBelow (.ofCall 0) returned.journal := by
  have valid : ∀ m ∈ [] ++ [Move.settle 0 (.ok true)], m.Valid := by simp [Move.Valid]
  obtain ⟨⟨k, enumerates, -⟩, -, -, -, silent⟩ :=
    invocation_order valid Validator.built_spoiled .null
  exact ⟨⟨k, enumerates⟩, by rfl, silent⟩

end Criteria
