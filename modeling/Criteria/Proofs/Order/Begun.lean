import Criteria.Proofs.Order.Sequence

/-!
# Which checks of a list are started

The checks of a list are started one after the other until the list is rejected: the first `k` of them are
started, and each is only if nothing has rejected the list before (`Begins`). What this invokes of the
list's own rule clauses is the declared sequence of the started checks (`startAll_invokes`); whatever
else it invokes stands below a rule clause, in a validator that serves as its rule.
-/

namespace Criteria
set_option autoImplicit false

/-- The engine in which the first `k` checks of a list were started. -/
abbrev Engine.stage (e : Engine) (value : Json) (p : Place) (position : Nat) (checks : List Check)
    (into : Route) (k : Nat) : Engine :=
  startAll value p position (checks.take k) into e

/-- Of the checks of a list just the first `k` are started. -/
structure Begins (value : Json) (p : Place) (position : Nat) (checks : List Check) (into : Route)
    (e : Engine) (k : Nat) : Prop where
  bound : k ≤ checks.length
  /-- Before each of them the list is not rejected. -/
  goes : ∀ j < k, (e.stage value p position checks into j).isRejected p = false
  /-- Each is started where the one before has ended. -/
  next : ∀ j check, j < k → checks[j]? = some check →
    e.stage value p position checks into (j + 1) =
      Engine.start value (p.member (position + j)) into check
        (e.stage value p position checks into j)
  /-- If not all are started, then the list is rejected. -/
  rejected : k < checks.length → (e.stage value p position checks into k).isRejected p = true
  stops : Engine.startAll value p position checks into e = e.stage value p position checks into k

section

variable (value : Json) (p : Place) (into : Route)

theorem Engine.stage_succ {e : Engine} (live : e.isRejected p = false) (position : Nat)
    (check : Check) (rest : List Check) (k : Nat) :
    e.stage value p position (check :: rest) into (k + 1) =
      (start value (p.member position) into check e).stage value p (position + 1) rest into k := by
  rw [stage, List.take_succ_cons, startAll, if_neg (by simp [live])]

namespace Begins

variable {value p into} {e : Engine} {position : Nat} {check : Check} {rest checks : List Check}

theorem nil : Begins value p position [] into e 0 :=
  ⟨Nat.le_refl 0, nofun, nofun, nofun, rfl⟩

/-- A rejected list starts no check. -/
theorem none (rejected : e.isRejected p = true) : Begins value p position checks into e 0 := by
  have start : e.stage value p position checks into 0 = e := by
    rw [Engine.stage, List.take_zero, Engine.startAll]
  refine ⟨Nat.zero_le _, nofun, nofun, fun _ => start.symm ▸ rejected, ?_⟩
  cases checks with
  | nil => rfl
  | cons check rest => rw [start, Engine.startAll, if_pos rejected]

/-- A list that is not rejected starts its first check, and goes on from there. -/
theorem cons (live : e.isRejected p = false) {k : Nat}
    (begins : Begins value p (position + 1) rest into
      (Engine.start value (p.member position) into check e) k) :
    Begins value p position (check :: rest) into e (k + 1) := by
  have stage := Engine.stage_succ value p into live position check rest
  have start : e.stage value p position (check :: rest) into 0 = e := by
    rw [Engine.stage, List.take_zero, Engine.startAll]
  refine ⟨Nat.succ_le_succ begins.bound, fun j below => ?_, fun j other below here => ?_,
    fun room => ?_, ?_⟩
  · cases j with
    | zero => rw [start, live]
    | succ j =>
      rw [stage]
      exact begins.goes j (Nat.lt_of_succ_lt_succ below)
  · cases j with
    | zero =>
      obtain rfl := Option.some.inj here
      rw [stage, start, Engine.stage, List.take_zero, Engine.startAll]
      rfl
    | succ j =>
      rw [stage, stage, begins.next j other (Nat.lt_of_succ_lt_succ below) here, Nat.add_assoc,
        Nat.add_comm 1]
  · rw [stage]
    exact begins.rejected (Nat.lt_of_succ_lt_succ room)
  · rw [stage, ← begins.stops, Engine.startAll, if_neg (by simp [live])]

end Begins

/-- Of the first `j` checks all are started if `j` checks are started at all. -/
theorem Begins.take {checks : List Check} {position : Nat} {e : Engine} {k k' j : Nat}
    (begins : Begins value p position checks into e k) (within : j ≤ k)
    (part : Begins value p position (checks.take j) into e k') : k' = j := by
  have length : (checks.take j).length = j :=
    List.length_take_of_le (Nat.le_trans within begins.bound)
  refine Nat.le_antisymm (Nat.le_trans part.bound (Nat.le_of_eq length)) (Nat.le_of_not_lt fun less => ?_)
  have stopped := part.rejected (Nat.lt_of_lt_of_eq less length.symm)
  rw [Engine.stage, List.take_take, Nat.min_eq_left (Nat.le_of_lt less)] at stopped
  rw [begins.goes k' (Nat.lt_of_lt_of_le less within)] at stopped
  cases stopped

end

/-! ## The invocations of a list's own rule clauses -/

variable {layout : Layout} {active : Option Root} {e : Engine}

/-- A body that is invited to a place is invoked there; whatever it invokes itself stands below. -/
theorem evaluate_invokes (h : Sound layout e) {body : Body} {value : Json} {p : Place}
    {handle : Handle} (invited : Invited layout active e body value p handle) (rule : String)
    (params : List Json) :
    ∃ below, invocations (Engine.evaluate rule value params p handle body e).2.journal =
        invocations e.journal ++ ⟨p, rule, value, params⟩ :: below ∧
      ∀ i ∈ below, ∃ j, (p.member j).Encloses i.place := by
  have invoked : ∀ scripted,
      invocations (e.note (.invoked p rule scripted value params)).journal =
        invocations e.journal ++ [⟨p, rule, value, params⟩] := fun _ => invocations_cons _ _
  have alone : ∀ {after : Engine} {scripted : Bool},
      Passive (e.note (.invoked p rule scripted value params)) after →
        ∃ below, invocations after.journal = invocations e.journal ++
            ⟨p, rule, value, params⟩ :: below ∧
          ∀ i ∈ below, ∃ j, (p.member j).Encloses i.place := fun passive =>
    ⟨[], Eq.trans passive (invoked _), fun _ mem => absurd mem List.not_mem_nil⟩
  cases body with
  | test holds =>
    rw [Engine.evaluate]
    exact alone (.refl _)
  | scripted plan =>
    rw [Engine.evaluate]
    exact alone (performAll_passive rule handle _ _)
  | validator age checks =>
    rw [Engine.evaluate]
    by_cases empty : checks = []
    · subst empty
      exact alone (deliver_passive handle.route _ _)
    · obtain ⟨found, opens, sound, opened, fresh⟩ := invited.opens h empty rule params
      have started := (startAll_runs checks found (fun j check here => by rwa [Nat.zero_add])
        invited.mine sound opened fun j _ => fresh j).1
      obtain ⟨below, more, inside⟩ := started.invocations
      rw [runList_of_inhabited _ (by simpa using empty)]
      refine ⟨below, Eq.trans more ?_, fun i mem => ?_⟩
      · rw [← List.singleton_append, ← List.append_assoc]
        exact congrArg (· ++ below) (invoked false)
      · obtain ⟨j, -, within⟩ := (inside i mem).2.2
        exact ⟨j, within⟩

mutual

/-- **A started check invokes its own rule bodies in declared order.** -/
theorem start_invokes : (check : Check) → ∀ ⦃e : Engine⦄ ⦃p : Place⦄ ⦃i : Nat⦄ ⦃o : Opening⦄,
      layout.opening? p = some o → o.checks[i]? = some check → active = some p.root →
      Sound layout e → e.Opened p → e.Fresh (p.member i) →
      ∃ news, invocations (Engine.start o.value (p.member i) (o.route p) check e).journal =
          invocations e.journal ++ news ∧
        (∀ x ∈ news, (p.member i).Encloses x.place) ∧
        news.filter (fun x => x.place ∈ check.places (p.member i)) =
          check.sequence o.value (p.member i)
  | .rule definition name body negated params => by
    intro e p i o found here mine h opened fresh
    have invited := invited_member mine found here opened fresh
    obtain ⟨below, more, inside⟩ := evaluate_invokes h invited name params
    rw [Engine.start_rule, heed_passive _ _]
    refine ⟨_, more, fun x mem => ?_, ?_⟩
    · rcases List.mem_cons.1 mem with rfl | mem
      · exact .refl _
      · obtain ⟨j, within⟩ := inside x mem
        exact ((p.member i).encloses_member j).trans within
    · have others : below.filter (fun x => x.place ∈ [p.member i]) = [] :=
        List.filter_eq_nil_iff.2 fun x mem own => by
          obtain ⟨j, within⟩ := inside x mem
          obtain same := List.mem_singleton.1 (of_decide_eq_true own)
          exact Place.not_member_encloses (p.member i) j (same ▸ within)
      rw [Check.places, Check.sequence, List.filter_cons_of_pos (by simp), others]
  | .group members => by
    intro e p i o found here mine h opened fresh
    obtain ⟨member, inhabited, opens⟩ := openGroup_runs mine found here h opened fresh
    have laid : ∀ j check, members[j]? = some check → members[0 + j]? = some check :=
      fun j check here => by rwa [Nat.zero_add]
    have opened : Engine.Opened (e.putList (p.member i) (.start .any members.length))
        (p.member i) := Engine.opened_putList.2 (.inl rfl)
    have free : ∀ j, 0 ≤ j → Engine.Fresh (e.putList (p.member i) (.start .any members.length))
        ((p.member i).member j) := fun j _ => (fresh.member j).grows opens.grows
    obtain ⟨k, begins, news, more, inside, own⟩ :=
      startAll_invokes members member laid mine (opens.sound h) opened free
    have runs := (startAll_runs members member laid mine (opens.sound h) opened free).1
    -- A disjunction is never rejected, so no member is left out.
    have whole : k = members.length := by
      refine Nat.le_antisymm begins.bound (Nat.le_of_not_lt fun less => ?_)
      have stopped := begins.rejected less
      rw [← begins.stops, (runs.sound (opens.sound h)).isRejected_any member rfl] at stopped
      cases stopped
    rw [whole, List.take_length] at own
    rw [Engine.start, runList_of_inhabited _ (by simpa using inhabited)]
    refine ⟨news, more, fun x mem => ?_, own⟩
    obtain ⟨j, -, -, within⟩ := inside x mem
    exact ((p.member i).encloses_member j).trans within

/-- **A list invokes the own rule bodies of its started checks in declared order.** -/
theorem startAll_invokes : (checks : List Check) → ∀ ⦃e : Engine⦄ ⦃p : Place⦄ ⦃position : Nat⦄
      ⦃o : Opening⦄, layout.opening? p = some o → (∀ j check, checks[j]? = some check →
        o.checks[position + j]? = some check) → active = some p.root → Sound layout e →
      e.Opened p → (∀ j, position ≤ j → e.Fresh (p.member j)) →
      ∃ k, Begins o.value p position checks (o.route p) e k ∧
        ∃ news, invocations (Engine.startAll o.value p position checks (o.route p) e).journal =
            invocations e.journal ++ news ∧
          (∀ x ∈ news, ∃ j, position ≤ j ∧ j < position + checks.length ∧
            (p.member j).Encloses x.place) ∧
          news.filter (fun x => x.place ∈ Check.placesAll p position checks) =
            Check.sequenceAll o.value p position (checks.take k)
  | [] => by
    intro e p position o _ _ _ _ _ _
    refine ⟨0, .nil, [], ?_, fun _ mem => absurd mem List.not_mem_nil, rfl⟩
    rw [Engine.startAll, List.append_nil]
  | check :: rest => by
    intro e p position o found here mine h opened fresh
    cases live : e.isRejected p with
    | true =>
      refine ⟨0, .none live, [], ?_, fun _ mem => absurd mem List.not_mem_nil, rfl⟩
      rw [Engine.startAll, if_pos live, List.append_nil]
    | false =>
      have head : o.checks[position]? = some check := here 0 check rfl
      have free := fresh position (Nat.le_refl position)
      obtain ⟨first, -⟩ := start_runs check found head mine h opened free
      obtain ⟨news, more, inside, own⟩ := start_invokes check found head mine h opened free
      obtain ⟨k, begins, news', more', inside', own'⟩ := startAll_invokes rest found
        (getElem?_rest here) mine (first.sound h) (first.grows.opened p opened)
        (Engine.Fresh.after fresh first.grows)
      refine ⟨k + 1, begins.cons live, news ++ news', ?_, fun x mem => ?_, ?_⟩
      · rw [Engine.startAll, if_neg (by simp [live]), more', more, List.append_assoc]
      · rcases List.mem_append.1 mem with mem | mem
        · exact ⟨position, Nat.le_refl _, by simp, inside x mem⟩
        · obtain ⟨j, above, below, within⟩ := inside' x mem
          exact ⟨j, by omega, by rw [List.length_cons]; omega, within⟩
      · -- What stands below one member is no rule clause of the others.
        have mine : news.filter (fun x => x.place ∈ Check.placesAll p position (check :: rest)) =
            news.filter fun x => x.place ∈ check.places (p.member position) := by
          refine List.filter_congr fun x mem => decide_eq_decide.2 ?_
          refine List.mem_append.trans (or_iff_left fun later => ?_)
          obtain ⟨j, above, within⟩ := Check.encloses_placesAll rest later
          have := Place.member_unique (inside x mem) within
          omega
        have others : news'.filter (fun x => x.place ∈ Check.placesAll p position (check :: rest)) =
            news'.filter fun x => x.place ∈ Check.placesAll p (position + 1) rest := by
          refine List.filter_congr fun x mem => decide_eq_decide.2 ?_
          refine List.mem_append.trans (or_iff_right fun first => ?_)
          obtain ⟨j, above, -, within⟩ := inside' x mem
          have := Place.member_unique (Check.encloses_places check first) within
          omega
        rw [List.filter_append, mine, others, own, own', List.take_succ_cons, Check.sequenceAll]

end

end Criteria
