import Criteria.Proofs.Order.Begun

/-!
# Clauses in declared order

`Check.Enumerates` says of a validator's list that it has started its clauses in declared order, depth
first, up to and including the clause during whose start a clause of the list has failed first, and no
further; `Check.AllOrdered` says this of all validators that serve as rules in a list. Both stay true as
long as nothing more is invoked there (`Undisturbed`).
-/

namespace Criteria
set_option autoImplicit false

/-- The invocations at given places. -/
def invocationsAt (places : List Place) (journal : Journal) : List Invocation :=
  (invocations journal).filter fun i => i.place ∈ places

/-- The clauses of the list at a place were started one after the other, from the engine `first` in which
the list had been opened: the first `k` of them, where `k` is the number of the clause during whose
start a clause of the list has failed first, or else of all clauses. Up to each clause, and in the end,
the own rule bodies of the started clauses were invoked, in declared order. -/
structure Check.Enumerates (value : Json) (p : Place) (checks : List Check) (onward : Route)
    (first : Engine) (k : Nat) (journal : Journal) : Prop where
  bound : k ≤ checks.length
  begun : checks ≠ [] → 0 < k
  next : ∀ j check, j < k → checks[j]? = some check →
    first.stage value p 0 checks (.list p .all value onward) (j + 1) =
      Engine.start value (p.member j) (.list p .all value onward) check
        (first.stage value p 0 checks (.list p .all value onward) j)
  clean : ∀ j < k, Check.failure? value p checks
    (first.stage value p 0 checks (.list p .all value onward) j).journal = none
  failed : k < checks.length → Check.failure? value p checks
    (first.stage value p 0 checks (.list p .all value onward) k).journal ≠ none
  order : ∀ j ≤ k, invocationsAt (Check.placesAll p 0 checks)
    (first.stage value p 0 checks (.list p .all value onward) j).journal =
      Check.sequenceAll value p 0 (checks.take j)
  reached : (first.stage value p 0 checks (.list p .all value onward) k).journal <:+ journal
  whole : invocationsAt (Check.placesAll p 0 checks) journal =
    Check.sequenceAll value p 0 (checks.take k)

mutual

/-- Whether a validator that serves as the body at a place has started its clauses in order, if it was
invoked, and so have those that serve as its rules. -/
def Body.Ordered (value : Json) (place : Place) (journal : Journal) : Body → Prop
  | .validator _ checks =>
    (Issued place journal → ∃ onward first k, Issued place first.journal ∧
      Check.Enumerates value place checks onward first k journal) ∧
      Check.AllOrdered value place journal 0 checks
  | .test _ => True
  | .scripted _ => True

/-- Whether every validator that serves as a rule in a check has started its clauses in order. -/
def Check.Ordered (value : Json) (place : Place) (journal : Journal) : Check → Prop
  | .rule _ _ body _ _ => body.Ordered value place journal
  | .group members => Check.AllOrdered value place journal 0 members

/-- Whether every validator that serves as a rule in a list has started its clauses in order. -/
def Check.AllOrdered (value : Json) (place : Place) (journal : Journal) (position : Nat) :
    List Check → Prop
  | [] => True
  | check :: rest => check.Ordered value (place.member position) journal ∧
      Check.AllOrdered value place journal (position + 1) rest

end

/-! ## Nothing more is invoked -/

/-- The journal has grown, but tells of no more invocations at a place and below. -/
structure Undisturbed (place : Place) (earlier later : Journal) : Prop where
  suffix : earlier <:+ later
  below : invocationsBelow place later = invocationsBelow place earlier

namespace Undisturbed

variable {place : Place} {earlier later : Journal}

theorem member (h : Undisturbed place earlier later) (i : Nat) :
    Undisturbed (place.member i) earlier later := by
  have inner : ∀ journal, invocationsBelow (place.member i) journal =
      (invocationsBelow place journal).filter fun x => (place.member i).Encloses x.place := by
    intro journal
    rw [invocationsBelow, invocationsBelow, List.filter_filter]
    refine List.filter_congr fun x _ => ?_
    by_cases within : (place.member i).Encloses x.place
    · simp [within, (place.encloses_member i).trans within]
    · simp [within]
  exact ⟨h.suffix, by rw [inner, inner, h.below]⟩

theorem issued (h : Undisturbed place earlier later) (issued : Issued place later) :
    Issued place earlier := by
  obtain ⟨rule, scripted, value, params, mem⟩ := issued
  have there : (⟨place, rule, value, params⟩ : Invocation) ∈ invocationsBelow place later :=
    List.mem_filter.2 ⟨mem_invocations.2 ⟨scripted, mem⟩, decide_eq_true (.refl place)⟩
  rw [h.below] at there
  exact issued_of_mem_invocations (List.mem_filter.1 there).1

/-- At places below, the invocations are the same. -/
theorem invocationsAt (h : Undisturbed place earlier later) {places : List Place}
    (within : ∀ x ∈ places, place.Encloses x) :
    Criteria.invocationsAt places later = Criteria.invocationsAt places earlier := by
  have narrow : ∀ journal, Criteria.invocationsAt places journal =
      (invocationsBelow place journal).filter fun x => x.place ∈ places := by
    intro journal
    rw [Criteria.invocationsAt, invocationsBelow, List.filter_filter]
    refine List.filter_congr fun x _ => ?_
    by_cases mem : x.place ∈ places
    · simp [mem, within _ mem]
    · simp [mem]
  rw [narrow, narrow, h.below]

/-- What invokes nothing disturbs no place. -/
theorem of_passive {e e' : Engine} (suffix : e.journal <:+ e'.journal) (passive : Passive e e')
    (place : Place) : Undisturbed place e.journal e'.journal :=
  ⟨suffix, congrArg (List.filter _) passive⟩

end Undisturbed

/-- An answer at once disturbs no place. -/
theorem heed_undisturbed (handle : Handle) (evaluated : Reply × Engine) (place : Place) :
    Undisturbed place evaluated.2.journal (Engine.heed handle evaluated).journal := by
  refine .of_passive ?_ (heed_passive handle evaluated) place
  obtain ⟨reply, after⟩ := evaluated
  cases reply with
  | now holds => exact (settle_rests handle (.ok holds) after).journal.suffix
  | later => exact List.suffix_refl _

/-- Evaluation elsewhere disturbs no place. -/
theorem Runs.undisturbed {layout : Layout} {active : Option Root} {region : Place → Prop}
    {e e' : Engine} (runs : Runs layout active region e e') {place : Place}
    (apart : ∀ x, place.Encloses x → ¬ region x) : Undisturbed place e.journal e'.journal := by
  obtain ⟨news, more, inside⟩ := runs.invocations
  have none : news.filter (fun i => place.Encloses i.place) = [] :=
    List.filter_eq_nil_iff.2 fun i mem within =>
      apart _ (of_decide_eq_true within) (inside i mem).2.2
  refine ⟨runs.grows.journal.suffix, ?_⟩
  rw [invocationsBelow, more, List.filter_append, none, List.append_nil]
  rfl

theorem Check.Enumerates.mono {value : Json} {p : Place} {checks : List Check} {onward : Route}
    {first : Engine} {k : Nat} {earlier later : Journal}
    (h : Check.Enumerates value p checks onward first k earlier)
    (undisturbed : Undisturbed p earlier later) :
    Check.Enumerates value p checks onward first k later :=
  { h with
    reached := h.reached.trans undisturbed.suffix
    whole := by
      rw [undisturbed.invocationsAt fun x mem => ?_, h.whole]
      obtain ⟨j, -, within⟩ := Check.encloses_placesAll checks mem
      exact (p.encloses_member j).trans within }

mutual

theorem Body.Ordered.mono {earlier later : Journal} (value : Json) : (body : Body) →
    ∀ {place : Place}, Undisturbed place earlier later → body.Ordered value place earlier →
      body.Ordered value place later
  | .test _ => fun _ _ => trivial
  | .scripted _ => fun _ _ => trivial
  | .validator _ checks => fun undisturbed ⟨own, inner⟩ =>
    ⟨fun issued => by
      obtain ⟨onward, first, k, begun, enumerates⟩ := own (undisturbed.issued issued)
      exact ⟨onward, first, k, begun, enumerates.mono undisturbed⟩,
    Check.AllOrdered.mono value checks 0 undisturbed inner⟩

theorem Check.Ordered.mono {earlier later : Journal} (value : Json) : (check : Check) →
    ∀ {place : Place}, Undisturbed place earlier later → check.Ordered value place earlier →
      check.Ordered value place later
  | .rule _ _ body _ _ => fun undisturbed h => Body.Ordered.mono value body undisturbed h
  | .group members => fun undisturbed h => Check.AllOrdered.mono value members 0 undisturbed h

theorem Check.AllOrdered.mono {earlier later : Journal} (value : Json) : (checks : List Check) →
    ∀ (position : Nat) {place : Place}, Undisturbed place earlier later →
      Check.AllOrdered value place earlier position checks →
        Check.AllOrdered value place later position checks
  | [] => fun _ _ _ _ => trivial
  | check :: rest => fun position _ undisturbed ⟨first, more⟩ =>
    ⟨Check.Ordered.mono value check (undisturbed.member position) first,
      Check.AllOrdered.mono value rest (position + 1) undisturbed more⟩

end

mutual

/-- Where nothing was invoked there is nothing to order. -/
theorem Body.Ordered.of_fresh {journal : Journal} (value : Json) : (body : Body) →
    ∀ place : Place, (∀ x, place.Encloses x → ¬ Issued x journal) →
      body.Ordered value place journal
  | .test _ => fun _ _ => trivial
  | .scripted _ => fun _ _ => trivial
  | .validator _ checks => fun place fresh =>
    ⟨fun issued => absurd issued (fresh place (.refl place)),
      Check.AllOrdered.of_fresh value checks place 0 fun j _ x within =>
        fresh x ((place.encloses_member j).trans within)⟩

theorem Check.Ordered.of_fresh {journal : Journal} (value : Json) : (check : Check) →
    ∀ place : Place, (∀ x, place.Encloses x → ¬ Issued x journal) →
      check.Ordered value place journal
  | .rule _ _ body _ _ => fun place fresh => Body.Ordered.of_fresh value body place fresh
  | .group members => fun place fresh => Check.AllOrdered.of_fresh value members place 0
      fun j _ x within => fresh x ((place.encloses_member j).trans within)

theorem Check.AllOrdered.of_fresh {journal : Journal} (value : Json) : (checks : List Check) →
    ∀ (place : Place) (position : Nat),
      (∀ j, position ≤ j → ∀ x, (place.member j).Encloses x → ¬ Issued x journal) →
        Check.AllOrdered value place journal position checks
  | [] => fun _ _ _ => trivial
  | check :: rest => fun place position fresh =>
    ⟨Check.Ordered.of_fresh value check _ (fresh position (Nat.le_refl _)),
      Check.AllOrdered.of_fresh value rest place (position + 1) fun j above =>
        fresh j (Nat.le_of_succ_le above)⟩

end

end Criteria
