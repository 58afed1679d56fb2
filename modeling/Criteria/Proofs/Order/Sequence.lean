import Criteria.Proofs.Call.Settlement
import Criteria.Proofs.Order.Invoked

/-!
# The declared order of rule clauses

`Check.sequence` lists the invocations of all rule bodies of a check, depth first and in declared order,
each at its place with the tested value and the parameters of its clause. Validators that serve as rules
are not entered. Each rule clause is listed once, and these are just the rule clauses that only groups
enclose.
-/

namespace Criteria
set_option autoImplicit false

mutual

/-- The places of the rule clauses of the check at a place. -/
def Check.places (place : Place) : Check → List Place
  | .rule _ _ _ _ _ => [place]
  | .group members => Check.placesAll place 0 members

/-- The places of the rule clauses of the list at a place, the first check at `position`. -/
def Check.placesAll (place : Place) (position : Nat) : List Check → List Place
  | [] => []
  | check :: rest => check.places (place.member position) ++ Check.placesAll place (position + 1) rest

end

mutual

/-- The invocations of the rule bodies of the check at a place. -/
def Check.sequence (value : Json) (place : Place) : Check → List Invocation
  | .rule _ name _ _ params => [⟨place, name, value, params⟩]
  | .group members => Check.sequenceAll value place 0 members

/-- The invocations of the rule bodies of the list at a place, the first check at `position`. -/
def Check.sequenceAll (value : Json) (place : Place) (position : Nat) :
    List Check → List Invocation
  | [] => []
  | check :: rest =>
    check.sequence value (place.member position) ++ Check.sequenceAll value place (position + 1) rest

end

mutual

theorem Check.map_place_sequence (value : Json) : (check : Check) → ∀ place : Place,
    (check.sequence value place).map (·.place) = check.places place
  | .rule _ _ _ _ _ => fun _ => rfl
  | .group members => fun place => Check.map_place_sequenceAll value members place 0

theorem Check.map_place_sequenceAll (value : Json) : (checks : List Check) →
    ∀ (place : Place) (position : Nat),
      (Check.sequenceAll value place position checks).map (·.place) =
        Check.placesAll place position checks
  | [] => fun _ _ => rfl
  | check :: rest => fun place position => by
    rw [Check.sequenceAll, Check.placesAll, List.map_append, Check.map_place_sequence value check,
      Check.map_place_sequenceAll value rest]

end

/-! ## Where rule clauses stand -/

mutual

/-- The rule clauses of a check stand at its place or below. -/
theorem Check.encloses_places : (check : Check) → ∀ ⦃place x : Place⦄, x ∈ check.places place →
    place.Encloses x
  | .rule _ _ _ _ _ => by
    intro place x mem
    obtain rfl := List.mem_singleton.1 mem
    exact .refl _
  | .group members => by
    intro place x mem
    obtain ⟨j, -, inside⟩ := Check.encloses_placesAll members mem
    exact (place.encloses_member j).trans inside

/-- The rule clauses of a list stand below its members. -/
theorem Check.encloses_placesAll : (checks : List Check) → ∀ ⦃place x : Place⦄ ⦃position : Nat⦄,
    x ∈ Check.placesAll place position checks → ∃ j, position ≤ j ∧ (place.member j).Encloses x
  | [] => fun _ _ _ mem => absurd mem List.not_mem_nil
  | check :: rest => by
    intro place x position mem
    rcases List.mem_append.1 mem with mem | mem
    · exact ⟨position, Nat.le_refl _, Check.encloses_places check mem⟩
    · obtain ⟨j, above, inside⟩ := Check.encloses_placesAll rest mem
      exact ⟨j, Nat.le_of_succ_le above, inside⟩

end

mutual

/-- A check has its rule clauses at different places. -/
theorem Check.nodup_places : (check : Check) → ∀ place : Place, (check.places place).Nodup
  | .rule _ _ _ _ _ => fun _ => List.pairwise_singleton _ _
  | .group members => fun place => Check.nodup_placesAll members place 0

theorem Check.nodup_placesAll : (checks : List Check) → ∀ (place : Place) (position : Nat),
    (Check.placesAll place position checks).Nodup
  | [] => fun _ _ => List.nodup_nil
  | check :: rest => by
    intro place position
    refine List.nodup_append.2 ⟨Check.nodup_places check _,
      Check.nodup_placesAll rest place (position + 1), fun x first y later same => ?_⟩
    subst same
    obtain ⟨j, above, inside⟩ := Check.encloses_placesAll rest later
    have same := Place.member_unique (Check.encloses_places check first) inside
    omega

end

theorem Check.placesAll_append (place : Place) (checks more : List Check) : ∀ position : Nat,
    Check.placesAll place position (checks ++ more) =
      Check.placesAll place position checks ++
        Check.placesAll place (position + checks.length) more := by
  induction checks with
  | nil => exact fun _ => rfl
  | cons check rest ih =>
    intro position
    rw [List.cons_append, Check.placesAll, Check.placesAll, ih, List.append_assoc, List.length_cons,
      Nat.add_assoc, Nat.add_comm 1]

/-! ## Which rule clauses are listed -/

/-- Each check of a list contributes its own. -/
theorem Check.mem_sequenceAll {value : Json} {place : Place} {i : Invocation} :
    ∀ {checks : List Check} {position : Nat},
      i ∈ Check.sequenceAll value place position checks ↔ ∃ j, ∃ check : Check,
        checks[j]? = some check ∧ i ∈ check.sequence value (place.member (position + j))
  | [], position => by simp [Check.sequenceAll]
  | check :: rest, position => by
    rw [Check.sequenceAll, List.mem_append, Check.mem_sequenceAll]
    constructor
    · rintro (mem | ⟨j, later, here, mem⟩)
      · exact ⟨0, check, rfl, mem⟩
      · exact ⟨j + 1, later, here, by rwa [Nat.add_comm j, ← Nat.add_assoc]⟩
    · rintro ⟨j, later, here, mem⟩
      cases j with
      | zero =>
        obtain rfl := Option.some.inj here
        exact .inl mem
      | succ j => exact .inr ⟨j, later, here, by rwa [Nat.add_assoc, Nat.add_comm 1]⟩

namespace Validator

variable {v : Validator} {call : Nat} {value : Json} {i : Invocation}

/-- What is listed of a group is listed of the validator. -/
theorem sequence_of_list? : ∀ {path : List Nat} {checks : List Check}, v.list? path = some checks →
    i ∈ Check.sequenceAll value ⟨.call call, path⟩ 0 checks →
      i ∈ Check.sequenceAll value (.ofCall call) 0 v.checks
  | [], checks, found, mem => by
    obtain rfl := Option.some.inj found
    exact mem
  | k :: path, checks, found, mem => by
    obtain ⟨outer, above, group⟩ := list?_cons found
    refine sequence_of_list? above (Check.mem_sequenceAll.2 ⟨k, _, group, ?_⟩)
    rw [Nat.zero_add]
    exact mem

mutual

/-- What is listed of a clause is a rule clause that only groups enclose. -/
theorem ownClause?_of_sequence : (check : Check) → ∀ path : List Nat,
    v.ownClause? path = some check → i ∈ check.sequence value ⟨.call call, path⟩ →
      ∃ path definition name body negated params,
        v.ownClause? path = some (.rule definition name body negated params) ∧
          i = ⟨⟨.call call, path⟩, name, value, params⟩
  | .rule definition name body negated params, path, found, mem =>
    ⟨path, definition, name, body, negated, params, found, List.mem_singleton.1 mem⟩
  | .group members, path, found, mem =>
    ownClause?_of_sequenceAll members path 0
      (fun j => by rw [Nat.zero_add, ownClause?_member found]) mem

theorem ownClause?_of_sequenceAll : (checks : List Check) → ∀ (path : List Nat) (position : Nat),
    (∀ j, v.ownClause? ((position + j) :: path) = checks[j]?) →
      i ∈ Check.sequenceAll value ⟨.call call, path⟩ position checks →
        ∃ path definition name body negated params,
          v.ownClause? path = some (.rule definition name body negated params) ∧
            i = ⟨⟨.call call, path⟩, name, value, params⟩
  | [], _, _, _, mem => absurd mem List.not_mem_nil
  | check :: rest, path, position, found, mem => by
    rcases List.mem_append.1 mem with mem | mem
    · exact ownClause?_of_sequence check (position :: path) (found 0) mem
    · refine ownClause?_of_sequenceAll rest path (position + 1) (fun j => ?_) mem
      rw [Nat.add_assoc, Nat.add_comm 1, found]
      rfl

end

/-- **The listed invocations are those of the rule clauses that only groups enclose.** -/
theorem mem_sequenceAll_iff :
    i ∈ Check.sequenceAll value (.ofCall call) 0 v.checks ↔
      ∃ path definition name body negated params,
        v.ownClause? path = some (.rule definition name body negated params) ∧
          i = ⟨⟨.call call, path⟩, name, value, params⟩ := by
  constructor
  · intro mem
    exact ownClause?_of_sequenceAll v.checks [] 0 (fun j => by rw [Nat.zero_add]; rfl) mem
  · rintro ⟨path, definition, name, body, negated, params, found, rfl⟩
    cases path with
    | nil => cases found
    | cons k path =>
      obtain ⟨outer, above, here⟩ := ownClause?_cons.1 found
      refine sequence_of_list? above (Check.mem_sequenceAll.2 ⟨k, _, here, ?_⟩)
      rw [Nat.zero_add]
      exact List.mem_singleton_self _

end Validator
end Criteria
