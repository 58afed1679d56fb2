import Criteria.Failure

/-!
# Failures within a failure

A failure that stands within another one is reached by a path of positions, the outermost first.
`Failure.descendants` walks the tree depth first and pairs each failure with its path. It meets every path of
the tree (`Failure.mem_descendants`) in lexicographic order, so a failure comes before its alternatives and
these come in their order (`Failure.pairwise_descendants`). Flattening keeps the failures of this walk, and
counting keeps its length.
-/

namespace Criteria
set_option autoImplicit false

namespace Failure

/-- The failure at a path of positions, which count from zero. -/
def at? : List Nat → Failure → Option Failure
  | [], f => some f
  | i :: path, f => f.nested[i]?.bind (at? path)

mutual

/-- The failures of the tree with their paths, each before its alternatives. -/
def descendants : Failure → List (List Nat × Failure)
  | ⟨message, value, rule, negated, params, nested, cause⟩ =>
    ([], ⟨message, value, rule, negated, params, nested, cause⟩) :: descendantsFrom 0 nested

/-- The failures of the trees of a list whose first one stands at the given position. -/
def descendantsFrom (position : Nat) : List Failure → List (List Nat × Failure)
  | [] => []
  | f :: rest =>
    (descendants f).map (fun (path, g) => (position :: path, g)) ++ descendantsFrom (position + 1) rest

end

theorem descendants_eq (f : Failure) : f.descendants = ([], f) :: descendantsFrom 0 f.nested := by
  cases f
  rfl

/-! ## Flattening and counting -/

mutual

theorem flatten_eq_descendants : (f : Failure) → f.flatten = f.descendants.map (·.2)
  | ⟨_, _, _, _, _, nested, _⟩ => by
    rw [flatten, descendants, List.map_cons, flattenAll_eq_descendants 0 nested]

theorem flattenAll_eq_descendants (position : Nat) : (fs : List Failure) →
    flattenAll fs = (descendantsFrom position fs).map (·.2)
  | [] => rfl
  | f :: rest => by
    rw [flattenAll, descendantsFrom, List.map_append, List.map_map, flatten_eq_descendants f,
      flattenAll_eq_descendants (position + 1) rest]
    rfl

end

mutual

theorem length_flatten : (f : Failure) → f.flatten.length = f.count
  | ⟨_, _, _, _, _, nested, _⟩ => by
    rw [flatten, count, List.length_cons, length_flattenAll nested, Nat.add_comm]

theorem length_flattenAll : (fs : List Failure) → (flattenAll fs).length = countAll fs
  | [] => rfl
  | f :: rest => by
    rw [flattenAll, countAll, List.length_append, length_flatten f, length_flattenAll rest]

end

/-! ## Paths -/

mutual

/-- The walk meets the failure at each path. -/
theorem mem_descendants : (f : Failure) → ∀ ⦃path : List Nat⦄ ⦃g : Failure⦄,
    (path, g) ∈ f.descendants ↔ f.at? path = some g
  | ⟨message, value, rule, negated, params, nested, cause⟩ => by
    intro path g
    rw [descendants, List.mem_cons, mem_descendantsFrom 0 nested]
    cases path with
    | nil => simp [at?, eq_comm]
    | cons i path => simp [at?, and_assoc]

theorem mem_descendantsFrom (position : Nat) : (fs : List Failure) → ∀ ⦃path : List Nat⦄ ⦃g : Failure⦄,
    (path, g) ∈ descendantsFrom position fs ↔
      ∃ i below, path = (position + i) :: below ∧ fs[i]?.bind (at? below) = some g
  | [] => by simp [descendantsFrom]
  | f :: rest => by
    intro path g
    rw [descendantsFrom, List.mem_append, mem_descendantsFrom (position + 1) rest, List.mem_map]
    constructor
    · rintro (⟨⟨below, g⟩, mem, ⟨⟩⟩ | ⟨i, below, rfl, found⟩)
      · exact ⟨0, below, rfl, (mem_descendants f).1 mem⟩
      · exact ⟨i + 1, below, by rw [Nat.add_right_comm, Nat.add_assoc], found⟩
    · rintro ⟨i, below, rfl, found⟩
      cases i with
      | zero => exact .inl ⟨(below, g), (mem_descendants f).2 found, rfl⟩
      | succ i => exact .inr ⟨i, below, by rw [Nat.add_right_comm, Nat.add_assoc], found⟩

end

/-- The paths of the failures of a list whose first one stands at the given position. -/
theorem exists_of_mem_paths {position : Nat} {fs : List Failure} {path : List Nat}
    (mem : path ∈ (descendantsFrom position fs).map (·.1)) : ∃ i below, path = (position + i) :: below := by
  obtain ⟨⟨_, g⟩, walked, rfl⟩ := List.mem_map.1 mem
  obtain ⟨i, below, same, -⟩ := (mem_descendantsFrom position fs).1 walked
  exact ⟨i, below, same⟩

mutual

/-- The walk meets the paths in lexicographic order. -/
theorem pairwise_descendants : (f : Failure) → (f.descendants.map (·.1)).Pairwise (· < ·)
  | ⟨_, _, _, _, _, nested, _⟩ => by
    rw [descendants, List.map_cons, List.pairwise_cons]
    refine ⟨fun path mem => ?_, pairwise_descendantsFrom 0 nested⟩
    obtain ⟨i, below, rfl⟩ := exists_of_mem_paths mem
    exact .nil

theorem pairwise_descendantsFrom (position : Nat) : (fs : List Failure) →
    ((descendantsFrom position fs).map (·.1)).Pairwise (· < ·)
  | [] => .nil
  | f :: rest => by
    rw [descendantsFrom, List.map_append, List.map_map, List.pairwise_append]
    refine ⟨?_, pairwise_descendantsFrom (position + 1) rest, fun path here other later => ?_⟩
    · have inner := pairwise_descendants f
      rw [List.pairwise_map] at inner ⊢
      exact inner.imp fun less => .cons less
    · obtain ⟨⟨below, g⟩, -, rfl⟩ := List.mem_map.1 here
      obtain ⟨i, below', rfl⟩ := exists_of_mem_paths later
      exact .rel (by omega)

end

end Failure
end Criteria
