import Criteria.Json.Order

/-!
# Equality of values

Equality of whole values is an equivalence at every depth, although the two floating zeros are equal. So is
equality as rules see it, for which two numbers are equal if their doubles are. What is equal in that sense is
two numbers that denote the same double, or a value that is no number and the same value (`Json.equal_iff`).
-/

namespace Criteria
set_option autoImplicit false

namespace Json

variable {a b c : Json}

/-! ## Whole values -/

mutual

theorem same_refl : (a : Json) → a.same a = true
  | .null => rfl
  | .bool b => by simp [same]
  | .int n => by simp [same]
  | .float d => by simp [same, Double.equal]
  | .str s => by simp [same]
  | .arr items => by
    rw [same]
    exact sameItems_refl items
  | .obj members => by
    rw [same]
    exact sameMembers_refl members

theorem sameItems_refl : (items : List Json) → sameItems items items = true
  | [] => rfl
  | item :: rest => by
    rw [sameItems, same_refl item, sameItems_refl rest]
    rfl

theorem sameMembers_refl : (members : List (String × Json)) → sameMembers members members = true
  | [] => rfl
  | (key, value) :: rest => by
    rw [sameMembers, same_refl value, sameMembers_refl rest]
    simp

end

mutual

theorem same_comm : (a b : Json) → a.same b = b.same a
  | .null, b => by cases b <;> rfl
  | .bool x, b => by
    cases b with
    | bool y => exact Bool.beq_comm
    | _ => rfl
  | .int x, b => by
    cases b with
    | int y => exact BEq.comm
    | _ => rfl
  | .float x, b => by
    cases b with
    | float y => exact BEq.comm
    | _ => rfl
  | .str x, b => by
    cases b with
    | str y => exact BEq.comm
    | _ => rfl
  | .arr x, b => by
    cases b with
    | arr y => exact sameItems_comm x y
    | _ => rfl
  | .obj x, b => by
    cases b with
    | obj y => exact sameMembers_comm x y
    | _ => rfl

theorem sameItems_comm : (x y : List Json) → sameItems x y = sameItems y x
  | [], y => by cases y <;> rfl
  | a :: as, y => by
    cases y with
    | nil => rfl
    | cons b bs => rw [sameItems, sameItems, same_comm a b, sameItems_comm as bs]

theorem sameMembers_comm : (x y : List (String × Json)) → sameMembers x y = sameMembers y x
  | [], y => by cases y <;> rfl
  | (k, a) :: as, y => by
    cases y with
    | nil => rfl
    | cons m bs =>
      obtain ⟨l, b⟩ := m
      rw [sameMembers, sameMembers, same_comm a b, sameMembers_comm as bs, BEq.comm (a := k)]

end

mutual

theorem same_trans : (a : Json) → ∀ ⦃b c : Json⦄, a.same b = true → b.same c = true → a.same c = true
  | .null => by
    intro b c first second
    cases b <;> cases first
    exact second
  | .bool x => by
    intro b c first second
    cases b <;> simp only [same, Bool.false_eq_true, beq_iff_eq] at first
    exact first ▸ second
  | .int x => by
    intro b c first second
    cases b <;> simp only [same, Bool.false_eq_true, beq_iff_eq] at first
    exact first ▸ second
  | .str x => by
    intro b c first second
    cases b <;> simp only [same, Bool.false_eq_true, beq_iff_eq] at first
    exact first ▸ second
  | .float x => by
    intro b c first second
    cases b <;> simp only [same, Bool.false_eq_true] at first
    cases c <;> simp only [same, Bool.false_eq_true] at second
    simp only [same, Double.equal, beq_iff_eq] at first second ⊢
    exact first.trans second
  | .arr x => by
    intro b c first second
    cases b <;> simp only [same, Bool.false_eq_true] at first
    cases c <;> simp only [same, Bool.false_eq_true] at second
    rw [same]
    exact sameItems_trans x first second
  | .obj x => by
    intro b c first second
    cases b <;> simp only [same, Bool.false_eq_true] at first
    cases c <;> simp only [same, Bool.false_eq_true] at second
    rw [same]
    exact sameMembers_trans x first second

theorem sameItems_trans : (x : List Json) → ∀ ⦃y z : List Json⦄, sameItems x y = true →
    sameItems y z = true → sameItems x z = true
  | [] => by
    intro y z first second
    cases y <;> cases first
    exact second
  | a :: as => by
    intro y z first second
    cases y <;> simp only [sameItems, Bool.false_eq_true, Bool.and_eq_true] at first
    cases z <;> simp only [sameItems, Bool.false_eq_true, Bool.and_eq_true] at second
    rw [sameItems, same_trans a first.1 second.1, sameItems_trans as first.2 second.2]
    rfl

theorem sameMembers_trans : (x : List (String × Json)) → ∀ ⦃y z : List (String × Json)⦄,
    sameMembers x y = true → sameMembers y z = true → sameMembers x z = true
  | [] => by
    intro y z first second
    cases y <;> cases first
    exact second
  | (k, a) :: as => by
    intro y z first second
    cases y <;> simp only [sameMembers, Bool.false_eq_true, Bool.and_eq_true, beq_iff_eq] at first
    cases z <;> simp only [sameMembers, Bool.false_eq_true, Bool.and_eq_true, beq_iff_eq] at second
    rw [sameMembers, same_trans a first.1.2 second.1.2, sameMembers_trans as first.2 second.2,
      first.1.1, second.1.1]
    simp

end

theorem typeName_of_same (h : a.same b = true) : a.typeName = b.typeName := by
  cases a <;> cases b <;> first | rfl | cases h

/-! ## As rules see it -/

theorem typeName_of_number? {x : Double} (h : a.number? = some x) : a.typeName = "number" := by
  cases a <;> first | rfl | cases h

theorem number?_eq_none : a.number? = none ↔ a.typeName ≠ "number" := by
  cases a <;> simp [number?, typeName]

/-- **Two values are equal** if they are numbers with equal doubles or the same value and no number. -/
theorem equal_iff : a.equal b = true ↔
    (∃ x y, a.number? = some x ∧ b.number? = some y ∧ x.units = y.units) ∨
      a.number? = none ∧ b.number? = none ∧ a.same b = true := by
  rw [equal]
  cases left : a.number? with
  | none =>
    refine ⟨fun same => .inr ⟨rfl, ?_, same⟩, ?_⟩
    · rw [number?_eq_none, ← typeName_of_same same]
      exact number?_eq_none.1 left
    · rintro (⟨x, y, impossible, -⟩ | ⟨-, -, same⟩)
      · cases impossible
      · exact same
  | some x =>
    cases right : b.number? with
    | none =>
      refine ⟨fun same => absurd (typeName_of_same same) ?_, ?_⟩
      · rw [typeName_of_number? left]
        exact (number?_eq_none.1 right).symm
      · rintro (⟨x, y, -, impossible, -⟩ | ⟨impossible, -⟩) <;> cases impossible
    | some y => simp [Double.equal]

theorem equal_refl (a : Json) : a.equal a = true := by
  rw [equal_iff]
  cases number : a.number? with
  | none => exact .inr ⟨rfl, rfl, a.same_refl⟩
  | some x => exact .inl ⟨x, x, rfl, rfl, rfl⟩

theorem equal_symm (h : a.equal b = true) : b.equal a = true := by
  rw [equal_iff] at h ⊢
  obtain ⟨x, y, left, right, units⟩ | ⟨left, right, same⟩ := h
  · exact .inl ⟨y, x, right, left, units.symm⟩
  · exact .inr ⟨right, left, same_comm a b ▸ same⟩

theorem equal_trans (first : a.equal b = true) (second : b.equal c = true) : a.equal c = true := by
  rw [equal_iff] at first second ⊢
  obtain ⟨x, y, left, middle, units⟩ | ⟨left, middle, same⟩ := first
  · obtain ⟨y', z, middle', right, units'⟩ | ⟨impossible, -⟩ := second
    · obtain rfl := Option.some.inj (middle.symm.trans middle')
      exact .inl ⟨x, z, left, right, units.trans units'⟩
    · cases middle.symm.trans impossible
  · obtain ⟨y, z, impossible, -⟩ | ⟨-, right, same'⟩ := second
    · cases middle.symm.trans impossible
    · exact .inr ⟨left, right, same_trans a same same'⟩

/-- Equality as rules see it is an equivalence. -/
theorem equal_equivalence : Equivalence fun a b : Json => a.equal b = true :=
  ⟨equal_refl, equal_symm, equal_trans⟩

theorem equal_comm (a b : Json) : a.equal b = b.equal a :=
  Bool.eq_iff_iff.2 ⟨equal_symm, equal_symm⟩

end Json
end Criteria
