import Criteria.Proofs.Value.Order

/-!
# Comparing integers

Integers are compared as the doubles nearest to them, so the order of integers is kept but not always told: an
integer beyond `2⁵³` may share its double with its neighbours. Two integers are told apart if both are doubles
themselves, or if one of them is below `2⁵³` in absolute value, whatever the other is (`Integer.toDouble_lt_iff`).
-/

namespace Criteria
set_option autoImplicit false

open Double

theorem Double.rounded_inUnits {n : Nat} (small : n ≤ 2 ^ 53) : rounded (inUnits n) = inUnits n := by
  rcases Nat.lt_or_eq_of_le small with less | rfl
  · have fine : shiftFor (inUnits n) 1 ≤ 1074 := shiftFor_le (a := 53) less (by decide)
    have multiple : ∀ s e : Nat, s ≤ e → 2 ^ s ∣ n <<< e := fun s e le => by
      rw [Nat.shiftLeft_eq]
      exact Nat.dvd_mul_left_of_dvd (Nat.pow_dvd_pow 2 le) n
    exact rounded_of_dvd (multiple _ 1074 fine)
  · decide +kernel

theorem Double.roundedUnits_small {v : Int} (small : v.natAbs ≤ 2 ^ 53) :
    roundedUnits (v * one) = v * one := by
  have size : (v * one).natAbs = inUnits v.natAbs := by
    rw [Int.natAbs_mul, Int.natAbs_natCast, inUnits_eq]
  rw [roundedUnits, size, rounded_inUnits small, ← size]
  split <;> omega

namespace Integer

variable {a b : Integer}

/-- Whether the integer is itself a double. -/
def Exact (n : Integer) : Prop := n.toDouble.units = n.units

/-- Two integers that doubles tell apart if they differ: two doubles, or any two of which one is below `2⁵³` in
absolute value. -/
def Precise (a b : Integer) : Prop :=
  a.Exact ∧ b.Exact ∨ a.value.natAbs < 2 ^ 53 ∨ b.value.natAbs < 2 ^ 53

theorem Precise.symm (h : a.Precise b) : b.Precise a :=
  h.imp And.symm Or.symm

theorem exact_of_small (small : a.value.natAbs ≤ 2 ^ 53) : a.Exact :=
  a.units_toDouble.trans (roundedUnits_small small)

theorem units_le_iff : a.units ≤ b.units ↔ a.value ≤ b.value :=
  Int.mul_le_mul_right (Int.natCast_pos.2 Double.one_pos)

theorem units_lt_iff : a.units < b.units ↔ a.value < b.value :=
  Int.mul_lt_mul_right (Int.natCast_pos.2 Double.one_pos)

/-- **The order of integers is kept.** -/
theorem toDouble_le (le : a.value ≤ b.value) : a.toDouble.units ≤ b.toDouble.units := by
  rw [units_toDouble, units_toDouble]
  exact roundedUnits_mono (units_le_iff.2 le)

/-- **Of two integers that doubles tell apart the greater has the greater double.** -/
theorem toDouble_lt (precise : a.Precise b) (less : a.value < b.value) :
    a.toDouble.units < b.toDouble.units := by
  have step : ∀ {v w : Int}, v < w → v * one < w * one := fun less =>
    Int.mul_lt_mul_of_pos_right less (Int.natCast_pos.2 Double.one_pos)
  have steps : ∀ {v w : Int}, v ≤ w → v * one ≤ w * one := fun le =>
    Int.mul_le_mul_of_nonneg_right le (Int.natCast_nonneg _)
  obtain ⟨left, right⟩ | small | small := precise
  · rw [left, right]
    exact units_lt_iff.2 less
  · -- The number after `a` is a double, and rounding `b` does not go below it.
    have next : roundedUnits ((a.value + 1) * one) = (a.value + 1) * one :=
      roundedUnits_small (by omega)
    have own : a.toDouble.units = a.value * one := exact_of_small small.le
    calc a.toDouble.units = a.value * one := own
      _ < (a.value + 1) * one := step (Int.lt_succ _)
      _ = roundedUnits ((a.value + 1) * one) := next.symm
      _ ≤ roundedUnits b.units := roundedUnits_mono (steps less)
      _ = b.toDouble.units := b.units_toDouble.symm
  · have next : roundedUnits ((b.value - 1) * one) = (b.value - 1) * one :=
      roundedUnits_small (by omega)
    have own : b.toDouble.units = b.value * one := exact_of_small small.le
    calc a.toDouble.units = roundedUnits a.units := a.units_toDouble
      _ ≤ roundedUnits ((b.value - 1) * one) := roundedUnits_mono (steps (by omega))
      _ = (b.value - 1) * one := next
      _ < b.value * one := step (by omega)
      _ = b.toDouble.units := own.symm

theorem toDouble_lt_iff (precise : a.Precise b) :
    a.toDouble.units < b.toDouble.units ↔ a.value < b.value := by
  refine ⟨fun less => ?_, toDouble_lt precise⟩
  exact Int.not_le.1 fun le => Int.not_le.2 less (toDouble_le le)

theorem toDouble_eq_iff (precise : a.Precise b) :
    a.toDouble.units = b.toDouble.units ↔ a.value = b.value := by
  have less := toDouble_lt_iff precise
  have more := toDouble_lt_iff precise.symm
  omega

end Integer

/-! ## Comparisons and rules -/

/-- Whether two values compare as two whole numbers do. -/
structure Json.CompareAs (a b : Json) (x y : Int) : Prop where
  equal : a.equal b = true ↔ x = y
  lessThan : a.lessThan b = true ↔ x < y
  greaterThan : a.greaterThan b = true ↔ y < x
  atLeast : a.atLeast b = true ↔ y ≤ x
  atMost : a.atMost b = true ↔ x ≤ y

namespace Json

variable {a b : Json} {x y v w : Int}

/-- Numbers compare as their doubles. -/
theorem compareAs_units {d e : Double} (left : a.number? = some d) (right : b.number? = some e) :
    a.CompareAs b d.units e.units := by
  have compared := compare?_numbers left right
  refine ⟨?_, ?_, ?_, ?_, ?_⟩
  · simp [equal, left, right, Double.equal]
  · rw [lessThan, compared]
    simp [Int.compare_eq_lt]
  · rw [greaterThan, compared]
    simp [Int.compare_eq_gt]
  · rw [atLeast, compared]
    simp only [beq_iff_eq, Bool.or_eq_true, Option.some.injEq, Int.compare_eq_gt, Int.compare_eq_eq]
    omega
  · rw [atMost, compared]
    simp only [beq_iff_eq, Bool.or_eq_true, Option.some.injEq, Int.compare_eq_lt, Int.compare_eq_eq]
    omega

/-- Numbers that are in the same order compare in the same way. -/
theorem CompareAs.congr (h : a.CompareAs b x y) (less : x < y ↔ v < w) (same : x = y ↔ v = w) :
    a.CompareAs b v w where
  equal := h.equal.trans same
  lessThan := h.lessThan.trans less
  greaterThan := h.greaterThan.trans (by omega)
  atLeast := h.atLeast.trans (by omega)
  atMost := h.atMost.trans (by omega)

/-- **Integers that doubles tell apart compare as they are.** -/
theorem compareAs_value {a b : Integer} (precise : a.Precise b) :
    (int a).CompareAs (.int b) a.value b.value :=
  (compareAs_units rfl rfl).congr (Integer.toDouble_lt_iff precise) (Integer.toDouble_eq_iff precise)

end Json

namespace StandardRule

variable {a : Integer} {list : List Integer}

theorem any_equal_iff (precise : ∀ c ∈ list, a.Precise c) :
    ((list.map Json.int).any fun item => (Json.int a).equal item) = true ↔
      a.value ∈ list.map (·.value) := by
  rw [List.any_map, List.any_eq_true, List.mem_map]
  refine exists_congr fun c => and_congr_right fun mem => ?_
  exact (Json.compareAs_value (precise c mem)).equal.trans eq_comm

/-- Candidates that are integers are the parameters themselves. -/
theorem candidates_map_int (list : List Integer) :
    candidates (list.map Json.int) = list.map Json.int := by
  rcases list with - | ⟨c, - | ⟨d, rest⟩⟩ <;> rfl

theorem oneOf_test_int (precise : ∀ c ∈ list, a.Precise c) :
    oneOf.test (.int a) (list.map .int) = true ↔ a.value ∈ list.map (·.value) := by
  simp only [oneOf, candidates_map_int]
  exact any_equal_iff precise

theorem has_test_int (precise : ∀ c ∈ list, a.Precise c) (more : List Json) :
    has.test (.arr (list.map .int)) (.int a :: more) = true ↔ a.value ∈ list.map (·.value) := by
  rw [has_test_arr, ← any_equal_iff precise]
  rfl

end StandardRule

open StandardRule in
/-- **Integers are compared as the doubles nearest to them**: two are equal if they have the same nearest double,
and otherwise in the order of these, which is never the opposite of their own. So integers are compared, and
`is`, `gt`, `lt`, `al`, `am`, `between`, `in` and `has` decide them, as the whole numbers that they are, whenever
doubles tell them apart: if both are doubles themselves, as all up to `2⁵³` are, or if one of the two is below
`2⁵³` in absolute value. -/
theorem integers_compare_as_nearest_doubles (a b : Integer) :
    (Json.int a).CompareAs (.int b) a.toDouble.units b.toDouble.units ∧
    (∀ d : Double, (a.units - a.toDouble.units).natAbs ≤ (a.units - d.units).natAbs) ∧
    (a.value = b.value → (Json.int a).equal (.int b) = true) ∧
    (a.value < b.value → (Json.int a).atMost (.int b) = true ∧ (Json.int a).greaterThan (.int b) = false) ∧
    (a.value.natAbs ≤ 2 ^ 53 → a.Exact) ∧
    (a.Precise b → (Json.int a).CompareAs (.int b) a.value b.value ∧
      ∀ more, (is.test (.int a) (.int b :: more) = true ↔ a.value = b.value) ∧
        (gt.test (.int a) (.int b :: more) = true ↔ b.value < a.value) ∧
        (lt.test (.int a) (.int b :: more) = true ↔ a.value < b.value) ∧
        (al.test (.int a) (.int b :: more) = true ↔ b.value ≤ a.value) ∧
        (am.test (.int a) (.int b :: more) = true ↔ a.value ≤ b.value) ∧
        ∀ c : Integer, a.Precise c →
          (between.test (.int a) (.int b :: .int c :: more) = true ↔
            b.value ≤ a.value ∧ a.value ≤ c.value)) ∧
    ∀ list : List Integer, (∀ c ∈ list, a.Precise c) →
      (oneOf.test (.int a) (list.map .int) = true ↔ a.value ∈ list.map (·.value)) ∧
      (oneOf.test (.int a) [.arr (list.map .int)] = true ↔ a.value ∈ list.map (·.value)) ∧
      ∀ more, (has.test (.arr (list.map .int)) (.int a :: more) = true ↔
        a.value ∈ list.map (·.value)) := by
  have doubles : (Json.int a).CompareAs (.int b) a.toDouble.units b.toDouble.units :=
    Json.compareAs_units rfl rfl
  refine ⟨doubles, fun d => ?_, fun same => ?_, fun less => ⟨?_, ?_⟩, Integer.exact_of_small,
    fun precise => ?_, fun list precise => ⟨oneOf_test_int precise, any_equal_iff precise,
      has_test_int precise⟩⟩
  · rw [a.units_toDouble]
    exact roundedUnits_nearest d a.units
  · rw [doubles.equal, a.units_toDouble, b.units_toDouble, Integer.units, Integer.units, same]
  · exact doubles.atMost.2 (Integer.toDouble_le less.le)
  · rw [← Bool.not_eq_true, doubles.greaterThan]
    exact Int.not_lt.2 (Integer.toDouble_le less.le)
  · have values := Json.compareAs_value precise
    refine ⟨values, fun more => ⟨values.equal, values.greaterThan, values.lessThan, values.atLeast,
      values.atMost, fun c precise' => ?_⟩⟩
    exact Bool.and_eq_true_iff.trans (and_congr values.atLeast (Json.compareAs_value precise').atMost)

open StandardRule in
/-- The greatest integer is no double, but it is told apart from one that is below `2⁵³` in absolute value. -/
theorem integers_compare_as_nearest_doubles_far :
    let low : Integer := ⟨-9007199254740991, by decide, by decide⟩
    let high : Integer := ⟨18446744073709551615, by decide, by decide⟩
    low.Precise high ∧ ¬ high.Exact ∧ low.value < high.value ∧ lt.test (.int low) [.int high] = true ∧
      (∀ c ∈ [high, low], low.Precise c) ∧ oneOf.test (.int low) [.int high, .int low] = true := by
  intro low high
  have precise : low.Precise high := .inr (.inl (by decide))
  have each : ∀ c ∈ [high, low], low.Precise c := fun c _ => .inr (.inl (by decide))
  obtain ⟨-, -, -, -, -, told, among⟩ := integers_compare_as_nearest_doubles low high
  obtain ⟨-, rules⟩ := told precise
  have less : low.value < high.value := by decide
  have inexact : high.toDouble.units ≠ high.units := by decide +kernel
  exact ⟨precise, inexact, less, (rules []).2.2.1.2 less, each, (among [high, low] each).1.2 (by decide)⟩

open StandardRule in
/-- Beyond `2⁵³` neighbours can share their nearest double: they are found equal, and neither is less. -/
theorem neighbours_share_double :
    let low : Integer := ⟨9007199254740992, by decide, by decide⟩
    let high : Integer := ⟨9007199254740993, by decide, by decide⟩
    low.value < high.value ∧ (Json.int low).equal (.int high) = true ∧
      (Json.int low).lessThan (.int high) = false ∧ (Json.int low).atLeast (.int high) = true ∧
      is.test (.int low) [.int high] = true ∧ lt.test (.int low) [.int high] = false := by
  decide +kernel

end Criteria
