import Criteria.Proofs.Number.Nearest
import Criteria.Proofs.Value.Equality
import Criteria.Session.Script

/-!
# The order of values

Two numbers and two strings are comparable, and nothing else is. How two comparable values compare is one of
three answers, which turns around when they are exchanged and is equality just if they are equal
(`Json.compare?_of_comparable`). All the laws of the comparisons and of the rules that are made of them come from
this one fact and from equality being an equivalence that the order respects (`Json.compare?_congr`).
-/

namespace Criteria
set_option autoImplicit false

namespace Json

variable {a b c : Json} {x y : Double}

/-- Two numbers or two strings. -/
def Comparable (a b : Json) : Prop :=
  a.typeName = b.typeName ∧ (a.typeName = "number" ∨ a.typeName = "string")

instance (a b : Json) : Decidable (a.Comparable b) :=
  inferInstanceAs (Decidable (a.typeName = b.typeName ∧ (a.typeName = "number" ∨ a.typeName = "string")))

/-- The exact value of a number, counted in units of `2⁻¹⁰⁷⁴`. -/
def units? : Json → Option Int
  | int n => some n.units
  | float d => some d.units
  | _ => none

/-! ## The answers of a comparison -/

theorem comparable_iff : a.Comparable b ↔
    (∃ x y, a.number? = some x ∧ b.number? = some y) ∨ ∃ s t, a = .str s ∧ b = .str t := by
  cases a <;> cases b <;> simp [Comparable, typeName, number?]

theorem compare?_numbers (left : a.number? = some x) (right : b.number? = some y) :
    compare? a b = some (compare x.units y.units) := by
  cases a <;> cases b <;> simp_all [compare?, number?, Double.compare]

theorem compare?_incomparable (h : ¬ a.Comparable b) : compare? a b = none := by
  cases a <;> cases b <;> first | rfl | exact absurd (by simp [Comparable, typeName]) h

/-- Two strings compare as one of three answers. -/
theorem compare?_strings (s t : String) : ∃ o, compare? (.str s) (.str t) = some o ∧
    (o = .lt ↔ s < t) ∧ (o = .eq ↔ s = t) ∧ (o = .gt ↔ t < s) := by
  refine ⟨_, rfl, ?_⟩
  by_cases less : s < t
  · have more : ¬ t < s := fun back => String.lt_irrefl s (String.lt_trans less back)
    have other : s ≠ t := fun same => String.lt_irrefl t (same ▸ less)
    simp [less, more, other]
  · by_cases same : s = t
    · subst same
      rw [if_neg less, if_pos rfl]
      exact ⟨iff_of_false nofun less, iff_of_true rfl rfl, iff_of_false nofun less⟩
    · have more : t < s := Decidable.byContradiction fun notMore =>
        same (String.le_antisymm (String.not_lt.1 notMore) (String.not_lt.1 less))
      simp [less, same, more]

/-- **Comparable values compare as one of three answers**, which turns around with the values, and they are
equal just if it says so. -/
theorem compare?_of_comparable (h : a.Comparable b) : ∃ o : Ordering,
    compare? a b = some o ∧ compare? b a = some o.swap ∧ (a.equal b = true ↔ o = .eq) := by
  obtain ⟨x, y, left, right⟩ | ⟨s, t, rfl, rfl⟩ := comparable_iff.1 h
  · refine ⟨_, compare?_numbers left right, ?_, ?_⟩
    · rw [compare?_numbers right left, Int.compare_swap]
    · rw [equal_iff, Int.compare_eq_eq]
      constructor
      · rintro (⟨x', y', left', right', units⟩ | ⟨impossible, -⟩)
        · obtain rfl := Option.some.inj (left.symm.trans left')
          obtain rfl := Option.some.inj (right.symm.trans right')
          exact units
        · cases left.symm.trans impossible
      · exact fun units => .inl ⟨x, y, left, right, units⟩
  · obtain ⟨o, compared, less, same, more⟩ := compare?_strings s t
    obtain ⟨back, turned, less', same', more'⟩ := compare?_strings t s
    refine ⟨o, compared, turned.trans (congrArg some ?_), ?_⟩
    · cases o with
      | lt => exact more'.2 (less.1 rfl)
      | eq => exact same'.2 (same.1 rfl).symm
      | gt => exact less'.2 (more.1 rfl)
    · rw [same]
      simp [equal, number?, Json.same]

/-! ## Laws of the comparisons -/

theorem lessThan_eq_greaterThan (a b : Json) : a.lessThan b = b.greaterThan a := by
  by_cases h : a.Comparable b
  · obtain ⟨o, compared, turned, -⟩ := compare?_of_comparable h
    rw [lessThan, greaterThan, compared, turned]
    cases o <;> rfl
  · have back : ¬ b.Comparable a := fun back => h ⟨back.1.symm, back.1 ▸ back.2⟩
    rw [lessThan, greaterThan, compare?_incomparable h, compare?_incomparable back]
    rfl

/-- Just one of the three holds of comparable values, and the two others are made of them. -/
theorem trichotomy (h : a.Comparable b) :
    [a.lessThan b, a.equal b, a.greaterThan b].count true = 1 ∧
      a.atLeast b = (a.greaterThan b || a.equal b) ∧ a.atMost b = (a.lessThan b || a.equal b) := by
  obtain ⟨o, compared, -, same⟩ := compare?_of_comparable h
  have same : a.equal b = (o == .eq) := by
    rw [Bool.eq_iff_iff, same, beq_iff_eq]
  rw [lessThan, greaterThan, atLeast, atMost, compared, same]
  cases o <;> decide

theorem incomparable (h : ¬ a.Comparable b) : a.lessThan b = false ∧ a.greaterThan b = false ∧
    a.atLeast b = false ∧ a.atMost b = false := by
  rw [lessThan, greaterThan, atLeast, atMost, compare?_incomparable h]
  exact ⟨rfl, rfl, rfl, rfl⟩

theorem atMost_iff : a.atMost b = true ↔
    (∃ x y, a.number? = some x ∧ b.number? = some y ∧ x.units ≤ y.units) ∨
      ∃ s t, a = .str s ∧ b = .str t ∧ s ≤ t := by
  have answer : ∀ {o}, compare? a b = some o → (a.atMost b = true ↔ o ≠ .gt) := by
    intro o compared
    rw [atMost, compared]
    cases o <;> decide
  constructor
  · intro most
    have h : a.Comparable b := Decidable.byContradiction fun h => by
      rw [(incomparable h).2.2.2] at most
      cases most
    obtain ⟨x, y, left, right⟩ | ⟨s, t, rfl, rfl⟩ := comparable_iff.1 h
    · exact .inl ⟨x, y, left, right, Int.compare_ne_gt.1 ((answer (compare?_numbers left right)).1 most)⟩
    · obtain ⟨o, compared, -, -, more⟩ := compare?_strings s t
      exact .inr ⟨s, t, rfl, rfl, String.not_lt.1 fun back => (answer compared).1 most (more.2 back)⟩
  · rintro (⟨x, y, left, right, le⟩ | ⟨s, t, rfl, rfl, le⟩)
    · exact (answer (compare?_numbers left right)).2 (Int.compare_ne_gt.2 le)
    · obtain ⟨o, compared, -, -, more⟩ := compare?_strings s t
      exact (answer compared).2 fun back => String.not_lt.2 le (more.1 back)

theorem atMost_trans (first : a.atMost b = true) (second : b.atMost c = true) :
    a.atMost c = true := by
  rw [atMost_iff] at first second ⊢
  obtain ⟨x, y, left, middle, le⟩ | ⟨s, t, rfl, rfl, le⟩ := first
  · obtain ⟨y', z, middle', right, le'⟩ | ⟨s, t, rfl, -⟩ := second
    · obtain rfl := Option.some.inj (middle.symm.trans middle')
      exact .inl ⟨x, z, left, right, le.trans le'⟩
    · cases middle
  · obtain ⟨y, z, impossible, -⟩ | ⟨t', u, same, rfl, le'⟩ := second
    · cases impossible
    · obtain rfl := str.inj same
      exact .inr ⟨s, u, rfl, rfl, String.le_trans le le'⟩

/-- The double of a number is what its exact value is rounded to. -/
theorem number?_of_units? {u : Int} (h : a.units? = some u) :
    ∃ x, a.number? = some x ∧ x.units = Double.roundedUnits u := by
  cases a with
  | int n =>
    cases h
    exact ⟨n.toDouble, rfl, n.units_toDouble⟩
  | float d =>
    cases h
    exact ⟨d, rfl, d.roundedUnits_units.symm⟩
  | _ => cases h

/-- **A number is never found greater than one that is greater.** -/
theorem not_greaterThan_of_units {u v : Int} (left : a.units? = some u) (right : b.units? = some v)
    (le : u ≤ v) : a.greaterThan b = false := by
  obtain ⟨x, denoted, units⟩ := number?_of_units? left
  obtain ⟨y, denoted', units'⟩ := number?_of_units? right
  have kept : x.units ≤ y.units := units ▸ units' ▸ Double.roundedUnits_mono le
  rw [greaterThan, compare?_numbers denoted denoted']
  have notMore := Int.compare_ne_gt.2 kept
  simpa using notMore

/-! ## Equal values -/

theorem typeName_of_equal (h : a.equal b = true) : a.typeName = b.typeName := by
  obtain ⟨x, y, left, right, -⟩ | ⟨-, -, same⟩ := equal_iff.1 h
  · rw [typeName_of_number? left, typeName_of_number? right]
  · exact typeName_of_same same

/-- A string is equal to itself only. -/
theorem eq_of_equal_str {s : String} (h : (str s).equal b = true) : b = .str s := by
  obtain ⟨x, y, impossible, -⟩ | ⟨-, -, same⟩ := equal_iff.1 h
  · cases impossible
  · cases b <;> simp_all [Json.same]

/-- **Equal values compare alike**, on the left and, as comparisons turn around, on the right. -/
theorem compare?_congr (h : a.equal b = true) (c : Json) : compare? a c = compare? b c := by
  have types := typeName_of_equal h
  by_cases comparable : a.Comparable c
  · obtain ⟨x, z, left, right⟩ | ⟨s, t, rfl, rfl⟩ := comparable_iff.1 comparable
    · obtain ⟨x', y, left', right', units⟩ | ⟨impossible, -⟩ := equal_iff.1 h
      · rw [compare?_numbers left' right, compare?_numbers right' right, units]
      · cases left.symm.trans impossible
    · rw [eq_of_equal_str h]
  · have other : ¬ b.Comparable c := fun comparable' => comparable <| by
      rwa [Comparable, types]
    rw [compare?_incomparable comparable, compare?_incomparable other]

theorem compare?_congr_right (h : a.equal b = true) (c : Json) : compare? c a = compare? c b := by
  have turned : ∀ d : Json, compare? c d = (compare? d c).map Ordering.swap := by
    intro d
    by_cases comparable : d.Comparable c
    · obtain ⟨o, forth, back, -⟩ := compare?_of_comparable comparable
      rw [forth, back]
      rfl
    · have other : ¬ c.Comparable d := fun back => comparable ⟨back.1.symm, back.1 ▸ back.2⟩
      rw [compare?_incomparable comparable, compare?_incomparable other]
      rfl
  rw [turned, turned, compare?_congr h]

theorem isDefined_eq (a : Json) : a.isDefined = (a.typeName != "null") := by
  cases a <;> rfl

theorem equal_congr (h : a.equal b = true) (c : Json) : a.equal c = b.equal c :=
  Bool.eq_iff_iff.2 ⟨equal_trans (equal_symm h), equal_trans h⟩

end Json

/-- **No comparison tells equal values apart.** -/
theorem Comparison.holds_congr {a b : Json} (h : a.equal b = true) (comparison : Comparison) (c : Json) :
    comparison.holds a c = comparison.holds b c ∧ comparison.holds c a = comparison.holds c b := by
  have left := Json.compare?_congr h c
  have right := Json.compare?_congr_right h c
  have types := Json.typeName_of_equal h
  cases comparison with
  | equal =>
    refine ⟨Json.equal_congr h c, ?_⟩
    rw [holds, holds, Json.equal_comm c, Json.equal_comm c]
    exact Json.equal_congr h c
  | greaterThan =>
    simp only [holds, Json.greaterThan, left, right]
    exact ⟨trivial, trivial⟩
  | lessThan =>
    simp only [holds, Json.lessThan, left, right]
    exact ⟨trivial, trivial⟩
  | atLeast =>
    simp only [holds, Json.atLeast, left, right]
    exact ⟨trivial, trivial⟩
  | atMost =>
    simp only [holds, Json.atMost, left, right]
    exact ⟨trivial, trivial⟩
  | isDefined =>
    refine ⟨?_, rfl⟩
    rw [holds, holds, Json.isDefined_eq, Json.isDefined_eq, types]
  | hasType =>
    constructor
    · cases c <;> simp only [holds, Json.hasType, types]
    · -- A name of a type is a string, and a string is equal to itself only.
      cases b with
      | str t => rw [Json.eq_of_equal_str (Json.equal_symm h)]
      | _ =>
        cases a with
        | str s => cases Json.eq_of_equal_str h
        | _ => rfl

namespace StandardRule

open Json

/-! ## Rules that compare -/

/-- Comparable values satisfy one of two opposed rules, and other values none. -/
theorem greaterThan_iff {a b : Json} :
    a.greaterThan b = true ↔ a.Comparable b ∧ a.atMost b = false := by
  by_cases h : a.Comparable b
  · obtain ⟨o, compared, -⟩ := compare?_of_comparable h
    rw [greaterThan, atMost, compared]
    cases o <;> simp [h]
  · simp [h, incomparable h]

theorem lessThan_iff {a b : Json} :
    a.lessThan b = true ↔ a.Comparable b ∧ a.atLeast b = false := by
  by_cases h : a.Comparable b
  · obtain ⟨o, compared, -⟩ := compare?_of_comparable h
    rw [lessThan, atLeast, compared]
    cases o <;> simp [h]
  · simp [h, incomparable h]

/-- A number is equal to a value just if it is at least and at most this. -/
theorem equal_number_iff {a b : Json} (number : a.typeName = "number") :
    a.equal b = true ↔ a.atLeast b = true ∧ a.atMost b = true := by
  by_cases h : a.Comparable b
  · obtain ⟨o, compared, -, same⟩ := compare?_of_comparable h
    rw [same, atLeast, atMost, compared]
    cases o <;> simp
  · have differ : ¬ a.equal b = true := fun same => h ⟨typeName_of_equal same, .inl number⟩
    simp [differ, incomparable h]

theorem typeName_of_length? {v n : Json} (h : length? v = some n) : n.typeName = "number" := by
  cases v with
  | str | arr | obj =>
    simp only [length?, Option.map_eq_some_iff] at h
    obtain ⟨i, -, rfl⟩ := h
    rfl
  | _ => cases h

theorem length_test_iff (v : Json) (params : List Json) : length.test v params = true ↔
    minLength.test v params = true ∧ maxLength.test v params = true := by
  simp only [length, minLength, maxLength, lengthTest]
  cases found : length? v with
  | none => simp
  | some n => exact equal_number_iff (typeName_of_length? found)

/-- An array contains what is one of its items. -/
theorem has_test_arr (items params : List Json) :
    has.test (.arr items) params = oneOf.test (param params 0) [.arr items] := by
  simp only [has, oneOf, contains, candidates]
  congr 1
  funext item
  exact equal_comm _ _

end StandardRule

open StandardRule in
/-- **The comparisons form one consistent order.** Of two numbers or two strings, just one is less than, equal
to or greater than the other, `atLeast` and `atMost` join two of these, and other pairs are not ordered at all.
The order turns around with its operands, is transitive, orders strings by code point and never puts a number
above one that is exactly greater, whatever kinds of numbers they are. Equality is an equivalence, and no
comparison tells equal values apart. So `gt` and `lt` are opposed to `am` and `al` on comparable values,
`length` is `minLength` and `maxLength` together, and an array has what is in it. -/
theorem comparisons_consistent (a b c : Json) :
    (a.Comparable b →
      [a.lessThan b, a.equal b, a.greaterThan b].count true = 1 ∧
      a.atLeast b = (a.greaterThan b || a.equal b) ∧ a.atMost b = (a.lessThan b || a.equal b)) ∧
    (¬ a.Comparable b → a.lessThan b = false ∧ a.greaterThan b = false ∧
      a.atLeast b = false ∧ a.atMost b = false) ∧
    a.lessThan b = b.greaterThan a ∧
    (a.atMost b = true → b.atMost c = true → a.atMost c = true) ∧
    (∀ s t, (Json.str s).lessThan (.str t) = true ↔
      List.Lex (fun x y : Char => x.toNat < y.toNat) s.toList t.toList) ∧
    (∀ u v, a.units? = some u → b.units? = some v → u < v → a.greaterThan b = false) ∧
    Equivalence (fun a b : Json => a.equal b = true) ∧
    (a.equal b = true → ∀ comparison : Comparison,
      comparison.holds a c = comparison.holds b c ∧ comparison.holds c a = comparison.holds c b) ∧
    (∀ params, (gt.test a params = true ↔
        a.Comparable (param params 0) ∧ am.test a params = false) ∧
      (lt.test a params = true ↔ a.Comparable (param params 0) ∧ al.test a params = false) ∧
      (length.test a params = true ↔
        minLength.test a params = true ∧ maxLength.test a params = true)) ∧
    ∀ items params, has.test (.arr items) params = oneOf.test (param params 0) [.arr items] := by
  refine ⟨Json.trichotomy, Json.incomparable, Json.lessThan_eq_greaterThan a b, Json.atMost_trans,
    fun s t => ?_, fun u v left right less => Json.not_greaterThan_of_units left right less.le,
    Json.equal_equivalence, fun same comparison => comparison.holds_congr same c,
    fun params => ⟨greaterThan_iff, lessThan_iff, length_test_iff a params⟩, has_test_arr⟩
  obtain ⟨o, compared, less, -⟩ := Json.compare?_strings s t
  rw [Json.lessThan, compared]
  exact Iff.trans (by simp) less

/-- The integer `2⁵³ + 1` is above the double `2⁵³` but equal to it, and so no comparison with the integer `2⁵³`
tells them apart. -/
theorem comparisons_consistent_rounded :
    let a : Json := .int ⟨9007199254740993, by decide, by decide⟩
    let b : Json := .float ⟨false, 0x10000000000000, 1075, by decide, by decide, by decide⟩
    let c : Json := .int ⟨9007199254740992, by decide, by decide⟩
    a.Comparable b ∧ [a.lessThan b, a.equal b, a.greaterThan b].count true = 1 ∧
      (∃ u v, b.units? = some u ∧ a.units? = some v ∧ u < v ∧ b.greaterThan a = false) ∧
      a.equal b = true ∧ (∀ comparison : Comparison, comparison.holds a c = comparison.holds b c) ∧
      a.atMost b = true ∧ b.atMost c = true ∧ a.atMost c = true ∧
      ¬ a.Comparable (.str "") ∧ a.atLeast (.str "") = false := by
  intro a b c
  have comparable : a.Comparable b := by decide
  have same : a.equal b = true := by decide +kernel
  have below : a.atMost b = true ∧ b.atMost c = true := by decide +kernel
  have other : ¬ a.Comparable (.str "") := by decide
  obtain ⟨three, -, -, chain, -, -, -, alike, -⟩ := comparisons_consistent a b c
  obtain ⟨-, -, -, -, -, exact_, -⟩ := comparisons_consistent b a c
  obtain ⟨-, none, -⟩ := comparisons_consistent a (.str "") c
  refine ⟨comparable, (three comparable).1, ?_, same, fun comparison => (alike same comparison).1, below.1,
    below.2, chain below.1 below.2, other, (none other).2.2.1⟩
  have less : Double.units ⟨false, 0x10000000000000, 1075, by decide, by decide, by decide⟩ <
      Integer.units ⟨9007199254740993, by decide, by decide⟩ := by decide +kernel
  exact ⟨_, _, rfl, rfl, less, exact_ _ _ rfl rfl less⟩

end Criteria
