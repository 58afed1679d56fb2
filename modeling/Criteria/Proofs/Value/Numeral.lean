import Criteria.Json.Text
import Criteria.Proofs.Number.Nearest

/-!
# Whole numbers in messages

The canonical numeral of an integer is its digits without a leading zero, behind a minus sign if the integer is
negative (`IsNumeral`); there is one for each integer (`isNumeral_iff`). A JSON number that denotes an integer
below `10 ^ 21` in absolute value reads as this numeral, whether it is stored as an integer or as a double, and
arrays that differ in nothing but how such numbers are stored read the same (`whole_numbers_read_canonically`).
The one exception is the double `-0.0`, whose sign is written (`minus_zero_signed`).
-/

namespace Criteria
set_option autoImplicit false

/-! ## Canonical numerals -/

/-- Digits that spell a natural number without a leading zero. -/
structure IsDigits (digits : List Char) (n : Nat) : Prop where
  filled : digits ≠ []
  digit : ∀ c ∈ digits, c.isDigit = true
  leading : digits.head? = some '0' → digits = ['0']
  value : Nat.ofDigitChars 10 digits 0 = n

/-- The canonical numeral of an integer: its digits, and a minus sign before them just if it is negative. -/
def IsNumeral (text : String) (n : Int) : Prop :=
  ∃ digits, text.toList = (if n < 0 then ['-'] else []) ++ digits ∧ IsDigits digits n.natAbs

theorem toDigits_of_isDigit {c : Char} (digit : c.isDigit = true) :
    c.toNat - '0'.toNat < 10 ∧ Nat.toDigits 10 (c.toNat - '0'.toNat) = [c] := by
  rw [show '0'.toNat = 48 from rfl]
  have range : 48 ≤ c.toNat ∧ c.toNat ≤ 57 := by simpa [Char.isDigit, UInt32.le_iff_toNat_le] using digit
  have small : c.toNat - 48 < 10 := by omega
  have same : (c.toNat - 48).digitChar = c := by
    refine Char.toNat_inj.1 ?_
    rw [Nat.toNat_digitChar_of_lt_ten small]
    omega
  exact ⟨small, by rw [Nat.toDigits_of_lt_base small, same]⟩

/-- Digits that come behind those of a positive number are the last digits of what they make of it. -/
theorem toDigits_ofDigitChars {cs : List Char} (digits : ∀ c ∈ cs, c.isDigit = true) :
    ∀ {n : Nat}, 0 < n → Nat.toDigits 10 (Nat.ofDigitChars 10 cs n) = Nat.toDigits 10 n ++ cs := by
  induction cs with
  | nil => simp
  | cons c cs ih =>
    intro n positive
    obtain ⟨small, spelt⟩ := toDigits_of_isDigit (digits c List.mem_cons_self)
    have next : Nat.toDigits 10 (10 * n + (c.toNat - '0'.toNat)) = Nat.toDigits 10 n ++ [c] := by
      rw [← Nat.toDigits_append_toDigits (by decide) positive small, spelt]
    rw [Nat.ofDigitChars_cons, ih (fun d mem => digits d (List.mem_cons_of_mem c mem)) (by omega), next,
      List.append_assoc, List.singleton_append]

/-- No zero leads the digits of a positive number. -/
theorem head?_toDigits {n : Nat} (positive : 0 < n) : (Nat.toDigits 10 n).head? ≠ some '0' := by
  induction n using Nat.strongRecOn with
  | ind n ih =>
    rcases Nat.lt_or_ge n 10 with small | large
    · rw [Nat.toDigits_of_lt_base small, List.head?_cons]
      intro zero
      have code := congrArg Char.toNat (Option.some.inj zero)
      rw [Nat.toNat_digitChar_of_lt_ten small, show '0'.toNat = 48 from rfl] at code
      omega
    · obtain ⟨c, cs, front⟩ := List.exists_cons_of_ne_nil (Nat.toDigits_ne_nil (n := n / 10) (b := 10))
      have leading := ih (n / 10) (by omega) (by omega)
      rw [front] at leading
      rwa [Nat.toDigits_of_base_le (by decide) large, front]

theorem isDigits_toDigits (n : Nat) : IsDigits (Nat.toDigits 10 n) n where
  filled := Nat.toDigits_ne_nil
  digit c mem := Nat.isDigit_of_mem_toDigits (by decide) (by decide) mem
  leading first := by
    rcases Nat.eq_zero_or_pos n with rfl | positive
    · rfl
    · exact absurd first (head?_toDigits positive)
  value := Nat.ofDigitChars_toDigits (by decide) (by decide)

/-- **The digits of a number are unique.** -/
theorem isDigits_iff {digits : List Char} {n : Nat} : IsDigits digits n ↔ digits = Nat.toDigits 10 n := by
  refine ⟨fun h => ?_, ?_⟩
  · obtain ⟨c, cs, rfl⟩ := List.exists_cons_of_ne_nil h.filled
    rcases eq_or_ne c '0' with rfl | first
    · obtain rfl : cs = [] := (List.cons.inj (h.leading rfl)).2
      rw [← h.value]
      rfl
    · obtain ⟨-, spelt⟩ := toDigits_of_isDigit (h.digit c List.mem_cons_self)
      have positive : 0 < c.toNat - '0'.toNat := by
        refine Nat.pos_of_ne_zero fun zero => first ?_
        rw [zero, Nat.toDigits_zero] at spelt
        exact (List.cons.inj spelt).1.symm
      have rest := toDigits_ofDigitChars (fun d mem => h.digit d (List.mem_cons_of_mem c mem)) positive
      rw [← h.value, Nat.ofDigitChars_cons, Nat.mul_zero, Nat.zero_add, rest, spelt, List.singleton_append]
  · rintro rfl
    exact isDigits_toDigits n

/-- **An integer has one canonical numeral.** -/
theorem isNumeral_iff {text : String} {n : Int} :
    IsNumeral text n ↔ text = (if n < 0 then "-" else "") ++ n.natAbs.repr := by
  have spelt : ((if n < 0 then "-" else "") ++ n.natAbs.repr).toList =
      (if n < 0 then ['-'] else []) ++ Nat.toDigits 10 n.natAbs := by
    rw [String.toList_append, Nat.toList_repr]
    split <;> rfl
  rw [← String.toList_inj, spelt]
  constructor
  · rintro ⟨digits, here, whole⟩
    rw [here, isDigits_iff.1 whole]
  · exact fun here => ⟨_, here, isDigits_toDigits _⟩

/-! ## Doubles that are integers -/

namespace Double

variable {d : Double} {n : Int}

theorem one_ne_zero : (one : Int) ≠ 0 := Int.natCast_ne_zero.2 (Nat.ne_of_gt one_pos)

theorem magnitude_of_units (whole : d.units = n * one) : d.magnitude = n.natAbs * one := by
  have size : d.units.natAbs = d.magnitude := by
    have := d.units_eq
    omega
  rw [← size, whole, Int.natAbs_mul, Int.natAbs_natCast]

/-- Only the two zeros have no magnitude. -/
theorem eq_zero_of_magnitude (none : d.magnitude = 0) : d = zero d.negative := by
  obtain ⟨negative, significand, shift, lt, le, normal⟩ := d
  have nothing : significand = 0 := by
    rw [magnitude, Nat.shiftLeft_eq] at none
    exact (Nat.mul_eq_zero.1 none).resolve_right (Nat.ne_of_gt (Nat.two_pow_pos shift))
  subst nothing
  obtain rfl : shift = 0 := normal.resolve_right (by decide)
  rfl

/-- The sign that is stored is that of the integer, unless the number is minus zero. -/
theorem negative_iff (whole : d.units = n * one) (plain : d ≠ zero true) : d.negative = true ↔ n < 0 := by
  have size := magnitude_of_units whole
  have unit := Double.one_pos
  rcases Int.lt_trichotomy n 0 with below | rfl | above
  · refine iff_of_true ?_ below
    by_contra stored
    rw [units, if_neg stored, size] at whole
    have : n * (one : Int) < 0 := Int.mul_neg_of_neg_of_pos below (Int.natCast_pos.2 unit)
    omega
  · refine iff_of_false (fun stored => plain ?_) (Int.lt_irrefl 0)
    rw [eq_zero_of_magnitude (size.trans (Nat.zero_mul one)), stored]
  · refine iff_of_false (fun stored => ?_) (Int.not_lt.2 above.le)
    rw [units, if_pos stored, size] at whole
    have : 0 < n * (one : Int) := Int.mul_pos above (Int.natCast_pos.2 unit)
    omega

/-- An integer below the bound of a style is written digit for digit, behind the stored sign. -/
theorem text_of_units {style : NumeralStyle} (whole : d.units = n * one) (small : n.natAbs < style.exactBelow) :
    d.text style = (if d.negative then "-" else "") ++ n.natAbs.repr := by
  have size := magnitude_of_units whole
  have integral : d.isIntegral = true := by
    rw [isIntegral, size, Nat.mul_mod_left]
    rfl
  have quotient : d.magnitude / one = n.natAbs := by rw [size, Nat.mul_div_cancel _ one_pos]
  have digits : d.magnitudeText style = n.natAbs.repr := by
    rw [magnitudeText, quotient, if_pos ⟨integral, small⟩]
  rw [text, digits]

end Double

/-! ## Values that hold whole numbers -/

namespace Json

/-- Whether a value is a number that denotes an integer. -/
def Denotes : Json → Int → Prop
  | int m, n => m.value = n
  | float d, n => d.units = n * Double.one
  | _, _ => False

/-- Whether a value is a number that denotes an integer below `10 ^ 21` in absolute value, other than `-0.0`. -/
structure Whole (v : Json) (n : Int) : Prop where
  denotes : v.Denotes n
  small : n.natAbs < 1000000000000000000000
  plain : v ≠ .float (.zero true)

mutual

/-- Whether two values differ in nothing but how whole numbers are stored in them, on their own or as items of
arrays. -/
inductive Restored : Json → Json → Prop where
  | same (v : Json) : Restored v v
  | number {v w : Json} {n : Int} (first : v.Whole n) (second : w.Whole n) : Restored v w
  | arr {items others : List Json} (each : RestoredAll items others) : Restored (.arr items) (.arr others)

/-- The same for the items of two arrays. -/
inductive RestoredAll : List Json → List Json → Prop where
  | nil : RestoredAll [] []
  | cons {v w : Json} {items others : List Json} (first : Restored v w) (rest : RestoredAll items others) :
    RestoredAll (v :: items) (w :: others)

end

variable {v w : Json} {n : Int}

/-- **A whole number reads as its numeral.** -/
theorem Whole.text_eq (h : v.Whole n) : v.text = (if n < 0 then "-" else "") ++ n.natAbs.repr := by
  obtain ⟨denotes, small, plain⟩ := h
  cases v with
  | int m =>
    obtain rfl : m.value = n := denotes
    rw [text, Integer.text]
  | float d =>
    have signed := Double.negative_iff denotes fun zero => plain (congrArg float zero)
    rw [text, Double.text_of_units denotes small]
    simp only [signed]
  | null | bool | str | arr | obj => exact denotes.elim

/-- A number is no array, so its items are not joined. -/
theorem Whole.joined_eq (h : v.Whole n) : v.joined = v.text := by
  have denotes := h.denotes
  cases v with
  | int | float => rfl
  | null | bool | str | arr | obj => exact denotes.elim

theorem Whole.isDefined (h : v.Whole n) : v.isDefined = true := by
  have denotes := h.denotes
  cases v with
  | null => exact denotes.elim
  | _ => rfl

theorem Restored.isDefined_eq (h : v.Restored w) : v.isDefined = w.isDefined := by
  cases h with
  | same => rfl
  | number first second => rw [first.isDefined, second.isDefined]
  | arr => rfl

mutual

/-- **How whole numbers are stored does not show** in the text of a value. -/
theorem Restored.text_eq {v w : Json} : v.Restored w → v.text = w.text
  | .same _ => rfl
  | .number first second => first.text_eq.trans second.text_eq.symm
  | .arr each => by rw [text, text, each.itemTexts_eq]

theorem RestoredAll.itemTexts_eq {items others : List Json} : RestoredAll items others →
    itemTexts items = itemTexts others
  | .nil => rfl
  | .cons first rest => by rw [itemTexts, itemTexts, first.isDefined_eq, first.text_eq, rest.itemTexts_eq]

end

theorem RestoredAll.map_text_eq {items others : List Json} : RestoredAll items others →
    items.map text = others.map text
  | .nil => rfl
  | .cons first rest => by rw [List.map_cons, List.map_cons, first.text_eq, rest.map_text_eq]

theorem Restored.joined_eq (h : v.Restored w) : v.joined = w.joined := by
  cases h with
  | same => rfl
  | number first second =>
    rw [first.joined_eq, second.joined_eq, first.text_eq, second.text_eq]
  | arr each => rw [joined, joined, each.map_text_eq]

end Json

theorem Json.text_minusZero : (Json.float (.zero true)).text = "-0" := by decide +kernel

/-- The double `-0.0` denotes zero, and does not read as the numeral of zero. -/
theorem not_isNumeral_minusZero {n : Int} (denotes : (Json.float (.zero true)).Denotes n) :
    ¬ IsNumeral (Json.float (.zero true)).text n := by
  have nothing : n * (Double.one : Int) = 0 := denotes.symm.trans (Double.zero_units true)
  obtain rfl : n = 0 := (Int.mul_eq_zero.1 nothing).resolve_right Double.one_ne_zero
  rw [Json.text_minusZero, isNumeral_iff]
  decide

/-- **Whole numbers read canonically.** A JSON number that denotes an integer below `10 ^ 21` in absolute value reads
as the one canonical numeral of this integer, however it is stored, just if it is not the double `-0.0`. So what
differs from a value in nothing but how other such numbers are stored, on their own or in arrays at any depth, reads
the same. -/
theorem whole_numbers_read_canonically (v : Json) :
    (∀ n : Int, v.Denotes n → n.natAbs < 1000000000000000000000 →
      ((∀ text, IsNumeral text n ↔ text = v.text) ↔ v ≠ .float (.zero true)) ∧ v.joined = v.text) ∧
    ∀ w : Json, v.Restored w → v.text = w.text ∧ v.joined = w.joined := by
  refine ⟨fun n denotes small => ?_, fun w h => ⟨h.text_eq, h.joined_eq⟩⟩
  by_cases minusZero : v = .float (.zero true)
  · subst minusZero
    refine ⟨iff_of_false (fun numeral => ?_) fun plain => plain rfl, rfl⟩
    exact not_isNumeral_minusZero denotes ((numeral _).2 rfl)
  · have whole : v.Whole n := ⟨denotes, small, minusZero⟩
    refine ⟨iff_of_true (fun text => ?_) minusZero, whole.joined_eq⟩
    rw [isNumeral_iff, whole.text_eq]

/-- The least integer of a signed word, and the double that it is. -/
def Json.leastWord : Json := .int ⟨-0x8000000000000000, by decide, by decide⟩
def Json.leastDouble : Json := .float ⟨true, 0x10000000000000, 1085, by decide, by decide, by decide⟩

theorem whole_numbers_read_canonically_least :
    let n : Int := -0x8000000000000000
    Json.leastDouble.Denotes n ∧ Json.leastWord.Denotes n ∧ IsNumeral Json.leastDouble.text n ∧
      Json.leastDouble.text = "-9223372036854775808" ∧
      (Json.arr [.null, .arr [.leastDouble]]).joined = (Json.arr [.null, .arr [.leastWord]]).joined := by
  intro n
  have double : Json.leastDouble.Denotes n := by
    show Double.units _ = _
    decide +kernel
  have word : Json.leastWord.Denotes n := rfl
  have small : n.natAbs < 1000000000000000000000 := by decide
  obtain ⟨numerals, -⟩ := whole_numbers_read_canonically .leastDouble
  obtain ⟨-, stored⟩ := whole_numbers_read_canonically (.arr [.null, .arr [.leastDouble]])
  have plain : Json.leastDouble ≠ .float (.zero true) := by
    intro same
    have significand := congrArg Double.significand (Json.float.inj same)
    cases significand
  have numeral := (numerals n double small).1.2 plain
  have other : Json.leastWord ≠ .float (.zero true) := nofun
  refine ⟨double, word, (numeral _).2 rfl, ((numeral _).1 ?_).symm, (stored _ ?_).2⟩
  · exact ⟨"9223372036854775808".toList, rfl, isDigits_iff.2 (by decide)⟩
  · exact .arr (.cons (.same _) (.cons (.arr (.cons (.number ⟨double, small, plain⟩ ⟨word, small, other⟩) .nil))
      .nil))

/-- **Minus zero keeps its sign**: this double denotes zero, and does not read as the numeral of zero. -/
theorem minus_zero_signed :
    let v : Json := .float (.zero true)
    let w : Json := .int ⟨0, by decide, by decide⟩
    v.Denotes 0 ∧ w.Denotes 0 ∧ (0 : Int).natAbs < 1000000000000000000000 ∧ v.text = "-0" ∧ w.text = "0" ∧
      IsNumeral "0" 0 ∧ ¬ IsNumeral v.text 0 := by
  intro v w
  have denotes : v.Denotes 0 := (Double.zero_units true).trans (Int.zero_mul _).symm
  exact ⟨denotes, rfl, by decide, Json.text_minusZero, rfl, isNumeral_iff.2 rfl, not_isNumeral_minusZero denotes⟩

end Criteria
