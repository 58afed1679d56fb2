import Criteria.Message.Placeholder
import Mathlib.Data.List.Nodup

/-!
# Tokens

The body of a token holds no brace and determines the placeholder (`Placeholder.body_injective`), so the tokens
of different placeholders differ. A sequence holds each of its placeholders once: the five that every clause has,
and three for each of its parameters (`Placeholder.mem_sequence`).
-/

namespace Criteria
set_option autoImplicit false

/-- Whether a text holds no brace. -/
def Braceless (cs : List Char) : Prop := '\x7b' ∉ cs ∧ '\x7d' ∉ cs

instance (cs : List Char) : Decidable (Braceless cs) := inferInstanceAs (Decidable (_ ∧ _))

theorem Braceless.append {cs ds : List Char} (first : Braceless cs) (second : Braceless ds) :
    Braceless (cs ++ ds) :=
  ⟨fun mem => (List.mem_append.1 mem).elim first.1 second.1,
    fun mem => (List.mem_append.1 mem).elim first.2 second.2⟩

namespace Placeholder

/-- The part of the body before the index. -/
def stem : Placeholder → List Char
  | value => "val".toList
  | valueType => "type:val".toList
  | valueJoin => "join:val".toList
  | param _ => []
  | paramType _ => "type:".toList
  | paramJoin _ => "join:".toList
  | allParams => "join:param".toList
  | negation => "not".toList

/-- The parameter that the placeholder is for, if it is for one of them. -/
def index? : Placeholder → Option Nat
  | param i | paramType i | paramJoin i => some i
  | _ => none

/-- The digits of the index. -/
def numeral (p : Placeholder) : List Char := (p.index?.map (Nat.toDigits 10)).getD []

theorem body_eq (p : Placeholder) : p.body = p.stem ++ p.numeral := by
  cases p with
  | param _ | paramType _ | paramJoin _ => rfl
  | value | valueType | valueJoin | allParams | negation => exact (List.append_nil _).symm

theorem plain_of_mem_stem (p : Placeholder) :
    ∀ c ∈ p.stem, c.isDigit = false ∧ c ≠ '\x7b' ∧ c ≠ '\x7d' := by
  have plain : p.stem.all (fun c => !c.isDigit && c != '\x7b' && c != '\x7d') = true := by
    cases p <;> rfl
  simpa [and_assoc] using plain

theorem isDigit_of_mem_numeral (p : Placeholder) : ∀ c ∈ p.numeral, c.isDigit = true := by
  intro c mem
  rw [numeral] at mem
  cases index : p.index? with
  | none => simp [index] at mem
  | some i =>
    rw [index] at mem
    exact Nat.isDigit_of_mem_toDigits (by decide) (by decide) mem

theorem braceless_body (p : Placeholder) : Braceless p.body := by
  rw [body_eq]
  refine .append ⟨fun mem => ?_, fun mem => ?_⟩ ⟨fun mem => ?_, fun mem => ?_⟩
  · exact (p.plain_of_mem_stem _ mem).2.1 rfl
  · exact (p.plain_of_mem_stem _ mem).2.2 rfl
  · cases p.isDigit_of_mem_numeral _ mem
  · cases p.isDigit_of_mem_numeral _ mem

/-- The stem of a body is what is no digit in it. -/
theorem filter_body (p : Placeholder) :
    p.body.filter (fun c => !c.isDigit) = p.stem ∧ p.body.filter (fun c => c.isDigit) = p.numeral := by
  rw [body_eq, List.filter_append, List.filter_append]
  constructor
  · rw [List.filter_eq_self.2 fun c mem => by simp [(p.plain_of_mem_stem c mem).1],
      List.filter_eq_nil_iff.2 fun c mem => by simp [p.isDigit_of_mem_numeral c mem], List.append_nil]
  · rw [List.filter_eq_nil_iff.2 fun c mem => by simp [(p.plain_of_mem_stem c mem).1],
      List.filter_eq_self.2 fun c mem => by simp [p.isDigit_of_mem_numeral c mem], List.nil_append]

/-- The placeholder with a given stem and index. -/
def ofStem (word : List Char) (i : Nat) : Placeholder :=
  if word = "val".toList then value
  else if word = "type:val".toList then valueType
  else if word = "join:val".toList then valueJoin
  else if word = [] then param i
  else if word = "type:".toList then paramType i
  else if word = "join:".toList then paramJoin i
  else if word = "join:param".toList then allParams
  else negation

theorem ofStem_stem (p : Placeholder) : ofStem p.stem (Nat.ofDigitChars 10 p.numeral 0) = p := by
  cases p with
  | param i => exact congrArg param (Nat.ofDigitChars_toDigits (by decide) (by decide))
  | paramType i => exact congrArg paramType (Nat.ofDigitChars_toDigits (by decide) (by decide))
  | paramJoin i => exact congrArg paramJoin (Nat.ofDigitChars_toDigits (by decide) (by decide))
  | value | valueType | valueJoin | allParams | negation => rfl

/-- **A placeholder is known by the body of its token.** -/
theorem body_injective {p q : Placeholder} (same : p.body = q.body) : p = q := by
  have stems : p.stem = q.stem := by rw [← p.filter_body.1, same, q.filter_body.1]
  have numerals : p.numeral = q.numeral := by rw [← p.filter_body.2, same, q.filter_body.2]
  rw [← ofStem_stem p, stems, numerals, ofStem_stem]

theorem mem_ofParam {p : Placeholder} {i : Nat} : p ∈ ofParam i ↔ p.index? = some i := by
  cases p <;> simp [ofParam, index?]

/-- **A sequence for `count` parameters** holds the placeholders of each of them and those of none. -/
theorem mem_sequence {p : Placeholder} {count : Nat} :
    p ∈ sequence count ↔ ∀ i, p.index? = some i → i < count := by
  have own : p ∈ (List.range count).flatMap ofParam ↔ ∃ i < count, p.index? = some i := by
    simp [List.mem_flatMap, mem_ofParam]
  simp only [sequence, List.mem_append, own]
  cases p <;> simp [index?]

/-- **A sequence holds no placeholder twice.** -/
theorem nodup_sequence (count : Nat) : (sequence count).Nodup := by
  have own : ((List.range count).flatMap ofParam).Nodup := by
    refine List.nodup_flatMap.2 ⟨fun i _ => by simp [ofParam], ?_⟩
    refine List.nodup_range.imp fun {i j} differ p mem other => differ ?_
    exact Option.some.inj ((mem_ofParam.1 mem).symm.trans (mem_ofParam.1 other))
  have apart : ∀ ps : List Placeholder, (∀ p ∈ ps, p.index? = none) →
      List.Disjoint ps ((List.range count).flatMap ofParam) := by
    intro ps free p mem other
    obtain ⟨i, -, for_i⟩ := List.mem_flatMap.1 other
    cases (free p mem).symm.trans (mem_ofParam.1 for_i)
  refine List.nodup_append'.2 ⟨List.nodup_append'.2 ⟨by decide, own, apart _ (by decide)⟩, by decide, ?_⟩
  refine List.disjoint_append_left.2 ⟨by simp, ?_⟩
  exact List.disjoint_comm.1 (apart [allParams, negation] (by decide))

end Placeholder
end Criteria
