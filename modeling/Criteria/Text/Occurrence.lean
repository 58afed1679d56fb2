/-!
# First occurrences

`cutFirst?` finds where a word first occurs in a text: the part before it and the part after it.
Replacing the first occurrence and testing for one are read off it.
-/

namespace Criteria.Text
set_option autoImplicit false

/-- The parts of `text` before and after the first occurrence of `word`. -/
def cutFirst? (word : List Char) : List Char → Option (List Char × List Char)
  | [] => if word.isEmpty then some ([], []) else none
  | c :: rest =>
    if word.isPrefixOf (c :: rest) then some ([], (c :: rest).drop word.length)
    else (cutFirst? word rest).map fun (before, after) => (c :: before, after)

/-- The text with `new` in place of the first occurrence of `word`. -/
def replaceFirst (word new text : List Char) : List Char :=
  match cutFirst? word text with
  | some (before, after) => before ++ new ++ after
  | none => text

/-- Whether `word` occurs in `text`. -/
def occursIn (word text : List Char) : Bool := (cutFirst? word text).isSome

theorem eq_of_cutFirst? {word text before after : List Char}
    (h : cutFirst? word text = some (before, after)) : text = before ++ word ++ after := by
  induction text generalizing before with
  | nil =>
    simp only [cutFirst?] at h
    split at h <;> simp_all
  | cons c rest ih =>
    simp only [cutFirst?] at h
    split at h
    next starts =>
      obtain ⟨tail, htail⟩ := List.isPrefixOf_iff_prefix.1 starts
      simp only [Option.some.injEq, Prod.mk.injEq] at h
      rw [← h.1, ← h.2, ← htail]
      simp
    next =>
      obtain ⟨⟨b, a⟩, hcut, heq⟩ := Option.map_eq_some_iff.1 h
      simp only [Prod.mk.injEq] at heq
      rw [ih (heq.2 ▸ hcut), ← heq.1]
      simp

theorem replaceFirst_of_not_occursIn {word new text : List Char} (h : occursIn word text = false) :
    replaceFirst word new text = text := by
  simp only [occursIn, Option.isSome_eq_false_iff, Option.isNone_iff_eq_none] at h
  simp [replaceFirst, h]

end Criteria.Text
