import Criteria.Proofs.Failure.Descendant

/-!
# The lines of a failure in words

A failure is written out with a line for each failure of its tree, in the order in which they are flattened
(`Failure.display_eq_lines`). The line of a failure within another one starts with two blanks for each step of
its path and its position, counted from one. If no message and no cause breaks a line of its own, splitting the
text at line breaks gives these lines back (`display_line_by_line`).
-/

namespace Criteria
set_option autoImplicit false

namespace Failure

/-- What stands before the text of the failure at a path. -/
def margin (path : List Nat) : String :=
  match path.getLast? with
  | none => ""
  | some i => String.ofList (List.replicate (2 * path.length) ' ') ++ (i + 1).repr ++ ". "

/-- The message of a failure, and its cause if it has one. -/
def words (f : Failure) : String :=
  f.message ++ match f.cause with
    | none => ""
    | some cause => " (caused by: " ++ cause ++ ")"

/-- The line of the failure at a path. -/
def line (path : List Nat) (f : Failure) : String := margin path ++ f.words

/-- Lines of their own, each after a line break. -/
def onOwnLines : List String → String
  | [] => ""
  | line :: rest => "\n" ++ line ++ onOwnLines rest

theorem onOwnLines_append (lines more : List String) :
    onOwnLines (lines ++ more) = onOwnLines lines ++ onOwnLines more := by
  induction lines with
  | nil => simp [onOwnLines]
  | cons line rest ih => simp [onOwnLines, ih, String.append_assoc]

theorem intercalate_cons_eq_onOwnLines (line : String) (lines : List String) :
    "\n".intercalate (line :: lines) = line ++ onOwnLines lines := by
  induction lines generalizing line with
  | nil => simp [onOwnLines]
  | cons next rest ih =>
    rw [String.intercalate_cons_of_ne_nil (by simp), ih, onOwnLines]
    simp only [String.append_assoc]

theorem words_eq_headline (f : Failure) : f.words = headline f.message f.cause := by
  rw [words]
  cases f.cause <;> simp [headline, String.append_assoc]

/-- The line of a failure starts with its label. -/
theorem line_member (above : List Nat) (i : Nat) (f : Failure) :
    line (above ++ [i]) f = label (above.length + 1) (i + 1) ++ headline f.message f.cause := by
  simp [line, margin, label, words_eq_headline]

mutual

/-- The words of a failure within another one: its headline, and the lines of the failures within it. -/
theorem displayAt_eq_lines : (f : Failure) → ∀ above : List Nat,
    displayAt above.length f = headline f.message f.cause ++
      onOwnLines ((descendantsFrom 0 f.nested).map fun (path, g) => line (above ++ path) g)
  | ⟨message, value, rule, negated, params, nested, cause⟩ => by
    intro above
    rw [displayAt, displayNested_eq_lines nested above 0]

theorem displayNested_eq_lines : (fs : List Failure) → ∀ (above : List Nat) (position : Nat),
    displayNested (above.length + 1) (position + 1) fs =
      onOwnLines ((descendantsFrom position fs).map fun (path, g) => line (above ++ path) g)
  | [] => fun _ _ => rfl
  | f :: rest => by
    intro above position
    have inner := displayAt_eq_lines f (above ++ [position])
    rw [List.length_append, List.length_singleton] at inner
    rw [displayNested, descendantsFrom, List.map_append, onOwnLines_append, List.map_map,
      displayNested_eq_lines rest above (position + 1), inner, descendants_eq]
    simp [onOwnLines, line_member, String.append_assoc, Function.comp_def]

end

/-- **A failure is written out line by line.** -/
theorem display_eq_lines (f : Failure) :
    f.display = "\n".intercalate (f.descendants.map fun (path, g) => line path g) := by
  have written := displayAt_eq_lines f []
  rw [List.length_nil] at written
  rw [display, written, descendants_eq, List.map_cons, intercalate_cons_eq_onOwnLines]
  simp [line, margin, words_eq_headline]

/-! ## Splitting the text -/

/-- A line without line breaks in its message and its cause. -/
theorem not_mem_line {path : List Nat} {f : Failure} (message : '\n' ∉ f.message.toList)
    (cause : ∀ cause, f.cause = some cause → '\n' ∉ cause.toList) : '\n' ∉ (line path f).toList := by
  have digits : ∀ n, '\n' ∉ Nat.toDigits 10 n := fun n mem =>
    absurd (Nat.isDigit_of_mem_toDigits (by decide) (by decide) mem) (by decide)
  have before : '\n' ∉ (margin path).toList := by
    rw [margin]
    cases path.getLast? <;> simp [digits]
  rw [line, words, String.toList_append, String.toList_append]
  cases reason : f.cause with
  | none => simp [before, message]
  | some text => simp [before, message, cause text reason]

end Failure

open Failure in
/-- **A failure is written out with a line for each failure of its tree.** The lines are as many as are counted
and flattened, and they are those of the flattened failures one by one: the failures are walked depth first, each
before its alternatives and these in their order, and each line has the message and the cause of its failure,
behind two blanks for each level and its position if it stands within another one. -/
theorem display_line_by_line (f : Failure)
    (unbroken : ∀ path g, f.at? path = some g →
      '\n' ∉ g.message.toList ∧ ∀ cause, g.cause = some cause → '\n' ∉ cause.toList) :
    let lines := (f.display.split '\n').toStringList
    lines.length = f.count ∧ f.flatten.length = f.count ∧
      (∀ path g, (path, g) ∈ f.descendants ↔ f.at? path = some g) ∧
      (f.descendants.map (·.1)).Pairwise (· < ·) ∧
      f.flatten = f.descendants.map (·.2) ∧
      lines = f.descendants.map fun (path, g) => line path g := by
  intro lines
  have own : ∀ text ∈ f.descendants.map fun (path, g) => line path g, '\n' ∉ text.toList := by
    intro text mem
    obtain ⟨⟨path, g⟩, walked, rfl⟩ := List.mem_map.1 mem
    obtain ⟨message, cause⟩ := unbroken path g ((mem_descendants f).1 walked)
    exact not_mem_line message cause
  have split : lines = f.descendants.map fun (path, g) => line path g := by
    have some_line : (f.descendants.map fun (path, g) => line path g) ≠ [] := by simp [descendants_eq]
    have pieces := String.toList_split_intercalate own
    rw [if_neg some_line, show String.singleton '\n' = "\n" from rfl, ← display_eq_lines] at pieces
    rw [← pieces]
    simp [lines]
  have flat := flatten_eq_descendants f
  refine ⟨?_, length_flatten f, mem_descendants f, pairwise_descendants f, flat, split⟩
  rw [← length_flatten, flat, split, List.length_map, List.length_map]

/-- A group of two alternatives, the second of which is a group of one that could not be evaluated. -/
def Failure.layered : Failure :=
  .aggregate .null [.ofRule "is" "first" .null,
    .aggregate .null [{ Failure.ofRule "lookup" "second" .null with cause := some "refused" }]]

/-- The last of the four lines stands two levels deep. -/
theorem display_line_by_line_layered :
    (∀ path g, Failure.layered.at? path = some g →
      '\n' ∉ g.message.toList ∧ ∀ cause, g.cause = some cause → '\n' ∉ cause.toList) ∧
    (Failure.layered.display.split '\n').toStringList = ["All 2 alternatives failed", "  1. first",
      "  2. All 1 alternatives failed", "    1. second (caused by: refused)"] := by
  have unbroken : ∀ path g, Failure.layered.at? path = some g →
      '\n' ∉ g.message.toList ∧ ∀ cause, g.cause = some cause → '\n' ∉ cause.toList := by
    intro path g found
    have all : ∀ d ∈ Failure.layered.descendants,
        '\n' ∉ d.2.message.toList ∧ '\n' ∉ (d.2.cause.getD "").toList := by decide +kernel
    obtain ⟨message, cause⟩ := all (path, g) ((Failure.mem_descendants _).2 found)
    exact ⟨message, fun text reason => by rwa [reason] at cause⟩
  obtain ⟨-, -, -, -, -, lines⟩ := display_line_by_line Failure.layered unbroken
  exact ⟨unbroken, lines.trans (by decide +kernel)⟩

end Criteria
