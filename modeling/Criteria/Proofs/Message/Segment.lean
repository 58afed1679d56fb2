import Criteria.Message.Template
import Criteria.Proofs.Message.Token

/-!
# Well-bracketed templates

A well-bracketed template is a row of segments: plain texts and words in braces, without braces of their own.
`render` searches such a template once for each placeholder, in what the searches before it left.
Where no text that it brings in holds a brace, each search meets whole segments only: it skips every plain text
and every other word, so it replaces the first segment that is its token (`Segment.replaceFirst_row`). The
searches then do what one pass over the segments does that fills in all placeholders at once
(`render_simultaneous`).
-/

namespace Criteria
set_option autoImplicit false

namespace Text

variable {word new : List Char}

theorem replaceFirst_cons {c : Char} {rest : List Char} (apart : ¬ word <+: c :: rest) :
    replaceFirst word new (c :: rest) = c :: replaceFirst word new rest := by
  rw [replaceFirst, replaceFirst, cutFirst?, if_neg (mt List.isPrefixOf_iff_prefix.1 apart)]
  cases cutFirst? word rest <;> rfl

theorem replaceFirst_prefix (rest : List Char) (filled : word ≠ []) :
    replaceFirst word new (word ++ rest) = new ++ rest := by
  obtain ⟨c, tail, rfl⟩ := List.exists_cons_of_ne_nil filled
  simp [replaceFirst, cutFirst?]

/-- A search for a word passes over a text that its first character is not in. -/
theorem replaceFirst_append {c : Char} {tail cs : List Char} (absent : c ∉ cs) (rest : List Char) :
    replaceFirst (c :: tail) new (cs ++ rest) = cs ++ replaceFirst (c :: tail) new rest := by
  induction cs with
  | nil => rfl
  | cons d cs ih =>
    have apart : ¬ c :: tail <+: d :: (cs ++ rest) := by
      intro starts
      exact absent (by simp [(List.cons_prefix_cons.1 starts).1])
    rw [List.cons_append, replaceFirst_cons apart, ih (fun mem => absent (List.mem_cons_of_mem _ mem))]
    rfl

end Text

/-- A piece of a well-bracketed template: a plain text or a word in braces. -/
inductive Segment where
  | literal (text : List Char) (braceless : Braceless text)
  | marked (body : List Char) (braceless : Braceless body)
deriving DecidableEq

namespace Segment

/-- What a segment reads in a template. -/
def chars : Segment → List Char
  | literal text _ => text
  | marked body _ => '\x7b' :: body ++ ['\x7d']

end Segment

/-- The segment that is the token of a placeholder. -/
def Placeholder.segment (p : Placeholder) : Segment := .marked p.body p.braceless_body

theorem Placeholder.segment_inj {p q : Placeholder} : p.segment = q.segment ↔ p = q := by
  refine ⟨fun same => body_injective ?_, fun same => same ▸ rfl⟩
  simpa [segment] using same

/-- The characters of a row of segments. -/
def Segment.row (segments : List Segment) : List Char := segments.flatMap chars

namespace Segment

/-- A word in braces starts with no other word in braces. -/
theorem eq_of_prefix {body other rest : List Char} (first : Braceless body) (second : Braceless other)
    (starts : '\x7b' :: body ++ ['\x7d'] <+: '\x7b' :: other ++ '\x7d' :: rest) : body = other := by
  obtain ⟨tail, joined⟩ := starts
  have upTo : ∀ cs : List Char, Braceless cs → ∀ tail : List Char,
      (cs ++ '\x7d' :: tail).takeWhile (· != '\x7d') = cs := by
    intro cs plain tail
    have inside : ∀ c ∈ cs, (c != '\x7d') = true := by
      intro c mem
      exact bne_iff_ne.2 fun is => plain.2 (is ▸ mem)
    rw [List.takeWhile_append_of_pos inside]
    simp
  have same : body ++ '\x7d' :: tail = other ++ '\x7d' :: rest := by simpa using joined
  rw [← upTo body first tail, same, upTo other second rest]

/-- A search for a token passes over every other segment. -/
theorem replaceFirst_chars {p : Placeholder} {s : Segment} (differs : s ≠ p.segment) (text rest : List Char) :
    Text.replaceFirst p.token text (s.chars ++ rest) = s.chars ++ Text.replaceFirst p.token text rest := by
  cases s with
  | literal cs plain => exact Text.replaceFirst_append plain.1 rest
  | marked body plain =>
    have apart : ¬ p.token <+: '\x7b' :: (body ++ ['\x7d'] ++ rest) := by
      intro starts
      have same : p.body = body := eq_of_prefix p.braceless_body plain (by simpa [Placeholder.token] using starts)
      exact differs (by simp [Placeholder.segment, same])
    have inside : '\x7b' ∉ body ++ ['\x7d'] := by simp [plain.1]
    calc Text.replaceFirst p.token text ('\x7b' :: (body ++ ['\x7d'] ++ rest))
      _ = '\x7b' :: Text.replaceFirst p.token text (body ++ ['\x7d'] ++ rest) := Text.replaceFirst_cons apart
      _ = '\x7b' :: (body ++ ['\x7d'] ++ Text.replaceFirst p.token text rest) :=
        congrArg _ (Text.replaceFirst_append inside rest)

theorem replace_other {s old : Segment} (differs : s ≠ old) (new : Segment) (rest : List Segment) :
    (s :: rest).replace old new = s :: rest.replace old new := by
  rw [List.replace_cons, beq_false_of_ne differs.symm]

/-- **A search for a token** replaces the first segment that is the token. -/
theorem replaceFirst_row (p : Placeholder) {text : List Char} (plain : Braceless text)
    (segments : List Segment) :
    Text.replaceFirst p.token text (row segments) = row (segments.replace p.segment (literal text plain)) := by
  induction segments with
  | nil => rfl
  | cons s rest ih =>
    rcases eq_or_ne s p.segment with rfl | differs
    · rw [List.replace_cons_self]
      exact Text.replaceFirst_prefix (row rest) (List.cons_ne_nil _ _)
    · rw [replace_other differs]
      exact (replaceFirst_chars differs text (row rest)).trans (congrArg _ ih)

/-- What stands for a segment that follows the segments `before`, with all of `ps` filled in. -/
def filled (ps : List Placeholder) (subject : Subject) (before : List Segment) (s : Segment) : List Char :=
  match ps.find? (fun p => s = p.segment) with
  | some p => if s ∈ before then s.chars else (p.text subject).toList
  | none => s.chars

/-- The row of segments that follows `before`, with each of `ps` filled in at its first segment. -/
def fillAll (ps : List Placeholder) (subject : Subject) (before : List Segment) : List Segment → List Char
  | [] => []
  | s :: rest => s.filled ps subject before ++ fillAll ps subject (before ++ [s]) rest

section

variable {ps : List Placeholder} {subject : Subject} {before : List Segment}

theorem find?_segment {p : Placeholder} (mem : p ∈ ps) :
    ps.find? (fun q => p.segment = q.segment) = some p := by
  cases found : ps.find? (fun q => p.segment = q.segment) with
  | none => simpa using List.find?_eq_none.1 found p mem
  | some q =>
    have same : p.segment = q.segment := by simpa using List.find?_some found
    rw [Placeholder.segment_inj.1 same]

theorem filled_first {p : Placeholder} (mem : p ∈ ps) (fresh : p.segment ∉ before) :
    p.segment.filled ps subject before = (p.text subject).toList := by
  rw [filled, find?_segment mem]
  exact if_neg fresh

theorem filled_again {s : Segment} (met : s ∈ before) : s.filled ps subject before = s.chars := by
  unfold filled
  split
  · exact if_pos met
  · rfl

theorem filled_other {s : Segment} (other : ∀ p ∈ ps, s ≠ p.segment) :
    s.filled ps subject before = s.chars := by
  have none : ps.find? (fun p => s = p.segment) = none := by
    simpa [List.find?_eq_none] using other
  rw [filled, none]

theorem filled_cons {p : Placeholder} {s : Segment} (differs : s ≠ p.segment) :
    s.filled (p :: ps) subject before = s.filled ps subject before := by
  rw [filled, List.find?_cons_of_neg (by simpa using differs), filled]

theorem filled_congr {others : List Segment} (s : Segment)
    (alike : ∀ p ∈ ps, p.segment ∈ before ↔ p.segment ∈ others) :
    s.filled ps subject before = s.filled ps subject others := by
  by_cases known : ∃ p ∈ ps, s = p.segment
  · obtain ⟨p, mem, rfl⟩ := known
    by_cases met : p.segment ∈ before
    · rw [filled_again met, filled_again ((alike p mem).1 met)]
    · rw [filled_first mem met, filled_first mem (mt (alike p mem).2 met)]
  · have other : ∀ p ∈ ps, s ≠ p.segment := fun p mem is => known ⟨p, mem, is⟩
    rw [filled_other other, filled_other other]

theorem fillAll_nil (segments : List Segment) : fillAll [] subject before segments = row segments := by
  induction segments generalizing before with
  | nil => rfl
  | cons s rest ih => rw [fillAll, ih]; rfl

theorem fillAll_congr {others : List Segment} (segments : List Segment)
    (alike : ∀ p ∈ ps, p.segment ∈ before ↔ p.segment ∈ others) :
    fillAll ps subject before segments = fillAll ps subject others segments := by
  induction segments generalizing before others with
  | nil => rfl
  | cons s rest ih =>
    have next : ∀ p ∈ ps, p.segment ∈ before ++ [s] ↔ p.segment ∈ others ++ [s] := by
      intro p mem
      simp [alike p mem]
    rw [fillAll, fillAll, filled_congr s alike, ih next]

/-- A placeholder that has met its token changes nothing more. -/
theorem fillAll_met {p : Placeholder} (met : p.segment ∈ before) (segments : List Segment) :
    fillAll (p :: ps) subject before segments = fillAll ps subject before segments := by
  induction segments generalizing before with
  | nil => rfl
  | cons s rest ih =>
    have here : s.filled (p :: ps) subject before = s.filled ps subject before := by
      rcases eq_or_ne s p.segment with rfl | differs
      · rw [filled_again met, filled_again met]
      · exact filled_cons differs
    rw [fillAll, fillAll, here, ih (List.mem_append_left _ met)]

/-- **A placeholder can be filled in before the others**: its text at the first segment that is its token, as a
plain text, leaves the others to be filled in. -/
theorem fillAll_replace {p : Placeholder} (plain : Braceless (p.text subject).toList)
    (fresh : p.segment ∉ before) (new : p ∉ ps) (segments : List Segment) :
    fillAll (p :: ps) subject before segments =
      fillAll ps subject before (segments.replace p.segment (literal _ plain)) := by
  induction segments generalizing before with
  | nil => rfl
  | cons s rest ih =>
    rcases eq_or_ne s p.segment with rfl | differs
    · -- The others look for their own tokens, and neither the text nor the token that it replaces is one.
      have text : (literal _ plain).filled ps subject before = (p.text subject).toList :=
        filled_other fun q _ is => Segment.noConfusion is
      have apart : ∀ q ∈ ps, q.segment ≠ p.segment := by
        intro q mem same
        exact new (Placeholder.segment_inj.1 same ▸ mem)
      have alike : ∀ q ∈ ps,
          q.segment ∈ before ++ [p.segment] ↔ q.segment ∈ before ++ [literal _ plain] := by
        intro q mem
        have plainText : q.segment ≠ literal _ plain := fun is => Segment.noConfusion is
        simp [apart q mem, plainText]
      rw [List.replace_cons_self, fillAll, fillAll, filled_first List.mem_cons_self fresh, text,
        fillAll_met (by simp), fillAll_congr rest alike]
    · have fresh' : p.segment ∉ before ++ [s] := by simpa using ⟨fresh, differs.symm⟩
      rw [replace_other differs, fillAll, fillAll, filled_cons differs, ih fresh']

/-- **Filling in one placeholder after the other** fills in all of them. -/
theorem foldl_fill (plain : ∀ p ∈ ps, Braceless (p.text subject).toList) (nodup : ps.Nodup)
    (segments : List Segment) :
    ps.foldl (Placeholder.fill subject) (row segments) = fillAll ps subject [] segments := by
  induction ps generalizing segments with
  | nil => exact (fillAll_nil segments).symm
  | cons p ps ih =>
    obtain ⟨new, nodup⟩ := List.nodup_cons.1 nodup
    have mine := plain p List.mem_cons_self
    calc (p :: ps).foldl (Placeholder.fill subject) (row segments)
      _ = ps.foldl (Placeholder.fill subject) (row (segments.replace p.segment (literal _ mine))) :=
        congrArg (ps.foldl (Placeholder.fill subject)) (replaceFirst_row p mine segments)
      _ = fillAll ps subject [] (segments.replace p.segment (literal _ mine)) :=
        ih (fun q mem => plain q (List.mem_cons_of_mem _ mem)) nodup _
      _ = fillAll (p :: ps) subject [] segments := (fillAll_replace mine List.not_mem_nil new segments).symm

end

end Segment

/-- **A template is filled in at once.** The message of a well-bracketed template, for a subject whose texts hold no
brace, has for each placeholder of the clause its text at the first segment that is its token. Every other segment
stands as it is: one met before, one that is no token, and the token of a parameter that the clause has not. -/
theorem render_simultaneous (subject : Subject) (segments : List Segment)
    (plain : ∀ p ∈ Placeholder.sequence subject.params.length, Braceless (p.text subject).toList) :
    let known := Placeholder.sequence subject.params.length
    Message.render subject (String.ofList (Segment.row segments)) =
        String.ofList (Segment.fillAll known subject [] segments) ∧
      ∀ before : List Segment,
        (∀ p ∈ known, p.segment ∉ before →
          p.segment.filled known subject before = (p.text subject).toList) ∧
        (∀ s ∈ before, s.filled known subject before = s.chars) ∧
        (∀ s, (∀ p ∈ known, s ≠ p.segment) → s.filled known subject before = s.chars) ∧
        ∀ i ≥ subject.params.length, ∀ p ∈ Placeholder.ofParam i,
          p.segment.filled known subject before = p.token := by
  intro known
  refine ⟨?_, fun before => ⟨fun p mem fresh => Segment.filled_first mem fresh,
    fun s met => Segment.filled_again met, fun s other => Segment.filled_other other, ?_⟩⟩
  · rw [Message.render, Message.renderChars, String.toList_ofList]
    exact congrArg _ (Segment.foldl_fill plain (Placeholder.nodup_sequence _) segments)
  · intro i unbound p mem
    refine Segment.filled_other fun q known same => ?_
    obtain rfl := Placeholder.segment_inj.1 same
    have bound := Placeholder.mem_sequence.1 known i (Placeholder.mem_ofParam.1 mem)
    omega

theorem render_simultaneous_repeated :
    let subject : Subject := { value := .str "ab", params := [.str "x"], negated := true }
    let segments : List Segment :=
      [.literal "is ".toList (by decide), Placeholder.negation.segment, Placeholder.value.segment,
        .literal ", ".toList (by decide), Placeholder.value.segment, .marked "who".toList (by decide),
        (Placeholder.param 0).segment, (Placeholder.paramType 1).segment]
    (∀ p ∈ Placeholder.sequence 1, Braceless (p.text subject).toList) ∧
      Message.render subject (String.ofList (Segment.row segments)) =
        "is not ab, \x7bval\x7d\x7bwho\x7dx\x7btype:1\x7d" := by
  intro subject segments
  have plain : ∀ p ∈ Placeholder.sequence 1, Braceless (p.text subject).toList := by decide
  exact ⟨plain, (render_simultaneous subject segments plain).1.trans (by decide)⟩

end Criteria
