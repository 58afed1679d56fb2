import Criteria.Proofs.Message.Token
import Criteria.Proofs.Nested.Clause
import Criteria.Proofs.Run.Reach
import Criteria.Proofs.Snapshot.Template

/-!
# Messages that withhold the tested value

The placeholders of the tested value come first in the order of substitution, and the text of no other one
depends on it. A template without their tokens is past them before a parameter is filled in
(`Message.renderChars_of_silent`): a token that a parameter brings in, or completes, comes too late. The messages
of a clause with such a template are the same for all values that it fails on
(`messages_withhold_value`).
-/

namespace Criteria
set_option autoImplicit false

theorem Text.occursIn_eq_false {word text : List Char} (absent : ¬ word <:+: text) :
    occursIn word text = false := by
  cases cut : cutFirst? word text with
  | none => rw [occursIn, cut, Option.isSome_none]
  | some parts => exact absurd ⟨parts.1, parts.2, (eq_of_cutFirst? cut).symm⟩ absent

/-- A placeholder is filled in only where its token occurs. -/
theorem Placeholder.fill_of_absent {subject : Subject} {p : Placeholder} {message : List Char}
    (absent : ¬ p.token <:+: message) : p.fill subject message = message :=
  Text.replaceFirst_of_not_occursIn (Text.occursIn_eq_false absent)

namespace Placeholder

/-- The placeholders that stand for the tested value. -/
def ofValue : List Placeholder := [value, valueType, valueJoin]

/-- What follows them in the order of substitution. -/
def afterValue (count : Nat) : List Placeholder :=
  (List.range count).flatMap ofParam ++ [allParams, negation]

theorem sequence_eq (count : Nat) : sequence count = ofValue ++ afterValue count :=
  List.append_assoc _ _ _

theorem not_mem_ofValue {p : Placeholder} {count : Nat} (mem : p ∈ afterValue count) : p ∉ ofValue := by
  have nodup := nodup_sequence count
  rw [sequence_eq] at nodup
  exact fun first => (List.nodup_append'.1 nodup).2.2 first mem

/-- The text of any other placeholder is the same for all tested values. -/
theorem text_congr {p : Placeholder} (other : p ∉ ofValue) (v w : Json) (params : List Json) (negated : Bool) :
    p.text ⟨v, params, negated⟩ = p.text ⟨w, params, negated⟩ := by
  cases p with
  | value | valueType | valueJoin => exact absurd (by decide) other
  | param | paramType | paramJoin | allParams | negation => rfl

end Placeholder

/-- Whether a template has no token of the tested value. -/
def Message.Silent (template : List Char) : Prop := ∀ p ∈ Placeholder.ofValue, ¬ p.token <:+: template

instance (template : List Char) : Decidable (Message.Silent template) :=
  inferInstanceAs (Decidable (∀ p ∈ Placeholder.ofValue, ¬ p.token <:+: template))

namespace Message

variable {template : List Char}

/-- Filling in placeholders that do not occur changes nothing. -/
theorem foldl_fill_of_absent (subject : Subject) {ps : List Placeholder}
    (absent : ∀ p ∈ ps, ¬ p.token <:+: template) : ps.foldl (Placeholder.fill subject) template = template := by
  induction ps with
  | nil => rfl
  | cons p ps ih =>
    rw [List.foldl_cons, Placeholder.fill_of_absent (absent p List.mem_cons_self)]
    exact ih fun q mem => absent q (List.mem_cons_of_mem p mem)

/-- **A template without the tokens of the tested value** is filled in from the parameters on. -/
theorem renderChars_of_silent (subject : Subject) (silent : Silent template) :
    renderChars subject template =
      (Placeholder.afterValue subject.params.length).foldl (Placeholder.fill subject) template := by
  rw [renderChars, Placeholder.sequence_eq, List.foldl_append, foldl_fill_of_absent subject silent]

/-- **Such a template reads the same for all values.** What has been filled in before does not matter: no
placeholder that is left reads the tested value, so each one makes the same of the same text. -/
theorem renderChars_congr (silent : Silent template) (params : List Json) (negated : Bool) (v w : Json) :
    renderChars ⟨v, params, negated⟩ template = renderChars ⟨w, params, negated⟩ template := by
  rw [renderChars_of_silent _ silent, renderChars_of_silent _ silent]
  refine List.foldl_ext _ _ _ fun message p mem => ?_
  rw [Placeholder.fill, Placeholder.fill,
    Placeholder.text_congr (Placeholder.not_mem_ofValue mem) v w params negated]

theorem render_congr {template : String} (silent : Silent template.toList) (params : List Json) (negated : Bool)
    (v w : Json) : render ⟨v, params, negated⟩ template = render ⟨w, params, negated⟩ template :=
  congrArg String.ofList (renderChars_congr silent params negated v w)

end Message

/-- **A parameter never brings the tested value into a message.** Take a template without the tokens of the
tested value. Whatever the parameters are, also where they bring in such a token or complete one, and for both
polarities, it reads the same for any two values. So wherever a rule clause of a called validator fails, whether a
clause of its own or one of a validator that serves as its rule, and the template of its polarity is such a one when
the move begins in which the answer is judged, the message is the one for every value. -/
theorem messages_withhold_value {template : String} (silent : Message.Silent template.toList) :
    (∀ (params : List Json) (negated : Bool) (v w : Json),
      Message.render ⟨v, params, negated⟩ template = Message.render ⟨w, params, negated⟩ template) ∧
    ∀ (earlier later : List Move), (∀ m ∈ earlier ++ later, m.Valid) → ∀ v : Validator, v.Built → ∀ value : Json,
      let e := Engine.empty.run earlier
      let now := (e.call v value).2.run later
      ∀ path definition rule body negated params,
        v.clauseAt? path = some (.rule definition rule body negated params) →
        let p : Place := ⟨.call e.calls.size, path⟩
        ∀ answer f before, .judged p answer (.error f) :: before <:+ now.journal → ∃ state,
          Engine.empty.Noted (earlier ++ .call v value :: later) (.judged p answer (.error f)) before state ∧
          ((state.templatesOf definition).ofPolarity negated = some template →
            ∀ w, f.message = Message.render ⟨w, params, negated⟩ template) := by
  refine ⟨Message.render_congr silent, ?_⟩
  intro earlier later valid v built value e now path definition rule body negated params found p answer f before
    behind
  obtain ⟨layout, -, whole, course, root, -⟩ := run_call_course valid built value (rfl : _ = e)
  have judged := course.judged
  rw [whole] at judged
  obtain ⟨question, onward, state, handed, noted, words⟩ := judged p answer _ before behind List.nil_suffix
  obtain ⟨further, asked⟩ := Validator.handle?_of_clauseAt? root found
  cases handed.symm.trans asked
  refine ⟨state, noted, fun templates w => ?_⟩
  have message := Question.message_of_judge words.symm
  dsimp only at message
  rw [templates] at message
  exact message.trans (Message.render_congr silent params negated value w)

/-- With the parameter filled in first, this template would show the value. -/
example :
    [.param 0, .value].foldl (Placeholder.fill ⟨.str "secret", [.str "l\x7d"], false⟩) "\x7bva\x7b0\x7d".toList =
      "secret".toList := by decide +kernel

/-! ## A parameter that completes a token -/

/-- A rule that holds of nothing, with a parameter that completes a token in the words of the rule. -/
def Validator.completing : Validator := ⟨1, [.rule 0 "never" (.test fun _ _ => false) false [.str "l\x7d"]]⟩

theorem Validator.built_completing : Validator.completing.Built := by
  refine ⟨1, Registry.empty.insert ⟨0, "never", .test fun _ _ => false⟩, [.rule "never" false [.str "l\x7d"]],
    ?_, rfl⟩
  intro d mem
  obtain rfl : d = ⟨0, "never", .test fun _ _ => false⟩ := List.mem_singleton.1 mem
  exact .test _

/-- The words of this rule are there before it is called. -/
def Move.completing : List Move := [.define ⟨some "\x7bva\x7b0\x7d", none⟩]

theorem messages_withhold_value_completed :
    let template := "\x7bva\x7b0\x7d"
    let params : List Json := [.str "l\x7d"]
    let now := ((Engine.empty.run Move.completing).call .completing (.str "secret")).2
    Message.render ⟨.str "secret", params, false⟩ template = Message.render ⟨.null, params, false⟩ template ∧
      ∃ f before, .judged ⟨.call 0, [0]⟩ (.ok false) (.error f) :: before <:+ now.journal ∧
        ∀ w, f.message = Message.render ⟨w, params, false⟩ template := by
  intro template params now
  have silent : Message.Silent template.toList := by decide +kernel
  have valid : ∀ m ∈ Move.completing ++ [], m.Valid := by simp [Move.completing, Move.Valid]
  obtain ⟨same, course⟩ := messages_withhold_value silent
  have behind : .judged ⟨.call 0, [0]⟩ (.ok false) (.error (Question.failure
      ⟨0, "never", false, params, .str "secret"⟩ ⟨some template, none⟩)) :: now.journal.drop 3 <:+ now.journal :=
    ⟨now.journal.take 2, rfl⟩
  obtain ⟨state, ⟨first, m, rest, split, rfl, -, noted⟩, words⟩ :=
    course Move.completing [] valid _ Validator.built_completing _ _ _ _ _ _ _ rfl _ _ _ behind
  refine ⟨same params false _ _, _, _, behind, words ?_⟩
  -- The words were there when the call began, and nothing is judged before.
  obtain _ | ⟨_, _ | ⟨_, _⟩⟩ := first
  · obtain ⟨rfl, -⟩ := List.cons.inj split
    cases List.eq_nil_of_suffix_nil noted
  · obtain ⟨rfl, -⟩ := List.cons.inj split
    rfl
  · simp [Move.completing] at split

end Criteria
