import Criteria.Proofs.Message.Segment

/-!
# Occurrences of tokens

The opening brace of a token is the only one in it, so a part of a token that opens like a token is no part
short of the whole (`Placeholder.eq_token_of_suffix`). No token then starts inside another or inside itself, and
tokens that start at one place are the same: the occurrences of tokens in a template are apart
(`tokens_unambiguous`).
-/

namespace Criteria
set_option autoImplicit false

/-- Whether `word` stands in `text` at position `i`. -/
def Text.StandsAt (word text : List Char) (i : Nat) : Prop := word <+: text.drop i

instance (word text : List Char) (i : Nat) : Decidable (Text.StandsAt word text i) :=
  inferInstanceAs (Decidable (_ <+: _))

namespace Placeholder

theorem token_eq (p : Placeholder) : p.token = '\x7b' :: (p.body ++ ['\x7d']) := rfl

/-- Tokens of which one starts the other are the same. -/
theorem eq_of_prefix_token {p q : Placeholder} (starts : p.token <+: q.token) : p = q :=
  body_injective (Segment.eq_of_prefix p.braceless_body q.braceless_body starts)

theorem token_injective {p q : Placeholder} (same : p.token = q.token) : p = q :=
  eq_of_prefix_token (same ▸ List.prefix_rfl)

/-- **A token is opened once**: what ends a token and starts with an opening brace is the token. -/
theorem eq_token_of_suffix {p : Placeholder} {rest : List Char} (ends : '\x7b' :: rest <:+ p.token) :
    '\x7b' :: rest = p.token := by
  rcases List.suffix_cons_iff.1 ends with whole | inside
  · exact whole
  · have mem : '\x7b' ∈ p.body ++ ['\x7d'] := inside.subset List.mem_cons_self
    simp [p.braceless_body.1] at mem

/-- No token occurs inside another. -/
theorem eq_of_infix {p q : Placeholder} (inside : p.token <:+: q.token) : p = q := by
  obtain ⟨before, after, joined⟩ := inside
  have ends : p.token ++ after <:+ q.token := ⟨before, by rw [← joined, List.append_assoc]⟩
  exact eq_of_prefix_token ⟨after, eq_token_of_suffix ends⟩

/-- A part that ends a token and starts a token is the whole of the first. -/
theorem eq_token_of_shared {p q : Placeholder} {part : List Char} (filled : part ≠ [])
    (ends : part <:+ p.token) (starts : part <+: q.token) : part = p.token := by
  obtain ⟨c, rest, rfl⟩ := List.exists_cons_of_ne_nil filled
  obtain rfl := (List.cons_prefix_cons.1 starts).1
  exact eq_token_of_suffix ends

/-- A token that starts behind the start of another starts behind its end. -/
theorem end_le_of_standsAt {p q : Placeholder} {text : List Char} {i j : Nat} (first : Text.StandsAt p.token text i)
    (second : Text.StandsAt q.token text j) (later : i < j) : i + p.token.length ≤ j := by
  by_contra inside
  -- What is left of the first token at `j` opens with the first character of the second.
  have left : p.token.drop (j - i) <+: text.drop j := by
    obtain ⟨after, here⟩ := first
    have rest : text.drop j = p.token.drop (j - i) ++ after := by
      rw [← List.drop_append_of_le_length (by omega), here, List.drop_drop,
        Nat.add_sub_cancel' (Nat.le_of_lt later)]
    exact ⟨after, rest.symm⟩
  have filled : p.token.drop (j - i) ≠ [] := fun none => by
    have short := List.drop_eq_nil_iff.1 none
    omega
  obtain ⟨c, rest, opens⟩ := List.exists_cons_of_ne_nil filled
  obtain ⟨tail, here⟩ := second
  rw [opens, ← here, token_eq] at left
  obtain rfl := (List.cons_prefix_cons.1 left).1
  have whole := eq_token_of_suffix (opens ▸ List.drop_suffix (j - i) p.token)
  have length := congrArg List.length (opens.trans whole)
  rw [List.length_drop] at length
  omega

/-- Tokens that stand at one place are the same. -/
theorem eq_of_standsAt {p q : Placeholder} {text : List Char} {i : Nat} (first : Text.StandsAt p.token text i)
    (second : Text.StandsAt q.token text i) : p = q := by
  rcases List.prefix_or_prefix_of_prefix first second with starts | starts
  · exact eq_of_prefix_token starts
  · exact (eq_of_prefix_token starts).symm

/-- **Occurrences of tokens are apart**: two of them are the same, or one ends before the other starts. -/
theorem standsAt_apart {p q : Placeholder} {text : List Char} {i j : Nat} (first : Text.StandsAt p.token text i)
    (second : Text.StandsAt q.token text j) :
    p = q ∧ i = j ∨ i + p.token.length ≤ j ∨ j + q.token.length ≤ i := by
  rcases Nat.lt_trichotomy i j with before | rfl | behind
  · exact .inr (.inl (end_le_of_standsAt first second before))
  · exact .inl ⟨eq_of_standsAt first second, rfl⟩
  · exact .inr (.inr (end_le_of_standsAt second first behind))

/-- The placeholders that every clause has. -/
def fixed : List Placeholder := [value, valueType, valueJoin, allParams, negation]

theorem mem_sequence_iff {p : Placeholder} {count : Nat} :
    p ∈ sequence count ↔ p ∈ fixed ∨ ∃ i < count, p ∈ ofParam i := by
  rw [mem_sequence]
  cases p <;> simp [fixed, index?, mem_ofParam]

end Placeholder

/-- **The tokens of placeholders are unambiguous.** The tokens of different placeholders differ, and none occurs
inside the other. No part short of a whole token both ends a token and starts one, so that two occurrences of
tokens in a template are the same or apart. The tokens of a sequence for `count` parameters are different from each
other, and they are those of the fixed placeholders and of the three of each parameter below `count`. -/
theorem tokens_unambiguous :
    (∀ p q : Placeholder, p ≠ q → p.token ≠ q.token ∧ ¬ p.token <:+: q.token) ∧
      (∀ (p q : Placeholder) (part : List Char), part ≠ [] → part <:+ p.token → part ≠ p.token →
        ¬ part <+: q.token) ∧
      (∀ (template : String) (p q : Placeholder) (i j : Nat), Text.StandsAt p.token template.toList i →
        Text.StandsAt q.token template.toList j → (p, i) ≠ (q, j) →
          i + p.token.length ≤ j ∨ j + q.token.length ≤ i) ∧
      ∀ count : Nat, ((Placeholder.sequence count).map Placeholder.token).Nodup ∧
        ∀ word : List Char, word ∈ (Placeholder.sequence count).map Placeholder.token ↔
          word ∈ Placeholder.fixed.map Placeholder.token ∨
            ∃ i < count, word ∈ (Placeholder.ofParam i).map Placeholder.token := by
  refine ⟨fun p q differ => ⟨?_, ?_⟩, ?_, ?_, fun count => ⟨?_, fun word => ?_⟩⟩
  · exact mt Placeholder.token_injective differ
  · exact mt Placeholder.eq_of_infix differ
  · intro p q part filled ends proper starts
    exact proper (Placeholder.eq_token_of_shared filled ends starts)
  · intro template p q i j first second differ
    refine (Placeholder.standsAt_apart first second).resolve_left ?_
    rintro ⟨rfl, rfl⟩
    exact differ rfl
  · exact (Placeholder.nodup_sequence count).map fun p q => Placeholder.token_injective
  · simp only [List.mem_map, Placeholder.mem_sequence_iff, or_and_right, exists_or]
    grind

theorem tokens_unambiguous_nested :
    let template := "\x7btype:\x7b1\x7d\x7b10\x7d"
    (Placeholder.param 1 ≠ .param 10 ∧ Text.StandsAt (Placeholder.param 1).token template.toList 6 ∧
      Text.StandsAt (Placeholder.param 10).token template.toList 9) ∧
      ¬ (Placeholder.param 1).token <:+: (Placeholder.param 10).token ∧
      ¬ "0\x7d".toList <+: (Placeholder.param 1).token ∧
      (6 + (Placeholder.param 1).token.length ≤ 9 ∨ 9 + (Placeholder.param 10).token.length ≤ 6) := by
  intro template
  have differ : Placeholder.param 1 ≠ .param 10 := by decide
  have first : Text.StandsAt (Placeholder.param 1).token template.toList 6 := by decide
  have second : Text.StandsAt (Placeholder.param 10).token template.toList 9 := by decide
  obtain ⟨distinct, shared, apart, -⟩ := tokens_unambiguous
  exact ⟨⟨differ, first, second⟩, (distinct _ _ differ).2,
    shared (.param 10) _ _ (by decide) (by decide) (by decide), apart template _ _ _ _ first second (by decide)⟩

end Criteria
