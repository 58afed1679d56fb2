import Criteria.Proofs.Layout.Change

/-!
# Plain checks

A check is plain if none of its rules is itself a validator. Below a plain list stand only groups, so
whatever happens there concerns one clause of the list: the one on the way down. `clause?` is what
that clause comes to.
-/

namespace Criteria
set_option autoImplicit false

/-- Whether a body is a validator. -/
def Body.isValidator : Body → Bool
  | .validator _ _ => true
  | _ => false

mutual

/-- Whether no rule in a check is a validator. -/
def Check.plain : Check → Bool
  | .rule _ _ body _ _ => !body.isValidator
  | .group members => Check.allPlain members

/-- Whether no rule in checks is a validator. -/
def Check.allPlain : List Check → Bool
  | [] => true
  | check :: rest => check.plain && Check.allPlain rest

end

/-- Whether no rule of a validator is itself a validator. -/
def Validator.Plain (v : Validator) : Prop := Check.allPlain v.checks = true

theorem Check.allPlain_iff {checks : List Check} :
    Check.allPlain checks = true ↔ ∀ check ∈ checks, check.plain = true := by
  induction checks with
  | nil => simp [Check.allPlain]
  | cons check rest ih => simp [Check.allPlain, ih]

/-- The position of the top-level check on the way to a place. -/
def Place.first (p : Place) : Nat := p.path.getLastD 0

namespace Place

theorem first_member_of_root {p : Place} (root : p.path = []) (i : Nat) :
    (p.member i).first = i := by
  simp [first, member, root]

theorem first_member {p : Place} (inside : p.path ≠ []) (i : Nat) : (p.member i).first = p.first := by
  rw [first, first, member]
  cases path : p.path with
  | nil => exact absurd path inside
  | cons k rest => simp [List.getLastD]

/-- The top-level check on the way to a place is on the way to everything below. -/
theorem first_of_encloses {p q : Place} (inside : p.path ≠ []) (below : p.Encloses q) :
    q.first = p.first := by
  obtain ⟨-, before, path⟩ := below
  rw [first, first, ← path, List.getLastD_eq_getLast?, List.getLastD_eq_getLast?,
    List.getLast?_append, List.getLast?_eq_some_getLast inside, Option.some_or]

/-- The place of the top-level check on the way to a place. -/
theorem first_encloses {p : Place} (inside : p.path ≠ []) :
    (Place.member ⟨p.root, []⟩ p.first).Encloses p := by
  obtain ⟨root, path⟩ := p
  refine ⟨rfl, path.dropLast, ?_⟩
  rw [first, List.getLastD_eq_getLast?, List.getLast?_eq_some_getLast inside]
  exact List.dropLast_concat_getLast inside

end Place

namespace Opening

/-- What the check at a position of the list at a place has come to. -/
def clause? (o : Opening) (p : Place) (i : Nat) (journal : Journal) : Option Result :=
  o.checks[i]?.bind fun check => check.outcome? o.value (p.member i) journal

/-- Whether no rule in the list is a validator. -/
def Plain (o : Opening) : Prop := Check.allPlain o.checks = true

variable {o o' : Opening} {p : Place} {i : Nat}

/-- A list inside a plain one is a group. -/
theorem Plain.member (plain : o.Plain) (h : o.member? p i = some o') :
    o'.Plain ∧ ∃ members, o.checks[i]? = some (.group members) ∧
      o' = ⟨.any, members, o.value, o.route p⟩ := by
  obtain ⟨members, found, rfl⟩ | ⟨_, _, _, _, _, _, found, -, -⟩ := member?_eq_some h
  · have inner := Check.allPlain_iff.1 plain _ (List.mem_of_getElem? found)
    exact ⟨inner, members, found, rfl⟩
  · have inner := Check.allPlain_iff.1 plain _ (List.mem_of_getElem? found)
    simp [Check.plain, Body.isValidator] at inner

theorem clause?_lasting (o : Opening) (p : Place) (i : Nat) : Lasting (o.clause? p i) := by
  intro event journal result h
  obtain ⟨check, found, outcome⟩ := Option.bind_eq_some_iff.1 h
  exact Option.bind_eq_some_iff.2 ⟨check, found, check.lasting_outcome o.value _ outcome⟩

/-- The check on the way to an event is as before, or its result arrives. -/
theorem clause?_cases (o : Opening) {event : Event} (journal : Journal)
    (touches : event.Touches (p.member i)) :
    (o.clause? p i (event :: journal) = o.clause? p i journal ∧
      o.results p (event :: journal) = o.results p journal) ∨
    ∃ result, o.clause? p i journal = none ∧ o.clause? p i (event :: journal) = some result ∧
      o.results p (event :: journal) = o.results p journal ++ [result] := by
  by_cases same : o.clause? p i (event :: journal) = o.clause? p i journal
  · refine .inl ⟨same, results_cons_of_same (parts_cons_of_member touches ?_)⟩
    intro check found
    simpa [clause?, found] using same
  · have before : o.clause? p i journal = none := by
      cases had : o.clause? p i journal with
      | none => rfl
      | some result => exact absurd ((o.clause?_lasting p i had).trans had.symm) same
    obtain ⟨result, after⟩ := Option.ne_none_iff_exists'.1 (before ▸ same)
    refine .inr ⟨result, before, after, ?_⟩
    obtain ⟨check, found, outcome⟩ := Option.bind_eq_some_iff.1 after
    rw [clause?, found, Option.bind_some] at before
    exact results_cons_of_new touches found before outcome

/-- Of many events that concern one check of a list only, its result is all that arrives, if it is
new. -/
theorem results_of_segment {news journal : Journal}
    (only : ∀ event ∈ news, ∀ j, event.Touches (p.member j) → j = i) :
    o.results p (news ++ journal) = o.results p journal ++
      (if (o.clause? p i journal).isNone then (o.clause? p i (news ++ journal)).toList else []) := by
  induction news with
  | nil =>
    rw [List.nil_append]
    cases o.clause? p i journal <;> simp
  | cons event news ih =>
    have inner := ih fun event mem => only event (List.mem_cons_of_mem _ mem)
    rw [List.cons_append]
    by_cases touches : event.Touches (p.member i)
    · obtain ⟨same, results⟩ | ⟨result, none_yet, now, results⟩ := clause?_cases o
        (news ++ journal) touches
      · rw [results, inner, same]
      · have unknown : o.clause? p i journal = none := by
          cases had : o.clause? p i journal with
          | none => rfl
          | some before =>
            rw [(o.clause?_lasting p i).mono (List.suffix_append news journal) had] at none_yet
            cases none_yet
        rw [results, inner, none_yet, now, unknown]
        simp
    · have untouched : ∀ j, ¬ event.Touches (p.member j) := fun j other =>
        touches (only event List.mem_cons_self j other ▸ other)
      have parts : ∀ part ∈ o.parts p, part (event :: (news ++ journal)) = part (news ++ journal) :=
        Opening.forall_mem_parts.2 fun j check _ =>
          check.outcome?_cons_of_untouched o.value _ (untouched j)
      have same : o.clause? p i (event :: (news ++ journal)) = o.clause? p i (news ++ journal) :=
        Option.bind_congr fun check _ =>
          Check.outcome?_cons_of_untouched o.value _ (untouched i) check
      rw [results_cons_of_same parts, inner, same]

/-- What arrives is the result of the check on the way. -/
theorem clause?_of_arrival {event : Event} {journal : Journal}
    (touches : event.Touches (p.member i)) {result : Result}
    (arrives : o.results p (event :: journal) = o.results p journal ++ [result]) :
    o.clause? p i journal = none ∧ o.clause? p i (event :: journal) = some result := by
  obtain ⟨-, same⟩ | ⟨arrival, before, after, results⟩ := clause?_cases o journal touches
  · have length := congrArg List.length (same.symm.trans arrives)
    simp at length
  · have last := List.append_cancel_left (results.symm.trans arrives)
    exact ⟨before, (List.cons.inj last).1 ▸ after⟩

/-- If nothing arrives, the check on the way is as before. -/
theorem clause?_of_no_arrival {event : Event} {journal : Journal}
    (touches : event.Touches (p.member i))
    (same : o.results p (event :: journal) = o.results p journal) :
    o.clause? p i (event :: journal) = o.clause? p i journal := by
  obtain ⟨unchanged, -⟩ | ⟨arrival, -, -, results⟩ := clause?_cases o journal touches
  · exact unchanged
  · have length := congrArg List.length (results.symm.trans same)
    simp at length

end Opening

namespace Layout

variable {layout : Layout}

/-- All lists below a plain one are plain. -/
theorem plain_of_root {first : Opening} (plain : first.Plain) {p : Place}
    (here : layout p.root = some first) {o : Opening} (found : layout.opening? p = some o) :
    o.Plain := by
  obtain ⟨root, path⟩ := p
  induction path generalizing o with
  | nil =>
    obtain rfl : first = o := Option.some.inj (here.symm.trans found)
    exact plain
  | cons i path ih =>
    obtain ⟨outer, above, member⟩ := Option.bind_eq_some_iff.1 found
    exact ((ih here above).member member).1

end Layout
end Criteria
