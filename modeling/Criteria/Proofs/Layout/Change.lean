import Criteria.Proofs.Layout.Opening

/-!
# How a judgement changes what lists have come to

A judgement at a place changes at most the lists on the way down to it. `results_cons_of_new` adds
the result of the member on that way when the member has just come to it; `results_above` says that
nothing changes further up when the member has not.
-/

namespace Criteria
set_option autoImplicit false

theorem filterMap_eq_singleton {α β : Type} {f : α → Option β} {x : α} {y : β} :
    ∀ {l : List α} {i : Nat}, l[i]? = some x → f x = some y →
      (∀ j z, j ≠ i → l[j]? = some z → f z = none) → l.filterMap f = [y]
  | [], _, found, _, _ => by simp at found
  | z :: l, 0, found, image, others => by
    obtain rfl : z = x := by simpa using found
    have rest : l.filterMap f = [] := by
      rw [List.filterMap_eq_nil_iff]
      intro w mem
      obtain ⟨j, hj⟩ := List.mem_iff_getElem?.1 mem
      exact others (j + 1) w (by omega) (by simpa using hj)
    rw [List.filterMap_cons_some image, rest]
  | z :: l, i + 1, found, image, others => by
    have first : f z = none := others 0 z (by omega) (by simp)
    rw [List.filterMap_cons_none first]
    refine filterMap_eq_singleton (i := i) (by simpa using found) image ?_
    intro j w other hj
    exact others (j + 1) w (by omega) (by simpa using hj)

/-- An event below one member of a list is not below another. -/
theorem Event.Touches.member_unique {event : Event} {p : Place} {i j : Nat}
    (first : event.Touches (p.member i)) (second : event.Touches (p.member j)) : i = j := by
  cases event with
  | judged q answer result => exact Place.member_unique first second
  | _ => exact first.elim

namespace Opening

variable {o : Opening} {p : Place} {i : Nat} {event : Event} {journal : Journal}

theorem results_cons_of_same (same : ∀ part ∈ o.parts p, part (event :: journal) = part journal) :
    o.results p (event :: journal) = o.results p journal :=
  arrivals_cons_of_same same

theorem parts_cons_of_untouched (h : ¬ event.Touches p) :
    ∀ part ∈ o.parts p, part (event :: journal) = part journal :=
  Check.outcomes_cons_of_untouched o.value journal h 0 o.checks

theorem results_cons_of_untouched (h : ¬ event.Touches p) :
    o.results p (event :: journal) = o.results p journal :=
  results_cons_of_same (parts_cons_of_untouched h)

theorem decision?_cons_of_untouched (h : ¬ event.Touches p) :
    o.decision? p (event :: journal) = o.decision? p journal := by
  rw [decision?, decision?, results_cons_of_untouched h]

/-- The members besides the one on the way to an event are as before. -/
theorem outcome?_cons_of_other (touches : event.Touches (p.member i)) {j : Nat} (other : j ≠ i)
    (check : Check) : check.outcome? o.value (p.member j) (event :: journal) =
      check.outcome? o.value (p.member j) journal :=
  Check.outcome?_cons_of_untouched o.value journal
    (fun second => other (touches.member_unique second).symm) check

/-- If the member on the way to an event is as before, then so are all. -/
theorem parts_cons_of_member (touches : event.Touches (p.member i))
    (same : ∀ check : Check, o.checks[i]? = some check →
      check.outcome? o.value (p.member i) (event :: journal) =
        check.outcome? o.value (p.member i) journal) :
    ∀ part ∈ o.parts p, part (event :: journal) = part journal := by
  intro part mem
  obtain ⟨j, check, found, rfl⟩ := Check.mem_outcomes mem
  by_cases here : j = i
  · subst here
    exact same check found
  · exact outcome?_cons_of_other touches here check

/-- The result of the member on the way to an event arrives last. -/
theorem results_cons_of_new (touches : event.Touches (p.member i)) {check : Check}
    (found : o.checks[i]? = some check) {result : Result}
    (before : check.outcome? o.value (p.member i) journal = none)
    (after : check.outcome? o.value (p.member i) (event :: journal) = some result) :
    o.results p (event :: journal) = o.results p journal ++ [result] := by
  have news : ((o.parts p).filterMap fun part =>
      if (part journal).isNone then part (event :: journal) else none) = [result] := by
    refine filterMap_eq_singleton (i := i) (x := check.outcome? o.value (p.member i)) ?_ ?_ ?_
    · rw [getElem?_parts, found, Option.map_some]
    · simp [before, after]
    · intro j part other hj
      rw [getElem?_parts] at hj
      obtain ⟨sibling, -, rfl⟩ := Option.map_eq_some_iff.1 hj
      rw [outcome?_cons_of_other touches other]
      cases sibling.outcome? o.value (p.member j) journal <;> simp
  rw [results, arrivals, news, results]

end Opening

namespace Layout

variable {layout : Layout} {q : Place} {answer : Answer} {result : Result} {journal : Journal}

theorem results_above_of_checks {root : Root} {path : List Nat} {i : Nat} {o : Opening}
    (found : layout.opening? ⟨root, path⟩ = some o)
    (below : (Place.member ⟨root, path⟩ i).Encloses q)
    (same : ∀ check : Check, o.checks[i]? = some check →
      check.outcome? o.value (Place.member ⟨root, path⟩ i) (.judged q answer result :: journal) =
        check.outcome? o.value (Place.member ⟨root, path⟩ i) journal)
    {x : Place} {outer : Opening} (above : x.Encloses ⟨root, path⟩)
    (opened : layout.opening? x = some outer) :
    outer.results x (.judged q answer result :: journal) = outer.results x journal := by
  have touches : (Event.judged q answer result).Touches (Place.member ⟨root, path⟩ i) := below
  have parts := Opening.parts_cons_of_member touches same
  -- The list itself is as before; further up this is the induction hypothesis for its own check.
  induction path generalizing i o with
  | nil =>
    obtain ⟨xr, xp⟩ := x
    obtain ⟨rfl, suffix⟩ := above
    obtain rfl : xp = [] := List.eq_nil_of_suffix_nil suffix
    obtain rfl : o = outer := Option.some.inj (found.symm.trans opened)
    exact Opening.results_cons_of_same parts
  | cons k path ih =>
    obtain rfl | above := (Place.encloses_member_iff (p := ⟨root, path⟩)).1 above
    · obtain rfl : o = outer := Option.some.inj (found.symm.trans opened)
      exact Opening.results_cons_of_same parts
    have inside : (Place.member ⟨root, path⟩ k).Encloses q :=
      (Place.encloses_member _ i).trans below
    obtain ⟨first, foundFirst, member⟩ := Option.bind_eq_some_iff.1 found
    have sameFirst : ∀ check : Check, first.checks[k]? = some check →
        check.outcome? first.value (Place.member ⟨root, path⟩ k)
            (.judged q answer result :: journal) =
          check.outcome? first.value (Place.member ⟨root, path⟩ k) journal := by
      intro check here
      obtain ⟨members, group, rfl⟩ | ⟨_, _, _, _, _, _, rule, -, -⟩ :=
        Opening.member?_eq_some member
      · obtain rfl : check = .group members := Option.some.inj (here.symm.trans group)
        exact disjunction?_cons_of_same parts
      · obtain rfl := Option.some.inj (here.symm.trans rule)
        apply judgement?_cons_of_ne
        rintro rfl
        exact Place.not_member_encloses _ i below
    have within : (Event.judged q answer result).Touches (Place.member ⟨root, path⟩ k) := inside
    exact ih foundFirst inside sameFirst above within
      (Opening.parts_cons_of_member within sameFirst)

/-- If the member on the way to a judgement is as before, then so is every list above it. -/
theorem results_above {p : Place} {i : Nat} {o : Opening} (found : layout.opening? p = some o)
    (below : (p.member i).Encloses q)
    (same : layout.outcome? (p.member i) (.judged q answer result :: journal) =
      layout.outcome? (p.member i) journal)
    {x : Place} {outer : Opening} (above : x.Encloses p) (opened : layout.opening? x = some outer) :
    outer.results x (.judged q answer result :: journal) = outer.results x journal := by
  refine results_above_of_checks found below ?_ above opened
  intro check here
  simpa [outcome?_member, found, here] using same

/-- The result of the member on the way to a judgement arrives last. -/
theorem results_member {p : Place} {i : Nat} {o : Opening} (found : layout.opening? p = some o)
    (below : (p.member i).Encloses q)
    (before : layout.outcome? (p.member i) journal = none) {arrival : Result}
    (after : layout.outcome? (p.member i) (.judged q answer result :: journal) = some arrival) :
    o.results p (.judged q answer result :: journal) = o.results p journal ++ [arrival] := by
  rw [outcome?_member, found, Option.bind_some] at before after
  obtain ⟨check, here, after⟩ := Option.bind_eq_some_iff.1 after
  rw [here, Option.bind_some] at before
  have touches : (Event.judged q answer result).Touches (p.member i) := below
  exact Opening.results_cons_of_new touches here before after

end Layout
end Criteria
