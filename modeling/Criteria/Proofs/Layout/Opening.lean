import Criteria.Proofs.Layout.WellFormed

/-!
# Layouts

A layout says which list each call and each loose evaluation has started with. That fixes all places
below: the list that stands at a place, what it combines, where its decision goes, and the handle
that a rule clause hands out. So a place alone tells a handle and a route apart from every other.

A list has results in the order of their arrival and, at some point, a decision. The last part says
how a judgement below a list changes them: it adds the result of the one member that it completes, or
nothing, and then nothing changes further up either.
-/

namespace Criteria
set_option autoImplicit false

/-- A list of checks with all that its evaluation depends on. -/
structure Opening where
  combinator : Combinator
  checks : List Check
  value : Json
  /-- Where the decision goes. -/
  onward : Route

/-- The lists that calls and loose evaluations have started with. -/
abbrev Layout := Root → Option Opening

/-- The first failure among results. -/
def firstFailure? (results : List Result) : Option Failure := (failures results).head?

/-- What a list of `size` checks has come to with the given results: a conjunction has its first
failure or all of its results, a disjunction all of its results. -/
def Combinator.decision? (combinator : Combinator) (size : Nat) (value : Json)
    (results : List Result) : Option Result :=
  match combinator with
  | .all =>
    match firstFailure? results with
    | some f => some (.error f)
    | none => if results.length = size then some (.ok (results.all Result.holds)) else none
  | .any => if results.length = size then some (alternative value results) else none

namespace Opening

/-- Where the results of the checks go when the list stands at `p`. -/
def route (o : Opening) (p : Place) : Route := .list p o.combinator o.value o.onward

/-- The handle of the rule clause at a position. -/
def handle? (o : Opening) (p : Place) (i : Nat) : Option Handle :=
  match o.checks[i]? with
  | some (.rule definition name _ negated params) =>
    some (.asked (p.member i) ⟨definition, name, negated, params, o.value⟩ (o.route p))
  | _ => none

/-- The list that the check at a position opens, if it is a group or asks a validator. -/
def member? (o : Opening) (p : Place) (i : Nat) : Option Opening :=
  match o.checks[i]? with
  | some (.group members) => some ⟨.any, members, o.value, o.route p⟩
  | some (.rule definition name (.validator _ checks) negated params) =>
    some ⟨.all, checks, o.value,
      .answer (p.member i) ⟨definition, name, negated, params, o.value⟩ (o.route p)⟩
  | _ => none

/-- The checks of the list as they come to results. -/
def parts (o : Opening) (p : Place) : List (Journal → Option Result) :=
  Check.outcomes o.value p 0 o.checks

/-- The results of the checks of the list in the order of their arrival. -/
def results (o : Opening) (p : Place) (journal : Journal) : List Result :=
  arrivals (o.parts p) journal

/-- What the list has come to. -/
def decision? (o : Opening) (p : Place) (journal : Journal) : Option Result :=
  o.combinator.decision? o.checks.length o.value (o.results p journal)

/-- Whether no group in the list is empty. -/
def WellFormed (o : Opening) : Prop := Check.allWellFormed o.checks = true

end Opening

namespace Layout

/-- The list at a place below a root. -/
def below (layout : Layout) (root : Root) : List Nat → Option Opening
  | [] => layout root
  | i :: path => (below layout root path).bind fun o => o.member? ⟨root, path⟩ i

/-- The list at a place. -/
def opening? (layout : Layout) (p : Place) : Option Opening := layout.below p.root p.path

/-- The handle of the rule clause at a place. -/
def handle? (layout : Layout) (p : Place) : Option Handle :=
  match p.path with
  | [] => none
  | i :: path => (layout.below p.root path).bind fun o => o.handle? ⟨p.root, path⟩ i

/-- The result of the check at a place, if it has come to one. -/
def outcome? (layout : Layout) (p : Place) (journal : Journal) : Option Result :=
  match p.path with
  | [] => none
  | i :: path =>
    (layout.below p.root path).bind fun o =>
      o.checks[i]?.bind fun check => check.outcome? o.value p journal

/-- Every list that calls and loose evaluations have started with is well formed. -/
def WellFormed (layout : Layout) : Prop :=
  ∀ root o, layout root = some o → o.WellFormed

/-- The layout with one more call or loose evaluation. -/
def extend (layout : Layout) (root : Root) (o : Opening) : Layout :=
  fun r => if r = root then some o else layout r

/-- Everything that one layout fixes is fixed in the same way by the other. -/
def Extends (layout later : Layout) : Prop :=
  ∀ root o, layout root = some o → later root = some o

theorem opening?_member (layout : Layout) (p : Place) (i : Nat) :
    layout.opening? (p.member i) = (layout.opening? p).bind fun o => o.member? p i := rfl

theorem handle?_member (layout : Layout) (p : Place) (i : Nat) :
    layout.handle? (p.member i) = (layout.opening? p).bind fun o => o.handle? p i := rfl

theorem outcome?_member (layout : Layout) (p : Place) (i : Nat) (journal : Journal) :
    layout.outcome? (p.member i) journal = (layout.opening? p).bind fun o =>
      o.checks[i]?.bind fun check => check.outcome? o.value (p.member i) journal := rfl

end Layout

/-- A place is the root of its lists or the place of a member. -/
theorem Place.root_or_member (p : Place) : p = ⟨p.root, []⟩ ∨ ∃ q i, p = Place.member q i := by
  obtain ⟨root, path⟩ := p
  cases path with
  | nil => exact .inl rfl
  | cons i path => exact .inr ⟨⟨root, path⟩, i, rfl⟩

namespace Opening

variable {o o' : Opening} {p : Place} {i : Nat}

/-- The check at a position opens a list as a group or by asking a validator. -/
theorem member?_eq_some (h : o.member? p i = some o') :
    (∃ members, o.checks[i]? = some (.group members) ∧
      o' = ⟨.any, members, o.value, o.route p⟩) ∨
    (∃ definition name age checks negated params,
      o.checks[i]? = some (.rule definition name (.validator age checks) negated params) ∧
      o.handle? p i = some
        (.asked (p.member i) ⟨definition, name, negated, params, o.value⟩ (o.route p)) ∧
      o' = ⟨.all, checks, o.value,
        .answer (p.member i) ⟨definition, name, negated, params, o.value⟩ (o.route p)⟩) := by
  unfold member? at h
  split at h
  next members found => exact .inl ⟨members, found, (Option.some.inj h).symm⟩
  next definition name age checks negated params found =>
    refine .inr ⟨definition, name, age, checks, negated, params, found, ?_, (Option.some.inj h).symm⟩
    simp [handle?, found]
  · cases h

/-- The check at a position hands out a handle as a rule clause. -/
theorem handle?_eq_some {h : Handle} (handed : o.handle? p i = some h) :
    ∃ definition name body negated params,
      o.checks[i]? = some (.rule definition name body negated params) ∧
      h = .asked (p.member i) ⟨definition, name, negated, params, o.value⟩ (o.route p) := by
  unfold handle? at handed
  split at handed
  next definition name body negated params found =>
    exact ⟨definition, name, body, negated, params, found, (Option.some.inj handed).symm⟩
  · cases handed

theorem WellFormed.check (wf : o.WellFormed) {check : Check} (found : o.checks[i]? = some check) :
    check.wellFormed = true :=
  Check.allWellFormed_iff.1 wf check (List.mem_of_getElem? found)

theorem WellFormed.member (wf : o.WellFormed) (h : o.member? p i = some o') : o'.WellFormed := by
  obtain ⟨members, found, rfl⟩ | ⟨_, _, _, _, _, _, found, -, rfl⟩ := member?_eq_some h
  · have inner := wf.check found
    simp only [Check.wellFormed, Bool.and_eq_true] at inner
    exact inner.2
  · exact wf.check found

theorem lasting_parts (o : Opening) (p : Place) : ∀ part ∈ o.parts p, Lasting part :=
  Check.lasting_outcomes o.value p 0 o.checks

theorem length_parts (o : Opening) (p : Place) : (o.parts p).length = o.checks.length :=
  Check.length_outcomes o.value p 0 o.checks

theorem getElem?_parts (o : Opening) (p : Place) (i : Nat) :
    (o.parts p)[i]? = o.checks[i]?.map fun check => check.outcome? o.value (p.member i) := by
  rw [parts, Check.getElem?_outcomes, Nat.zero_add]

/-- What holds of all parts holds of the outcomes of all checks. -/
theorem forall_mem_parts {o : Opening} {p : Place} {holds : (Journal → Option Result) → Prop} :
    (∀ part ∈ o.parts p, holds part) ↔
      ∀ i (check : Check), o.checks[i]? = some check →
        holds (check.outcome? o.value (p.member i)) := by
  constructor
  · intro all i check found
    apply all
    rw [List.mem_iff_getElem?]
    exact ⟨i, by rw [getElem?_parts, found, Option.map_some]⟩
  · intro all part mem
    obtain ⟨i, check, found, rfl⟩ := Check.mem_outcomes mem
    exact all i check found

theorem WellFormed.blank_parts (wf : o.WellFormed) (p : Place) : ∀ part ∈ o.parts p, Blank part :=
  Check.blank_outcomes o.value p 0 o.checks wf

/-- The results are those that the checks have, in another order. -/
theorem WellFormed.results_perm (wf : o.WellFormed) (p : Place) (journal : Journal) :
    (o.results p journal).Perm ((o.parts p).filterMap fun part => part journal) :=
  arrivals_perm (o.lasting_parts p) (wf.blank_parts p) journal

theorem WellFormed.length_results (wf : o.WellFormed) (p : Place) (journal : Journal) :
    (o.results p journal).length = (o.parts p).countP fun part => (part journal).isSome := by
  rw [(wf.results_perm p journal).length_eq, List.length_filterMap_eq_countP]

theorem WellFormed.length_results_le (wf : o.WellFormed) (p : Place) (journal : Journal) :
    (o.results p journal).length ≤ o.checks.length := by
  rw [wf.length_results, ← o.length_parts p]
  exact List.countP_le_length

/-- As many results as checks: each check has one. -/
theorem WellFormed.length_results_eq_iff (wf : o.WellFormed) (p : Place) (journal : Journal) :
    (o.results p journal).length = o.checks.length ↔
      ∀ part ∈ o.parts p, (part journal).isSome = true := by
  rw [wf.length_results, ← o.length_parts p, List.countP_eq_length]

theorem WellFormed.mem_results (wf : o.WellFormed) {journal : Journal} {result : Result} :
    result ∈ o.results p journal ↔
      ∃ i, ∃ check : Check, o.checks[i]? = some check ∧
        check.outcome? o.value (p.member i) journal = some result := by
  rw [(wf.results_perm p journal).mem_iff, List.mem_filterMap]
  constructor
  · rintro ⟨part, mem, h⟩
    obtain ⟨i, check, found, rfl⟩ := Check.mem_outcomes mem
    exact ⟨i, check, found, h⟩
  · rintro ⟨i, check, found, h⟩
    refine ⟨_, List.mem_of_getElem? (i := i) ?_, h⟩
    rw [getElem?_parts, found, Option.map_some]

/-- A list whose checks have all come to something is decided. -/
theorem WellFormed.decided_of_full (wf : o.WellFormed) {journal : Journal}
    (come : ∀ part ∈ o.parts p, (part journal).isSome = true) :
    (o.decision? p journal).isSome = true := by
  have full := (wf.length_results_eq_iff p journal).2 come
  rw [decision?]
  cases o.combinator with
  | all =>
    rw [Combinator.decision?]
    split
    · rfl
    · rw [if_pos full]
      rfl
  | any =>
    rw [Combinator.decision?, if_pos full]
    rfl

/-- A group comes to what its list decides. -/
theorem WellFormed.outcome?_group {members : List Check} {value : Json} {onward : Route}
    (wf : WellFormed ⟨.any, members, value, onward⟩) (p : Place) (journal : Journal) :
    (Check.group members).outcome? value p journal =
      decision? ⟨.any, members, value, onward⟩ p journal := by
  have decided := (wf.length_results_eq_iff p journal).trans List.all_eq_true.symm
  simp only [Check.outcome?, disjunction?, decision?, Combinator.decision?]
  by_cases all : ((parts ⟨.any, members, value, onward⟩ p).all fun part =>
      (part journal).isSome) = true
  · rw [if_pos (decided.2 all)]
    exact if_pos all
  · rw [if_neg (mt decided.1 all)]
    exact if_neg all

end Opening

namespace Layout

variable {layout later : Layout}

/-- The list of a member stands in a list. -/
theorem opening?_member_eq_some {p : Place} {i : Nat} {o : Opening}
    (h : layout.opening? (p.member i) = some o) :
    ∃ outer, layout.opening? p = some outer ∧ outer.member? p i = some o :=
  Option.bind_eq_some_iff.1 h

theorem WellFormed.opening (wf : layout.WellFormed) :
    ∀ {p : Place} {o : Opening}, layout.opening? p = some o → o.WellFormed := by
  rintro ⟨root, path⟩ o h
  induction path generalizing o with
  | nil => exact wf root o h
  | cons i path ih =>
    obtain ⟨outer, found, h⟩ := Option.bind_eq_some_iff.1 h
    exact (ih found).member h

theorem root_of_opening? {p : Place} {o : Opening} (h : layout.opening? p = some o) :
    ∃ first, layout p.root = some first := by
  obtain ⟨root, path⟩ := p
  induction path generalizing o with
  | nil => exact ⟨o, h⟩
  | cons i path ih =>
    obtain ⟨outer, found, -⟩ := Option.bind_eq_some_iff.1 h
    exact ih found

theorem Extends.refl (layout : Layout) : layout.Extends layout := fun _ _ h => h

theorem Extends.trans {first last : Layout} (earlier : first.Extends layout)
    (h : layout.Extends last) : first.Extends last :=
  fun root o found => h root o (earlier root o found)

theorem extends_extend {root : Root} (new : layout root = none) (o : Opening) :
    layout.Extends (layout.extend root o) := by
  intro r first h
  have other : r ≠ root := by
    rintro rfl
    rw [new] at h
    cases h
  simp [extend, other, h]

@[simp] theorem extend_self (layout : Layout) (root : Root) (o : Opening) :
    layout.extend root o root = some o := by
  simp [extend]

theorem extend_of_ne {root r : Root} (other : r ≠ root) (o : Opening) :
    layout.extend root o r = layout r := by
  simp [extend, other]

theorem Extends.opening? (ext : layout.Extends later) {p : Place} {o : Opening}
    (h : layout.opening? p = some o) : later.opening? p = some o := by
  obtain ⟨root, path⟩ := p
  induction path generalizing o with
  | nil => exact ext root o h
  | cons i path ih =>
    obtain ⟨outer, found, h⟩ := Option.bind_eq_some_iff.1 h
    exact Option.bind_eq_some_iff.2 ⟨outer, ih found, h⟩

/-- A handle stands in a list. -/
theorem handle?_eq_some {p : Place} {h : Handle} (handed : layout.handle? p = some h) :
    ∃ q i o, p = Place.member q i ∧ layout.opening? q = some o ∧ o.handle? q i = some h := by
  obtain root | ⟨q, i, rfl⟩ := p.root_or_member
  · rw [root] at handed
    cases handed
  · rw [handle?_member] at handed
    obtain ⟨o, found, handed⟩ := Option.bind_eq_some_iff.1 handed
    exact ⟨q, i, o, rfl, found, handed⟩

theorem handle?_of_opening? {p : Place} {i : Nat} {o : Opening} {h : Handle}
    (found : layout.opening? p = some o) (handed : o.handle? p i = some h) :
    layout.handle? (p.member i) = some h := by
  rw [handle?_member, found]
  exact handed

theorem Extends.handle? (ext : layout.Extends later) {p : Place} {h : Handle}
    (handed : layout.handle? p = some h) : later.handle? p = some h := by
  obtain ⟨q, i, o, rfl, found, handed⟩ := handle?_eq_some handed
  exact handle?_of_opening? (ext.opening? found) handed

end Layout
end Criteria
