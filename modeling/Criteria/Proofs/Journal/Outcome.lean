import Criteria.Engine.State

/-!
# What a journal says about clauses

The journal notes each first settlement of a handle as a judgement. Everything else that a clause
comes to follows from the judgements: a rule clause has the result of its judgement, a group has
one as soon as all its members have one. Members are counted in the order in which they came to a
result, so a failed group lists its failures in that order.

The facts at the end say how one more event changes this: results last, an event elsewhere changes
nothing, and the arrivals are a rearrangement of the results that are there.
-/

namespace Criteria
set_option autoImplicit false

/-- What happened, the latest first. -/
abbrev Journal := List Event

/-- Of two ends of a journal, one starts with an event: the other lies behind it or contains it. -/
theorem suffix_cases {event : Event} {before middle last : Journal}
    (first : event :: before <:+ last) (second : middle <:+ last) :
    middle <:+ before ∨ event :: before <:+ middle := by
  rcases List.suffix_or_suffix_of_suffix first second with inside | outside
  · exact .inr inside
  · rcases List.suffix_cons_iff.1 outside with rfl | behind
    · exact .inr (List.suffix_refl _)
    · exact .inl behind

/-- A journal does not lie behind an event of its own. -/
theorem not_suffix_of_cons_suffix {event : Event} {before journal : Journal}
    (behind : event :: before <:+ journal) : ¬ journal <:+ before := by
  intro ahead
  have longer := behind.length_le
  have shorter := ahead.length_le
  rw [List.length_cons] at longer
  omega

/-- An event that is noted after a state of the journal is among the news since then. -/
theorem mem_of_since {event : Event} {news before first : Journal}
    (behind : event :: before <:+ news ++ first) (ahead : first <:+ before) : event ∈ news := by
  obtain ⟨front, starts⟩ := behind
  obtain ⟨middle, rfl⟩ := ahead
  have whole : (front ++ event :: middle) ++ first = news ++ first := by
    rw [← starts, List.append_assoc, List.cons_append]
  rw [← List.append_cancel_right whole]
  exact List.mem_append_right front List.mem_cons_self

/-- Whether one place lies on the way down to another. -/
def Place.Encloses (outer inner : Place) : Prop :=
  outer.root = inner.root ∧ outer.path <:+ inner.path

instance (outer inner : Place) : Decidable (outer.Encloses inner) :=
  inferInstanceAs (Decidable (_ ∧ _))

namespace Place

/-- The place of the list of a call. -/
abbrev ofCall (call : Nat) : Place := ⟨.call call, []⟩

theorem Encloses.refl (p : Place) : p.Encloses p := ⟨rfl, List.suffix_refl _⟩

theorem Encloses.trans {p q r : Place} (first : p.Encloses q) (second : q.Encloses r) :
    p.Encloses r :=
  ⟨first.1.trans second.1, first.2.trans second.2⟩

theorem encloses_member (p : Place) (i : Nat) : p.Encloses (p.member i) :=
  ⟨rfl, List.suffix_cons _ _⟩

/-- The places on the way to a member are the member itself and those on the way to the list. -/
theorem encloses_member_iff {x p : Place} {i : Nat} :
    x.Encloses (p.member i) ↔ x = p.member i ∨ x.Encloses p := by
  obtain ⟨xr, xp⟩ := x
  simp only [Encloses, member, List.suffix_cons_iff, Place.mk.injEq, and_or_left]

/-- The way down to a place passes through one member of a list only. -/
theorem member_unique {p q : Place} {i j : Nat} (first : (p.member i).Encloses q)
    (second : (p.member j).Encloses q) : i = j := by
  have nested : (p.member i).path <:+ (p.member j).path :=
    List.suffix_of_suffix_length_le first.2 second.2 (by simp [member])
  have same := nested.eq_of_length (by simp [member])
  exact (List.cons.inj same).1

theorem not_member_encloses (p : Place) (i : Nat) : ¬ (p.member i).Encloses p := by
  intro h
  have := h.2.length_le
  simp only [member, List.length_cons] at this
  omega

theorem member_inj {p q : Place} {i j : Nat} : p.member i = q.member j ↔ p = q ∧ i = j := by
  obtain ⟨root, path⟩ := p
  obtain ⟨root', path'⟩ := q
  simp only [member, Place.mk.injEq, List.cons.injEq]
  exact ⟨fun ⟨a, b, c⟩ => ⟨⟨a, c⟩, b⟩, fun ⟨⟨a, c⟩, b⟩ => ⟨a, b, c⟩⟩

theorem Encloses.eq_root {x : Place} {root : Root} (h : x.Encloses ⟨root, []⟩) : x = ⟨root, []⟩ := by
  obtain ⟨xr, xp⟩ := x
  obtain ⟨same, suffix⟩ := h
  rw [Place.mk.injEq]
  exact ⟨same, List.eq_nil_of_suffix_nil suffix⟩

end Place

/-- What an event says about the question of a place. -/
def Event.judgementAt? (place : Place) : Event → Option Result
  | .judged p _ result => if p = place then some result else none
  | _ => none

/-- Whether an event judges a question at a place or further down. -/
def Event.Touches (event : Event) (place : Place) : Prop :=
  match event with
  | .judged p _ _ => place.Encloses p
  | _ => False

/-- The first judgement of the question of a place. -/
def judgement? (place : Place) : Journal → Option Result
  | [] => none
  | event :: earlier => (judgement? place earlier).or (event.judgementAt? place)

/-- The failure in a result. -/
def Result.failure? : Result → Option Failure
  | .ok _ => none
  | .error f => some f

/-- The failures among results, in order. -/
def failures (results : List Result) : List Failure := results.filterMap Result.failure?

/-- The results of the parts of a list, in the order in which the parts came to them. -/
def arrivals (parts : List (Journal → Option Result)) : Journal → List Result
  | [] => []
  | event :: earlier =>
    arrivals parts earlier ++
      parts.filterMap fun part => if (part earlier).isNone then part (event :: earlier) else none

/-- What alternatives come to that had the given results: one must have passed. -/
def alternative (value : Json) (results : List Result) : Result :=
  if results.any Result.holds then .ok true else .error (.aggregate value (failures results))

/-- What alternatives come to: nothing before each of them has a result. -/
def disjunction? (value : Json) (parts : List (Journal → Option Result)) (journal : Journal) :
    Option Result :=
  if parts.all fun part => (part journal).isSome then
    some (alternative value (arrivals parts journal))
  else none

mutual

/-- The result of the check at a place, if it has come to one. -/
def Check.outcome? (value : Json) (place : Place) : Check → Journal → Option Result
  | .rule _ _ _ _ _ => judgement? place
  | .group members => disjunction? value (Check.outcomes value place 0 members)

/-- The results of the checks of the list at a place, the first of them at `position`. -/
def Check.outcomes (value : Json) (place : Place) (position : Nat) :
    List Check → List (Journal → Option Result)
  | [] => []
  | check :: rest =>
    check.outcome? value (place.member position) :: Check.outcomes value place (position + 1) rest

end

theorem Check.getElem?_outcomes (value : Json) (place : Place) (position : Nat)
    (checks : List Check) (i : Nat) :
    (Check.outcomes value place position checks)[i]? =
      checks[i]?.map fun check => check.outcome? value (place.member (position + i)) := by
  induction checks generalizing position i with
  | nil => simp [Check.outcomes]
  | cons check rest ih =>
    cases i with
    | zero => simp [Check.outcomes]
    | succ i =>
      simp only [Check.outcomes, List.getElem?_cons_succ, ih]
      rw [show position + 1 + i = position + (i + 1) by omega]

theorem Check.length_outcomes (value : Json) (place : Place) (position : Nat)
    (checks : List Check) : (Check.outcomes value place position checks).length = checks.length := by
  induction checks generalizing position with
  | nil => rfl
  | cons check rest ih => simp [Check.outcomes, ih]

theorem Check.mem_outcomes {value : Json} {place : Place} {checks : List Check}
    {part : Journal → Option Result} (h : part ∈ Check.outcomes value place 0 checks) :
    ∃ i, ∃ check : Check, checks[i]? = some check ∧
      part = check.outcome? value (place.member i) := by
  obtain ⟨i, hi⟩ := List.mem_iff_getElem?.1 h
  rw [Check.getElem?_outcomes] at hi
  obtain ⟨check, found, rfl⟩ := Option.map_eq_some_iff.1 hi
  exact ⟨i, check, found, by simp⟩

/-! ## Results last -/

/-- A part keeps its result for good. -/
def Lasting (part : Journal → Option Result) : Prop :=
  ∀ ⦃event : Event⦄ ⦃journal : Journal⦄ ⦃result : Result⦄,
    part journal = some result → part (event :: journal) = some result

theorem lasting_judgement (place : Place) : Lasting (judgement? place) := by
  intro event journal result h
  simp [judgement?, h]

/-- An event that changes none of the parts brings no arrival. -/
theorem arrivals_cons_of_same {parts : List (Journal → Option Result)} {event : Event}
    {journal : Journal} (same : ∀ part ∈ parts, part (event :: journal) = part journal) :
    arrivals parts (event :: journal) = arrivals parts journal := by
  have none_new : (parts.filterMap fun part =>
      if (part journal).isNone then part (event :: journal) else none) = [] := by
    rw [List.filterMap_eq_nil_iff]
    intro part mem
    rw [same part mem]
    cases h : part journal <;> simp
  rw [arrivals, none_new, List.append_nil]

theorem disjunction?_cons_of_same {value : Json} {parts : List (Journal → Option Result)}
    {event : Event} {journal : Journal}
    (same : ∀ part ∈ parts, part (event :: journal) = part journal) :
    disjunction? value parts (event :: journal) = disjunction? value parts journal := by
  have all_same : (parts.all fun part => (part (event :: journal)).isSome) =
      parts.all fun part => (part journal).isSome := by
    rw [Bool.eq_iff_iff, List.all_eq_true, List.all_eq_true]
    exact forall₂_congr fun part mem => by rw [same part mem]
  simp only [disjunction?, all_same, arrivals_cons_of_same same]

theorem lasting_disjunction {value : Json} {parts : List (Journal → Option Result)}
    (lasting : ∀ part ∈ parts, Lasting part) : Lasting (disjunction? value parts) := by
  intro event journal result h
  by_cases decided : (parts.all fun part => (part journal).isSome) = true
  · have same : ∀ part ∈ parts, part (event :: journal) = part journal := by
      intro part mem
      obtain ⟨r, hr⟩ := Option.isSome_iff_exists.1 (List.all_eq_true.1 decided part mem)
      rw [hr, lasting part mem hr]
    rw [disjunction?_cons_of_same same, h]
  · simp [disjunction?, decided] at h

mutual

theorem Check.lasting_outcome (value : Json) (place : Place) :
    (check : Check) → Lasting (check.outcome? value place)
  | .rule _ _ _ _ _ => lasting_judgement place
  | .group members => lasting_disjunction (Check.lasting_outcomes value place 0 members)

theorem Check.lasting_outcomes (value : Json) (place : Place) (position : Nat) :
    (checks : List Check) → ∀ part ∈ Check.outcomes value place position checks, Lasting part
  | [] => by simp [Check.outcomes]
  | check :: rest => by
    simp only [Check.outcomes, List.forall_mem_cons]
    exact ⟨Check.lasting_outcome value _ check, Check.lasting_outcomes value place _ rest⟩

end

theorem Lasting.mono {part : Journal → Option Result} (lasting : Lasting part)
    {earlier later : Journal} (h : earlier <:+ later) {result : Result}
    (had : part earlier = some result) : part later = some result := by
  obtain ⟨news, rfl⟩ := h
  induction news with
  | nil => exact had
  | cons event news ih => exact lasting ih

theorem Lasting.isSome_mono {part : Journal → Option Result} (lasting : Lasting part)
    {earlier later : Journal} (h : earlier <:+ later) (had : (part earlier).isSome = true) :
    (part later).isSome = true := by
  obtain ⟨result, found⟩ := Option.isSome_iff_exists.1 had
  rw [lasting.mono h found]
  rfl

theorem mem_of_judgement? {place : Place} {result : Result} :
    ∀ {journal : Journal}, judgement? place journal = some result →
      ∃ answer, Event.judged place answer result ∈ journal
  | [], h => by cases h
  | event :: earlier, h => by
    rw [judgement?, Option.or_eq_some_iff] at h
    rcases h with before | ⟨-, now⟩
    · obtain ⟨answer, mem⟩ := mem_of_judgement? before
      exact ⟨answer, List.mem_cons_of_mem _ mem⟩
    · cases event with
      | judged q answer judgement =>
        rw [Event.judgementAt?] at now
        split at now
        next here =>
          cases now
          exact ⟨answer, here ▸ List.mem_cons_self⟩
        · cases now
      | _ => cases now

/-- What is noted was noted at some point. -/
theorem suffix_of_mem {event : Event} {journal : Journal} (mem : event ∈ journal) :
    ∃ before, event :: before <:+ journal := by
  obtain ⟨later, before, rfl⟩ := List.append_of_mem mem
  exact ⟨before, List.suffix_append _ _⟩

/-- What has a judgement was judged at some point. -/
theorem suffix_of_judgement? {place : Place} {journal : Journal}
    (judged : (judgement? place journal).isSome = true) :
    ∃ answer result before, .judged place answer result :: before <:+ journal := by
  obtain ⟨result, found⟩ := Option.isSome_iff_exists.1 judged
  obtain ⟨answer, mem⟩ := mem_of_judgement? found
  obtain ⟨before, behind⟩ := suffix_of_mem mem
  exact ⟨answer, result, before, behind⟩

theorem judgement?_of_mem {place : Place} {answer : Answer} {result : Result} {journal : Journal}
    (mem : Event.judged place answer result ∈ journal) : (judgement? place journal).isSome = true := by
  induction journal with
  | nil => cases mem
  | cons event earlier ih =>
    rw [judgement?, Option.isSome_or, Bool.or_eq_true]
    rcases List.mem_cons.1 mem with rfl | mem
    · exact .inr (by simp [Event.judgementAt?])
    · exact .inl (ih mem)

/-! ## An event elsewhere changes nothing -/

theorem judgement?_cons_of_ne {place q : Place} {answer : Answer} {result : Result}
    {journal : Journal} (other : q ≠ place) :
    judgement? place (.judged q answer result :: journal) = judgement? place journal := by
  simp [judgement?, Event.judgementAt?, other]

/-- The first answer to a question is what it is judged by. -/
theorem judgement?_cons_self {place : Place} {answer : Answer} {result : Result} {journal : Journal}
    (unjudged : judgement? place journal = none) :
    judgement? place (.judged place answer result :: journal) = some result := by
  rw [judgement?, unjudged, Option.none_or, Event.judgementAt?, if_pos rfl]

theorem judgement?_cons_of_untouched {place : Place} {event : Event} {journal : Journal}
    (h : ¬ event.Touches place) : judgement? place (event :: journal) = judgement? place journal := by
  cases event with
  | judged q answer result =>
    apply judgement?_cons_of_ne
    rintro rfl
    exact h (Place.Encloses.refl _)
  | _ => simp [judgement?, Event.judgementAt?]

theorem Event.Touches.of_member {event : Event} {place : Place} {i : Nat}
    (h : event.Touches (place.member i)) : event.Touches place := by
  cases event with
  | judged q answer result => exact (place.encloses_member i).trans h
  | _ => exact h

mutual

theorem Check.outcome?_cons_of_untouched (value : Json) {place : Place} {event : Event}
    (journal : Journal) (h : ¬ event.Touches place) :
    (check : Check) → check.outcome? value place (event :: journal) =
      check.outcome? value place journal
  | .rule _ _ _ _ _ => judgement?_cons_of_untouched h
  | .group members =>
    disjunction?_cons_of_same (Check.outcomes_cons_of_untouched value journal h 0 members)

theorem Check.outcomes_cons_of_untouched (value : Json) {place : Place} {event : Event}
    (journal : Journal) (h : ¬ event.Touches place) (position : Nat) :
    (checks : List Check) → ∀ part ∈ Check.outcomes value place position checks,
      part (event :: journal) = part journal
  | [] => by simp [Check.outcomes]
  | check :: rest => by
    simp only [Check.outcomes, List.forall_mem_cons]
    exact ⟨Check.outcome?_cons_of_untouched value journal (fun t => h t.of_member) check,
      Check.outcomes_cons_of_untouched value journal h _ rest⟩

end

/-! ## Arrivals are the results that are there -/

/-- Nothing has come to a result in an empty journal. -/
def Blank (part : Journal → Option Result) : Prop := part [] = none

theorem perm_filterMap_cons {parts : List (Journal → Option Result)}
    (lasting : ∀ part ∈ parts, Lasting part) (event : Event) (journal : Journal) :
    (parts.filterMap fun part => part (event :: journal)).Perm
      ((parts.filterMap fun part => part journal) ++
        parts.filterMap fun part => if (part journal).isNone then part (event :: journal) else none) := by
  induction parts with
  | nil => simp
  | cons part parts ih =>
    have rest := ih fun p mem => lasting p (List.mem_cons_of_mem _ mem)
    cases before : part journal with
    | some r =>
      have after : part (event :: journal) = some r := lasting part List.mem_cons_self before
      simpa [List.filterMap_cons, before, after] using rest
    | none =>
      cases after : part (event :: journal) with
      | none => simpa [List.filterMap_cons, before, after] using rest
      | some r =>
        simp only [List.filterMap_cons, before, after, Option.isNone_none, if_true]
        exact (rest.cons r).trans List.perm_middle.symm

theorem arrivals_perm {parts : List (Journal → Option Result)}
    (lasting : ∀ part ∈ parts, Lasting part) (blank : ∀ part ∈ parts, Blank part)
    (journal : Journal) :
    (arrivals parts journal).Perm (parts.filterMap fun part => part journal) := by
  induction journal with
  | nil =>
    have : (parts.filterMap fun part => part []) = [] := List.filterMap_eq_nil_iff.2 blank
    rw [arrivals, this]
  | cons event journal ih =>
    rw [arrivals]
    exact (ih.append_right _).trans (perm_filterMap_cons lasting event journal).symm

end Criteria
