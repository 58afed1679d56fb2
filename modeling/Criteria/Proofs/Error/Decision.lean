import Criteria.Proofs.Journal.Outcome
import Mathlib.Data.List.Basic

/-!
# In which order the parts of a list are decided

`decisions` lists the positions of the parts of a list in the order in which they came to a result. The
results of a list arrive in this order (`arrivals_eq`), and if no event decides two parts at once, then
each listed part was decided before the next one (`decisions_pairwise`).
-/

namespace Criteria
set_option autoImplicit false

/-- The result of the part at a position. -/
def resultAt? (parts : List (Journal → Option Result)) (i : Nat) (journal : Journal) :
    Option Result :=
  parts[i]?.bind (· journal)

/-- Whether an event is the one that decides the part at a position. -/
def Decides (parts : List (Journal → Option Result)) (event : Event) (earlier : Journal) (i : Nat) :
    Bool :=
  (resultAt? parts i earlier).isNone && (resultAt? parts i (event :: earlier)).isSome

/-- The positions of the parts that have a result, in the order in which they came to it. -/
def decisions (parts : List (Journal → Option Result)) : Journal → List Nat
  | [] => []
  | event :: earlier =>
    decisions parts earlier ++ (List.range parts.length).filter (Decides parts event earlier)

/-- Whether a part had a result when another one had none yet. -/
def DecidedBefore (parts : List (Journal → Option Result)) (journal : Journal) (i j : Nat) : Prop :=
  ∃ earlier, earlier <:+ journal ∧ (resultAt? parts i earlier).isSome = true ∧
    resultAt? parts j earlier = none

/-- Whether no event decides two parts. -/
def Exclusive (parts : List (Journal → Option Result)) : Prop :=
  ∀ event earlier i j, Decides parts event earlier i = true → Decides parts event earlier j = true →
    i = j

variable {parts : List (Journal → Option Result)}

theorem lt_length_of_resultAt? {i : Nat} {journal : Journal}
    (h : (resultAt? parts i journal).isSome = true) : i < parts.length := by
  refine Nat.lt_of_not_le fun beyond => ?_
  rw [resultAt?, List.getElem?_eq_none beyond] at h
  cases h

theorem lasting_resultAt? (lasting : ∀ part ∈ parts, Lasting part) (i : Nat) :
    Lasting (resultAt? parts i) := by
  intro event journal result had
  obtain ⟨part, here, had⟩ := Option.bind_eq_some_iff.1 had
  exact Option.bind_eq_some_iff.2 ⟨part, here, lasting part (List.mem_of_getElem? here) had⟩

theorem resultAt?_nil (blank : ∀ part ∈ parts, Blank part) (i : Nat) :
    resultAt? parts i [] = none := by
  rw [resultAt?]
  cases here : parts[i]? with
  | none => rfl
  | some part => exact blank part (List.mem_of_getElem? here)

/-- **The listed parts are those that have a result.** -/
theorem mem_decisions (lasting : ∀ part ∈ parts, Lasting part) (blank : ∀ part ∈ parts, Blank part)
    {i : Nat} : ∀ {journal : Journal},
      i ∈ decisions parts journal ↔ (resultAt? parts i journal).isSome = true
  | [] => by simp [decisions, resultAt?_nil blank]
  | event :: earlier => by
    rw [decisions, List.mem_append, mem_decisions lasting blank, List.mem_filter, List.mem_range,
      Decides, Bool.and_eq_true, Option.isNone_iff_eq_none]
    constructor
    · rintro (before | ⟨-, -, now⟩)
      · exact (lasting_resultAt? lasting i).isSome_mono (List.suffix_cons event earlier) before
      · exact now
    · intro now
      cases before : resultAt? parts i earlier with
      | some _ => exact .inl rfl
      | none => exact .inr ⟨lt_length_of_resultAt? now, rfl, now⟩

/-- Each part is listed once. -/
theorem nodup_decisions (lasting : ∀ part ∈ parts, Lasting part)
    (blank : ∀ part ∈ parts, Blank part) : ∀ journal : Journal, (decisions parts journal).Nodup
  | [] => List.nodup_nil
  | event :: earlier => by
    refine List.nodup_append.2 ⟨nodup_decisions lasting blank earlier,
      List.nodup_range.filter _, fun i before j now same => ?_⟩
    subst same
    have had := (mem_decisions lasting blank).1 before
    have decides := (List.mem_filter.1 now).2
    rw [Decides, Bool.and_eq_true, Option.isNone_iff_eq_none] at decides
    rw [decides.1] at had
    cases had

/-- A list mapped by position. -/
theorem filterMap_eq_range {α β : Type} (f : α → Option β) : ∀ items : List α,
    items.filterMap f = (List.range items.length).filterMap fun i => items[i]?.bind f
  | [] => rfl
  | item :: rest => by
    rw [List.length_cons, List.range_succ_eq_map, List.filterMap_cons, List.filterMap_cons,
      List.filterMap_map, filterMap_eq_range f rest]
    rfl

/-- **Results arrive in the order of the decisions.** -/
theorem arrivals_eq (lasting : ∀ part ∈ parts, Lasting part)
    (blank : ∀ part ∈ parts, Blank part) : ∀ journal : Journal,
      arrivals parts journal = (decisions parts journal).filterMap (resultAt? parts · journal)
  | [] => rfl
  | event :: earlier => by
    have before : (decisions parts earlier).filterMap (resultAt? parts · earlier) =
        (decisions parts earlier).filterMap (resultAt? parts · (event :: earlier)) := by
      refine List.filterMap_congr fun i mem => ?_
      obtain ⟨result, had⟩ := Option.isSome_iff_exists.1 ((mem_decisions lasting blank).1 mem)
      rw [had, lasting_resultAt? lasting i had]
    rw [arrivals, decisions, List.filterMap_append, arrivals_eq lasting blank earlier, before,
      filterMap_eq_range _ parts, List.filterMap_filter]
    refine congrArg _ (List.filterMap_congr fun i _ => ?_)
    rw [Decides, resultAt?, resultAt?]
    cases parts[i]? with
    | none => rfl
    | some part =>
      simp only [Option.bind_some]
      cases part earlier with
      | some _ => rfl
      | none => cases part (event :: earlier) <;> rfl

theorem DecidedBefore.mono {earlier later : Journal} (sub : earlier <:+ later) {i j : Nat}
    (h : DecidedBefore parts earlier i j) : DecidedBefore parts later i j := by
  obtain ⟨middle, before, had, yet⟩ := h
  exact ⟨middle, before.trans sub, had, yet⟩

/-- **Each listed part was decided before those that follow it.** -/
theorem decisions_pairwise (lasting : ∀ part ∈ parts, Lasting part)
    (blank : ∀ part ∈ parts, Blank part) (exclusive : Exclusive parts) : ∀ journal : Journal,
      (decisions parts journal).Pairwise (DecidedBefore parts journal)
  | [] => List.Pairwise.nil
  | event :: earlier => by
    have sub := List.suffix_cons event earlier
    refine List.pairwise_append.2 ⟨(decisions_pairwise lasting blank exclusive earlier).imp
      (DecidedBefore.mono sub), ?_, fun i before j now => ?_⟩
    · -- At most one part is decided by the event.
      refine (List.nodup_range.filter _).imp_of_mem fun {i j} first second other => ?_
      exact absurd (exclusive event earlier i j (List.mem_filter.1 first).2
        (List.mem_filter.1 second).2) other
    · have decides := (List.mem_filter.1 now).2
      rw [Decides, Bool.and_eq_true, Option.isNone_iff_eq_none] at decides
      exact ⟨earlier, sub, (mem_decisions lasting blank).1 before, decides.1⟩

/-- Parts that are decided in declared order are listed in declared order. -/
theorem eq_range_of_declared {order : List Nat} {n : Nat} {journal : Journal}
    (perm : order.Perm (List.range n)) (pairwise : order.Pairwise (DecidedBefore parts journal))
    (declared : ∀ i j, i < j → j < n → ∀ earlier, earlier <:+ journal →
      (resultAt? parts j earlier).isSome = true → (resultAt? parts i earlier).isSome = true) :
    order = List.range n := by
  have sorted : order.Pairwise (· < ·) := by
    refine pairwise.imp_of_mem fun {i j} first second before => ?_
    obtain ⟨earlier, sub, had, yet⟩ := before
    refine Nat.lt_of_not_le fun le => ?_
    have still : (resultAt? parts j earlier).isSome = true := by
      rcases Nat.eq_or_lt_of_le le with rfl | less
      · exact had
      · exact declared j i less (List.mem_range.1 (perm.mem_iff.1 first)) earlier sub had
    rw [yet] at still
    cases still
  exact perm.eq_of_pairwise (fun i j _ _ less more => absurd less (Nat.lt_asymm more)) sorted
    List.pairwise_lt_range

end Criteria
