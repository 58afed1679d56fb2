import Criteria.Engine.Call
import Criteria.Proofs.Nested.Relay

/-!
# What an undecided list waits for

A list that was started and has come to nothing yet waits for a rule clause, in it or in the groups and
validators below it, that is no validator and whose handle is not settled. Nothing on the way up from
there has been decided either, so that handle leads wherever the list does (`Check.waits`).
-/

namespace Criteria
set_option autoImplicit false

variable {layout : Layout} {e : Engine} {call : Nat}

/-- Whether below a place a rule clause that is no validator waits for its answer, and its handle leads
to a call if a route does. -/
def Waits (layout : Layout) (e : Engine) (call : Nat) (p : Place) (route : Route) : Prop :=
  ∃ q handle, p.Encloses q ∧ layout.handle? q = some handle ∧ layout.opening? q = none ∧
    Issued q e.journal ∧ e.isSettled q = false ∧
    (e.leadsTo call route = true → e.leadsTo call handle.route = true)

/-- Whether a check that was started waits below its place, unless it has come to something. -/
def Check.Waits (layout : Layout) (e : Engine) (call : Nat) (check : Check) : Prop :=
  ∀ p k o, layout.opening? p = some o → o.checks[k]? = some check →
    check.Started o.value (p.member k) e.journal →
    check.outcome? o.value (p.member k) e.journal = none →
      Criteria.Waits layout e call (p.member k) (o.route p)

theorem Check.allStarted_iff {value : Json} {place : Place} {journal : Journal}
    {checks : List Check} : ∀ {position : Nat},
      Check.AllStarted value place journal position checks ↔ ∀ k check, checks[k]? = some check →
        Check.Started value (place.member (position + k)) journal check := by
  induction checks with
  | nil => simp [Check.AllStarted]
  | cons check rest ih =>
    intro position
    rw [Check.AllStarted, ih]
    constructor
    · rintro ⟨here, all⟩ (_ | k) later found
      · cases found
        exact here
      · rw [show position + (k + 1) = position + 1 + k by omega]
        exact all k later found
    · intro all
      refine ⟨all 0 check rfl, fun k later found => ?_⟩
      rw [show position + 1 + k = position + (k + 1) by omega]
      exact all (k + 1) later found

/-- An undecided list awaits its decision once something below it was started. -/
theorem Sound.isAwaited_of_issued (h : Sound layout e) {p q : Place} {o : Opening}
    (found : layout.opening? p = some o) (undecided : o.decision? p e.journal = none)
    (issued : Issued q e.journal) (inside : p.Encloses q) (other : p ≠ q) :
    e.isAwaited p = true := by
  have opened := h.opened_above (.inr issued) inside other
  rw [Engine.isAwaited, h.progress_at found opened, Option.map_some, Option.getD_some,
    Combinator.progress_awaited]
  exact Option.isNone_iff_eq_none.2 undecided

/-- A list that is not decided waits if its checks do. -/
theorem Sound.waits_of_list (h : Sound layout e) {p : Place} {o : Opening}
    (found : layout.opening? p = some o) (undecided : o.decision? p e.journal = none)
    (started : Check.AllStarted o.value p e.journal 0 o.checks)
    (members : ∀ check ∈ o.checks, check.Waits layout e call) :
    Waits layout e call p o.onward := by
  have wf := h.wellFormed.opening found
  obtain ⟨k, check, here, nothing⟩ : ∃ k, ∃ check : Check, o.checks[k]? = some check ∧
      check.outcome? o.value (p.member k) e.journal = none := by
    refine Classical.byContradiction fun all => ?_
    have full : (o.decision? p e.journal).isSome = true :=
      wf.decided_of_full (Opening.forall_mem_parts.2 fun k check here =>
        Option.isSome_iff_ne_none.2 fun nothing => all ⟨k, check, here, nothing⟩)
    rw [undecided] at full
    cases full
  have begun := Check.allStarted_iff.1 started k check here
  rw [Nat.zero_add] at begun
  obtain ⟨q, handle, inside, handed, leaf, issued, unsettled, leads⟩ :=
    members check (List.mem_of_getElem? here) p k o found here begun nothing
  have below := (p.encloses_member k).trans inside
  have other : p ≠ q := by
    rintro rfl
    exact Place.not_member_encloses p k inside
  refine ⟨q, handle, below, handed, leaf, issued, unsettled, fun onward => leads ?_⟩
  rw [Opening.route, Engine.leadsTo, h.isAwaited_of_issued found undecided issued below other, onward]
  rfl

/-- A rule clause without a judgement is not settled. -/
theorem Placed.unsettled_of_unjudged (h : Placed layout e) {p : Place} {handle : Handle}
    (handed : layout.handle? p = some handle) (unjudged : judgement? p e.journal = none) :
    e.isSettled p = false := by
  refine Bool.eq_false_iff.2 fun settled => ?_
  have mem : p ∈ e.settled := by simpa [Engine.isSettled] using settled
  have judged := (h.settled p handle handed).1 mem
  rw [unjudged] at judged
  cases judged

/-- A rule clause with such a body waits for its own answer. -/
theorem Sound.waits_of_leaf (h : Sound layout e) {p : Place} {k : Nat} {o : Opening}
    {definition : Nat} {name : String} {body : Body} {negated : Bool} {params : List Json}
    (found : layout.opening? p = some o)
    (here : o.checks[k]? = some (.rule definition name body negated params))
    (leaf : ∀ age checks, body ≠ .validator age checks) (issued : Issued (p.member k) e.journal)
    (unjudged : judgement? (p.member k) e.journal = none) :
    Waits layout e call (p.member k) (o.route p) := by
  have handed : layout.handle? (p.member k) = some _ :=
    Layout.handle?_of_opening? found (by simp only [Opening.handle?, here]; rfl)
  have closed : layout.opening? (p.member k) = none := by
    rw [Layout.opening?_member, found, Option.bind_some, Opening.member?, here]
    cases body with
    | validator age checks => exact absurd rfl (leaf age checks)
    | test | scripted => rfl
  have unsettled := h.toPlaced.unsettled_of_unjudged handed unjudged
  refine ⟨_, _, .refl _, handed, closed, issued, unsettled, fun onward => ?_⟩
  rw [Handle.route, Engine.leadsTo, unsettled, onward]
  rfl

mutual

/-- A rule clause waits in its validator or for its own answer. -/
theorem Body.waits (h : Sound layout e) (relayed : Relayed layout e.journal) : (body : Body) →
    ∀ definition name negated params,
      Check.Waits layout e call (.rule definition name body negated params)
  | .test _ => fun _ _ _ _ p k o found here started nothing =>
    h.waits_of_leaf found here (by simp) started.1 nothing
  | .scripted _ => fun _ _ _ _ p k o found here started nothing =>
    h.waits_of_leaf found here (by simp) started.1 nothing
  | .validator age checks => by
    rintro definition name negated params p k o found here ⟨-, begun, answered⟩ nothing
    have members := Check.allWait h relayed checks
    have unjudged : judgement? (p.member k) e.journal = none := nothing
    have handed : layout.handle? (p.member k) = some _ :=
      Layout.handle?_of_opening? found (by simp only [Opening.handle?, here]; rfl)
    have inner : layout.opening? (p.member k) = some ⟨.all, checks, o.value,
        .answer (p.member k) ⟨definition, name, negated, params, o.value⟩ (o.route p)⟩ := by
      rw [Layout.opening?_member, found, Option.bind_some, Opening.member?, here]
    have inhabited : checks ≠ [] := by
      rintro rfl
      have judged := answered age rfl
      rw [unjudged] at judged
      cases judged
    -- A decision of the validator would have answered the clause.
    have undecided : Opening.decision? ⟨.all, checks, o.value,
        .answer (p.member k) ⟨definition, name, negated, params, o.value⟩ (o.route p)⟩ (p.member k)
          e.journal = none := by
      rw [Option.eq_none_iff_forall_ne_some]
      intro decision decided
      have judged := relayed.settles (p.member k) _ ⟨inner, _, handed⟩ inhabited (by rw [decided]; rfl)
      rw [unjudged] at judged
      cases judged
    have started : Check.AllStarted o.value (p.member k) e.journal 0 checks := by
      refine begun.resolve_left fun failed => ?_
      obtain ⟨f, failed⟩ := Option.isSome_iff_exists.1 failed
      cases undecided.symm.trans (Combinator.decision?_all_eq_error.2 failed)
    obtain ⟨q, handle, inside, handed', leaf, issued, unsettled, leads⟩ :=
      h.waits_of_list inner undecided started members
    refine ⟨q, handle, inside, handed', leaf, issued, unsettled, fun onward => leads ?_⟩
    rw [Engine.leadsTo, h.toPlaced.unsettled_of_unjudged handed unjudged, onward]
    rfl

/-- **A check that was started waits** below its place as long as it has come to nothing. -/
theorem Check.waits (h : Sound layout e) (relayed : Relayed layout e.journal) : (check : Check) →
    check.Waits layout e call
  | .rule definition name body negated params =>
    Body.waits h relayed body definition name negated params
  | .group members => by
    intro p k o found here started nothing
    have inner : layout.opening? (p.member k) = some ⟨.any, members, o.value, o.route p⟩ := by
      rw [Layout.opening?_member, found, Option.bind_some, Opening.member?, here]
    have undecided := (h.wellFormed.opening inner).outcome?_group (p.member k) e.journal
    exact h.waits_of_list inner (undecided.symm.trans nothing) started
      (Check.allWait h relayed members)

theorem Check.allWait (h : Sound layout e) (relayed : Relayed layout e.journal) :
    (checks : List Check) → ∀ check ∈ checks, check.Waits layout e call
  | [] => by simp
  | first :: rest => List.forall_mem_cons.2
    ⟨Check.waits h relayed first, Check.allWait h relayed rest⟩

end

end Criteria
