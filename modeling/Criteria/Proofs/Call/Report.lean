import Criteria.Proofs.Layout.Plain
import Criteria.Proofs.Run.Reach

/-!
# What a first settlement sets off

In a call of a plain validator a first settlement either makes its top-level clause fail, which is
what the settler is told, or it is told nothing. If the clause decides the list of the call, the
completion hears of it. `Opening.account` is all that the journal notes of one first settlement, and
`deliver_account` follows a result through the lists on its way to show that nothing else is noted.
-/

namespace Criteria
set_option autoImplicit false

/-- What is told of the change of a clause: its failure. -/
def toldOf (before after : Option Result) : Report :=
  match before, after with
  | none, some (.error f) => .error f
  | _, _ => .ok ()

/-- How the completion of a call hears that the list of the call is decided: a failure reaches it only
after the return. -/
def heardOf (call : Nat) (returned : Bool) (before after : Option Result) : Journal :=
  match before, after with
  | none, some decision => if returned || decision.isOk then [.completed call decision] else []
  | _, _ => []

/-- All that the journal notes of the first settlement of a handle in a plain call. -/
def Opening.account (o : Opening) (call : Nat) (p : Place) (answer : Answer) (result : Result)
    (before : Journal) : Journal :=
  let after := .judged p answer result :: before
  .told p (toldOf (o.clause? (.ofCall call) p.first before) (o.clause? (.ofCall call) p.first after)) ::
    (heardOf call (returned? call before).isSome (o.decision? (.ofCall call) before)
      (o.decision? (.ofCall call) after) ++ after)

theorem toldOf_new (result : Result) : toldOf none (some result) = result.map fun _ => () := by
  cases result <;> rfl

theorem toldOf_same (outcome : Option Result) : toldOf outcome outcome = .ok () := by
  rcases outcome with _ | _ | _ <;> rfl

theorem heardOf_same (call : Nat) (returned : Bool) (decision : Option Result) :
    heardOf call returned decision decision = [] := by
  cases decision <;> rfl

/-- A completion judges nothing. -/
theorem judged_not_mem_heardOf {call : Nat} {returned : Bool} {before after : Option Result}
    {p : Place} {answer : Answer} {result : Result} :
    Event.judged p answer result ∉ heardOf call returned before after := by
  intro mem
  unfold heardOf at mem
  split at mem
  · split at mem <;> simp at mem
  · cases mem

theorem Opening.account_suffix (o : Opening) (call : Nat) (p : Place) (answer : Answer)
    (result : Result) (journal : Journal) :
    .judged p answer result :: journal <:+ o.account call p answer result journal :=
  (List.suffix_append _ _).trans (List.suffix_cons _ _)

variable {layout : Layout} {e : Engine}

/-! ## Along the lists -/

theorem complete_eq {call : Nat} {c : Call} (recorded : e.calls.get? call = some c)
    (decision : Result) :
    (e.complete call decision).1 = decision.map (fun _ => ()) ∧
      (e.complete call decision).2.journal =
        heardOf call c.returned.isSome none (some decision) ++ e.journal := by
  obtain ⟨value, failure, returned, completed⟩ := c
  cases decision with
  | ok passed =>
    simp only [Engine.complete, recorded]
    refine ⟨trivial, ?_⟩
    simp [heardOf, Except.isOk, Except.toBool, Engine.note, Engine.updateCall]
  | error f =>
    cases returned with
    | none =>
      simp only [Engine.complete, recorded]
      exact ⟨rfl, rfl⟩
    | some first =>
      simp only [Engine.complete, recorded]
      exact ⟨trivial, rfl⟩

/-- The report of a conjunction that passes its decision on is about the result that it took in. -/
theorem tell_all {size : Nat} {value : Json} {results : List Result} {result decision : Result}
    (passed : Combinator.all.passesOn size value results result = some decision) :
    Combinator.all.tell (Combinator.all.ownReport size value results result)
      (decision.map fun _ => ()) = result.map fun _ => () := by
  obtain ⟨undecided, decides⟩ := Combinator.passesOn_eq_some.1 passed
  have clean : firstFailure? results = none := by
    cases failed : firstFailure? results with
    | none => rfl
    | some f => simp [Combinator.decision?_all_of_failure failed] at undecided
  cases result with
  | ok holds =>
    have later : firstFailure? (results ++ [.ok holds]) = none := by
      rw [firstFailure?_append, clean]
      rfl
    simp only [Combinator.decision?, later] at decides
    split at decides
    · cases decides
      rfl
    · cases decides
  | error f =>
    have later : firstFailure? (results ++ [.error f]) = some f := by
      rw [firstFailure?_append, clean]
      rfl
    rw [Combinator.decision?_all_of_failure later] at decides
    cases decides
    rfl

/-- A disjunction that does not pass a decision on tells nothing. -/
theorem ownReport_any_of_kept {size : Nat} {value : Json} {results : List Result} {result : Result}
    (room : results.length < size)
    (kept : Combinator.any.passesOn size value results result = none) :
    Combinator.any.ownReport size value results result = .ok () := by
  have undecided : Combinator.any.decision? size value results = none := by
    rw [Combinator.decision?, if_neg (by omega)]
  have still : Combinator.any.decision? size value (results ++ [result]) = none := by
    simpa [Combinator.passesOn, undecided] using kept
  rw [Combinator.ownReport]
  split
  next full => simp [Combinator.decision?, full] at still
  · rfl

section

variable {call : Nat} {first : Opening} {earlier : Journal} {result : Result} {q : Place}
  {answer : Answer} {judgement : Result}

/-- What has been told and noted is what the account says. -/
def Accounted (first : Opening) (call : Nat) (q : Place) (earlier journal : Journal)
    (outcome : Report × Engine) : Prop :=
  outcome.1 = toldOf (first.clause? (.ofCall call) q.first earlier)
      (first.clause? (.ofCall call) q.first journal) ∧
    outcome.2.journal = heardOf call (returned? call earlier).isSome
      (first.decision? (.ofCall call) earlier) (first.decision? (.ofCall call) journal) ++ journal

/-- The member of a lagging list that a judgement is below. -/
theorem Lagging.way {p : Place} (h : Lagging layout e earlier p result)
    (judged : e.journal = .judged q answer judgement :: earlier) :
    ∃ i, (Event.judged q answer judgement).Touches (p.member i) := by
  obtain ⟨q', answer', judgement', i, latest, below⟩ := h.latest
  rw [judged] at latest
  cases latest
  exact ⟨i, below⟩

/-- The list of a call takes a result in. -/
theorem deliver_account_root (root : layout (.call call) = some first)
    (h : Lagging layout e earlier (.ofCall call) result)
    (judged : e.journal = .judged q answer judgement :: earlier) :
    Accounted first call q earlier e.journal
      (Engine.deliver (first.route (.ofCall call)) result e) := by
  have found : layout.opening? (.ofCall call) = some first := root
  obtain ⟨conjunction, onward, -⟩ := h.calls call first root
  obtain ⟨held, room⟩ := h.list found
  obtain ⟨i, touches⟩ := h.way judged
  have news := h.news first found
  rw [judged] at news
  obtain ⟨before, after⟩ := Opening.clause?_of_arrival touches news
  have position : q.first = i := by
    rw [Place.first_of_encloses (by simp [Place.member]) touches]
    exact Place.first_member_of_root rfl i
  have told : toldOf (first.clause? (.ofCall call) q.first earlier)
      (first.clause? (.ofCall call) q.first e.journal) = result.map fun _ => () := by
    rw [position, before, judged, after, toldOf_new]
  rw [Accounted, told, Opening.route, onward, Engine.deliver]
  cases passes : first.combinator.passesOn first.checks.length first.value
      (first.results (.ofCall call) earlier) result with
  | none =>
    rw [Engine.takeIn_kept held room passes, h.decision?_kept found passes, heardOf_same, conjunction]
    exact ⟨rfl, rfl⟩
  | some decision =>
    rw [Engine.takeIn_passed held room passes]
    obtain ⟨undecided, decided⟩ := h.decision?_passed found passes
    obtain ⟨c, recorded, -, returned, -⟩ := (h.reported call first root).record
    have same : returned? call e.journal = returned? call earlier := by
      rw [judged]
      rfl
    have completes := complete_eq
      (e := e.putList (.ofCall call) (first.combinator.progress first.checks.length first.value
        (first.results (.ofCall call) earlier ++ [result]))) recorded decision
    rw [Engine.deliver]
    rw [conjunction] at passes ⊢
    rw [conjunction] at completes
    refine ⟨?_, ?_⟩
    · simp only [completes.1, tell_all passes]
    · rw [undecided, decided, completes.2, returned, Option.isSome_map, same]
      rfl

/-- **What a result sets off on its way up** to the list of a plain call. -/
theorem deliver_account (root : layout (.call call) = some first) (plain : first.Plain)
    (route : Route) : ∀ {e : Engine} {p : Place} {o : Opening} {result : Result},
      o.route p = route → Lagging layout e earlier p result → layout.opening? p = some o →
      p.root = .call call → e.journal = .judged q answer judgement :: earlier →
      Accounted first call q earlier e.journal (Engine.deliver route result e) := by
  induction route with
  | list place combinator value onward ih =>
    intro e p o result same h found below judged
    obtain ⟨rfl, rfl, rfl, rfl⟩ : p = place ∧ o.combinator = combinator ∧ o.value = value ∧
        o.onward = onward := by simpa [Opening.route] using same
    obtain top | ⟨w, k, rfl⟩ := p.root_or_member
    · obtain rfl : p = .ofCall call := by rw [top, below]
      obtain rfl : first = o := Option.some.inj (root.symm.trans found)
      exact deliver_account_root root h judged
    · -- A group: its decision, if there is one, is what the enclosing list takes in.
      obtain ⟨outer, above, member⟩ := Layout.opening?_member_eq_some found
      have plainOuter : outer.Plain := Layout.plain_of_root plain (below ▸ root) above
      obtain ⟨-, members, group, rfl⟩ := plainOuter.member member
      obtain ⟨held, room⟩ := h.list found
      rw [Engine.deliver]
      cases passes : Combinator.any.passesOn members.length outer.value
          (Opening.results ⟨.any, members, outer.value, outer.route w⟩ (w.member k) earlier) result with
      | none =>
        rw [Engine.takeIn_kept held room passes, ownReport_any_of_kept room passes]
        have unchanged := h.outcome?_same found (h.decision?_kept found passes)
        have results : first.results (.ofCall call) e.journal =
            first.results (.ofCall call) earlier := by
          refine h.results_above found unchanged ⟨below.symm, List.nil_suffix⟩ ?_ root
          intro equal
          simp [Place.member] at equal
        obtain ⟨i, touches⟩ := h.way judged
        have inside : q.path ≠ [] := by
          intro empty
          have := touches.2.length_le
          simp [Place.member, empty] at this
        have way : (Event.judged q answer judgement).Touches ((Place.ofCall call).member q.first) := by
          have root : q.root = .call call := touches.1.symm.trans below
          have := Place.first_encloses inside
          rwa [root] at this
        have clause : first.clause? (.ofCall call) q.first e.journal =
            first.clause? (.ofCall call) q.first earlier := by
          rw [judged] at results ⊢
          exact Opening.clause?_of_no_arrival way results
        have decision : first.decision? (.ofCall call) e.journal =
            first.decision? (.ofCall call) earlier := by
          rw [Opening.decision?, Opening.decision?, results]
        rw [Accounted, clause, decision, toldOf_same, heardOf_same]
        exact ⟨rfl, rfl⟩
      | some decision =>
        rw [Engine.takeIn_passed held room passes]
        obtain ⟨before, after⟩ := h.decision?_passed found passes
        obtain ⟨earlier', checks, lagging, -⟩ := h.ready_passed found before after
        obtain ⟨_, _, _, _, latest, -⟩ := lagging.latest
        have here := latest
        rw [show (Lagging.taken e (w.member k) _).journal = e.journal from rfl, judged] at here
        cases here
        rw [← h.taken_eq found]
        exact ih rfl lagging above below latest
  | call | detached | answer =>
    intro e p o result same
    cases same

end

end Criteria
