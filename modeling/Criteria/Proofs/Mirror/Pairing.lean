import Criteria.Engine.Delivery
import Mathlib.Data.List.Forall2
import Mathlib.Data.Option.Basic

/-!
# Paired failures

Two runs whose failures correspond go on alike. A pairing says which failures correspond; aggregates
correspond if their parts do. What a list makes of paired results is paired (`Pairing.Lists.take`), and so
is what a list or a call passes on (`Pairing.takeIn`, `Pairing.complete`), so a pairing can follow results
up any route.
-/

namespace Criteria
set_option autoImplicit false

/-- Which failures of two runs correspond. -/
structure Pairing where
  pairs : Failure → Failure → Prop
  aggregate : ∀ value fs gs, List.Forall₂ pairs fs gs →
    pairs (.aggregate value fs) (.aggregate value gs)

namespace Pairing

/-- Results or reports that are both accepted alike or both refused with paired failures. -/
inductive Results (pairing : Pairing) {α : Type} : Except Failure α → Except Failure α → Prop where
  | ok (a : α) : Results pairing (.ok a) (.ok a)
  | error {f g : Failure} (paired : pairing.pairs f g) : Results pairing (.error f) (.error g)

/-- Lists in progress that have come to the same, but for paired failures. -/
structure Lists (pairing : Pairing) (p q : Progress) : Prop where
  passed : p.passed = q.passed
  pending : p.pending = q.pending
  rejection : Option.Rel pairing.pairs p.rejection q.rejection
  failures : List.Forall₂ pairing.pairs p.failures q.failures
  awaited : p.awaited = q.awaited

/-- What two lists make of paired results. -/
structure Intakes (pairing : Pairing) (a b : Intake) : Prop where
  progress : pairing.Lists a.progress b.progress
  decision : Option.Rel pairing.Results a.decision b.decision
  report : pairing.Results a.report b.report

/-- Calls of which the same has come, but for paired failures. -/
structure Calls (pairing : Pairing) (c d : Call) : Prop where
  value : c.value = d.value
  failure : Option.Rel pairing.pairs c.failure d.failure
  returned : Option.Rel pairing.Results c.returned d.returned
  completed : Option.Rel pairing.Results c.completed d.completed

variable {pairing : Pairing}

/-! ## Results -/

/-- Paired results hold alike. -/
theorem Results.holds {r s : Result} (h : pairing.Results r s) : r.holds = s.holds := by
  cases h <;> rfl

/-- Paired results raise paired reports. -/
theorem Results.raise {r s : Result} (h : pairing.Results r s) :
    pairing.Results (r.map fun _ => ()) (s.map fun _ => ()) := by
  cases h with
  | ok passed => exact .ok ()
  | error paired => exact .error paired

/-- What the bringers of decisive results are told is paired if what was raised is. -/
theorem Results.tell {own own' raised raised' : Report} (owns : pairing.Results own own')
    (raises : pairing.Results raised raised') (combinator : Combinator) :
    pairing.Results (combinator.tell own raised) (combinator.tell own' raised') := by
  cases combinator with
  | any => exact raises
  | all =>
    cases raises with
    | ok _ => exact owns
    | error paired => exact .error paired

/-! ## Lists -/

variable {p q : Progress}

/-- A list that starts has come to nothing. -/
theorem Lists.start (combinator : Combinator) (size : Nat) :
    pairing.Lists (.start combinator size) (.start combinator size) :=
  ⟨rfl, rfl, .none, .nil, rfl⟩

/-- Paired progress stays paired when it is no longer awaited. -/
theorem Lists.unawaited (h : pairing.Lists p q) :
    pairing.Lists { p with awaited := false } { q with awaited := false } :=
  { h with awaited := rfl }

theorem Lists.isRejected (h : pairing.Lists p q) : p.isRejected = q.isRejected := by
  have rejected := h.rejection
  unfold Progress.isRejected
  generalize p.rejection = rejection at rejected ⊢
  generalize q.rejection = rejection' at rejected ⊢
  cases rejected <;> rfl

theorem Lists.takeAll (h : pairing.Lists p q) {r s : Result} (paired : pairing.Results r s) :
    pairing.Intakes (p.takeAll r) (q.takeAll s) := by
  obtain ⟨passed, pending, rejection, failures, awaited⟩ := p
  obtain ⟨_, _, rejection', failures', _⟩ := q
  obtain ⟨rfl, rfl, rejected, failed, rfl⟩ := id h
  cases rejected with
  | some _ =>
    cases paired with
    | ok _ => exact ⟨h, .none, .ok ()⟩
    | error paired => exact ⟨h, .none, .error paired⟩
  | none =>
    cases paired with
    | ok _ =>
      simp only [Progress.takeAll]
      split
      · exact ⟨⟨rfl, rfl, .none, failed, rfl⟩, .some (.ok _), .ok ()⟩
      · exact ⟨⟨rfl, rfl, .none, failed, rfl⟩, .none, .ok ()⟩
    | error paired =>
      exact ⟨⟨rfl, rfl, .some paired, failed, rfl⟩, .some (.error paired), .error paired⟩

theorem Lists.alternative (h : pairing.Lists p q) (value : Json) :
    pairing.Results (p.alternative value) (q.alternative value) := by
  rw [Progress.alternative, Progress.alternative, h.passed]
  split
  · exact .ok true
  · exact .error (pairing.aggregate value _ _ h.failures)

theorem Lists.takeAny (h : pairing.Lists p q) (value : Json) {r s : Result}
    (paired : pairing.Results r s) : pairing.Intakes (p.takeAny value r) (q.takeAny value s) := by
  -- Whatever has been taken in, paired progress is decided alike.
  have decided : ∀ {p q : Progress}, pairing.Lists p q →
      pairing.Intakes
        (if p.pending = 0 then
          ⟨p, some (p.alternative value), (p.alternative value).map fun _ => ()⟩
        else ⟨p, none, .ok ()⟩)
        (if q.pending = 0 then
          ⟨q, some (q.alternative value), (q.alternative value).map fun _ => ()⟩
        else ⟨q, none, .ok ()⟩) := by
    intro p q h
    have outcome := h.alternative value
    rw [h.pending]
    split
    · exact ⟨h, .some outcome, outcome.raise⟩
    · exact ⟨h, .none, .ok ()⟩
  obtain ⟨passed, pending, rejected, failures, awaited⟩ := h
  cases paired with
  | ok _ => exact decided ⟨by rw [passed], by rw [pending], rejected, failures, awaited⟩
  | error paired =>
    refine decided ⟨passed, by rw [pending], rejected, ?_, awaited⟩
    exact List.rel_append failures (.cons paired .nil)

/-- **Lists take paired results in alike.** -/
theorem Lists.take (h : pairing.Lists p q) (combinator : Combinator) (value : Json) {r s : Result}
    (paired : pairing.Results r s) :
    pairing.Intakes (p.take combinator value r) (q.take combinator value s) := by
  cases combinator with
  | all => exact h.takeAll paired
  | any => exact h.takeAny value paired

/-! ## Results on their way -/

section

variable {e s : Engine} {result result' : Result} {After : Report × Engine → Report × Engine → Prop}
  (results : pairing.Results result result')
include results

/-- What holds after the list at a place has taken in paired results, given what holds if there is no
list, if it keeps what it has come to, and if it passes its decision on. -/
theorem takeIn {p : Place}
    (lists : Option.Rel pairing.Lists (e.lists.get? p) (s.lists.get? p)) (combinator : Combinator)
    (value : Json) {next next' : Result → Engine → Report × Engine}
    (gone : After (.ok (), e) (.ok (), s))
    (kept : ∀ {progress progress' : Progress} {report report' : Report},
      pairing.Lists progress progress' → pairing.Results report report' →
        After (report, e.putList p progress) (report', s.putList p progress'))
    (passed : ∀ {decision decision' : Result} {progress progress' : Progress} {own own' : Report},
      pairing.Results decision decision' → pairing.Lists progress progress' →
        pairing.Results own own' →
          After (combinator.tell own (next decision (e.putList p progress)).1,
              (next decision (e.putList p progress)).2)
            (combinator.tell own' (next' decision' (s.putList p progress')).1,
              (next' decision' (s.putList p progress')).2)) :
    After (e.takeIn p combinator value result next)
      (s.takeIn p combinator value result' next') := by
  unfold Engine.takeIn
  generalize e.lists.get? p = list at lists ⊢
  generalize s.lists.get? p = list' at lists ⊢
  cases lists with
  | none => exact gone
  | @some progress progress' paired =>
    obtain ⟨took, decides, told⟩ := paired.take combinator value results
    dsimp only
    rw [paired.awaited]
    generalize progress.take combinator value result = intake at *
    generalize progress'.take combinator value result' = intake' at *
    obtain ⟨after, decision, report⟩ := intake
    obtain ⟨after', decision', report'⟩ := intake'
    cases decides with
    | none => exact kept took told
    | some decided =>
      dsimp only
      split
      · exact passed decided took.unawaited told
      · exact kept took.unawaited told

/-- What holds after a call has taken paired results, given what holds if there is no call, if it keeps
a failure for its return, and if its completion runs. -/
theorem complete {call : Nat}
    (calls : Option.Rel pairing.Calls (e.calls.get? call) (s.calls.get? call))
    (gone : After (.ok (), e) (.ok (), s))
    (failed : ∀ {f f' : Failure}, pairing.pairs f f' →
      After (.error f, e.updateCall call fun c => { c with failure := some f })
        (.error f', s.updateCall call fun c => { c with failure := some f' }))
    (completed : After
      (result.map fun _ => (), (e.updateCall call fun c => { c with completed := some result }).note
        (.completed call result))
      (result'.map fun _ => (),
        (s.updateCall call fun c => { c with completed := some result' }).note
          (.completed call result'))) :
    After (e.complete call result) (s.complete call result') := by
  unfold Engine.complete
  generalize e.calls.get? call = record at calls ⊢
  generalize s.calls.get? call = record' at calls ⊢
  cases calls with
  | none => exact gone
  | @some c d paired =>
    obtain ⟨value, failure, returned, received⟩ := c
    obtain ⟨value', failure', returned', received'⟩ := d
    obtain ⟨-, -, returns, -⟩ := paired
    cases results with
    | ok passed => cases returns <;> exact completed
    | error paired =>
      cases returns with
      | none => exact failed paired
      | some _ => exact completed

end

end Pairing
end Criteria
