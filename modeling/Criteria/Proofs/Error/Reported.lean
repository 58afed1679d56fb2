import Criteria.Proofs.Error.Surfaced
import Criteria.Proofs.Future.Outcome

/-!
# Reported errors mirror the failing clause

Whatever error a run reports, as the result of a call, to its completion or to one who settles a handle,
is the clause tree of a top-level clause that has failed: each rule clause is one leaf in it and each
group one node over the failures of all its members.
-/

namespace Criteria
set_option autoImplicit false

variable {layout : Layout} {moves : List Move}

/-- Whether a failure reports a top-level clause of the list at a place: the clause has come to it, and it
is the clause tree of the clause, with as many failures as there are rule clauses and groups, all of
them about the tested value, and aggregates just where there is no rule. -/
def Reports (checks : List Check) (value : Json) (place : Place) (journal : Journal) (f : Failure) :
    Prop :=
  ∃ k, ∃ check : Check, checks[k]? = some check ∧
    check.outcome? value (place.member k) journal = some (.error f) ∧
    check.Mirrored value (place.member k) journal f ∧
    f.count = check.count ∧ ∀ g ∈ f.flatten, g.Fits value

namespace Reached

/-- The failure of a clause reports it. -/
theorem reports (h : Reached moves layout) {p : Place} {o : Opening} (found : layout.opening? p = some o)
    {k : Nat} {check : Check} (here : o.checks[k]? = some check) {f : Failure}
    (failed : check.outcome? o.value (p.member k) (Engine.empty.run moves).journal =
      some (.error f)) :
    Reports o.checks o.value p (Engine.empty.run moves).journal f := by
  have mirrored := h.sound.toPlaced.mirrored (Trace.timely h.trace) h.orderly check found here failed
  obtain ⟨fits, count⟩ := Check.Mirrored.shape check mirrored
  exact ⟨k, check, here, failed, mirrored, count, fits⟩

end Reached

/-- The failure of the group: first the rejected alternative, which was decided first. -/
def Failure.rejected : Failure :=
  .aggregate .null [{ Question.failure ⟨0, "waiting", false, [], .null⟩ ⟨none, none⟩ with
    cause := some "timeout" }, .waiting]

end Criteria
