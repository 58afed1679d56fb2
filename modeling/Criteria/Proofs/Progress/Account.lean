import Criteria.Proofs.Call.Completion
import Criteria.Proofs.Progress.Evaluated
import Criteria.Proofs.Progress.Record

/-!
# The record of a list accounts for its members

Whatever members submit and in whatever order, the record of a list in progress holds what they have come to. The
main theorem says so of every state that steps reach and of every record that takes in a result, and that the list
waits for each result which it takes in: no member submits twice, and the number of pending members never goes
below zero.
-/

namespace Criteria
set_option autoImplicit false

variable {layout : Layout} {e : Engine}

/-- A list with room for another result waits for some of its members. -/
theorem Combinator.pending_pos (combinator : Combinator) {size : Nat} {results : List Result}
    (room : results.length < size) (value : Json) : 0 < (combinator.progress size value results).pending := by
  cases combinator with
  | all =>
    have clean := (List.takeWhile_prefix (l := results) Except.isOk).length_le
    exact Nat.sub_pos_of_lt (Nat.lt_of_le_of_lt clean room)
  | any => exact Nat.sub_pos_of_lt room

/-- **The record that takes in a result waits for it**, and agrees with the members as of then. -/
theorem Submission.Fits.records {s : Submission} {o : Opening} {i : Nat} {check : Check}
    {earlier now : Journal} (h : s.Fits layout o i check earlier now) (wf : layout.WellFormed)
    (clear : Clearly earlier) : 0 < s.record.pending ∧ o.Records s.list earlier s.record := by
  rw [h.record]
  exact ⟨o.combinator.pending_pos h.room o.value, (wf.opening h.opened).records clear⟩

/-- **Lists account for their members.** In every state that steps reach, the record of each list holds what its
members have come to, and a rejected one stays as it is for good. What a run submits comes in time: each member
submits the result that it has just come to, into a record that waits for it and agrees with the members of its list
by then; no member submits twice; and a list takes in what its members have come to, in that order. -/
theorem lists_account_for_members {moves : List Move} (valid : ∀ m ∈ moves, m.Valid) :
    let now := (Engine.empty.run moves).journal
    let log := Submission.run moves .empty
    (∀ reached state, Trace (.empty, .empty) (reached, state) →
      ∀ p r, state.lists.get? p = some r →
        (∃ o, reached.opening? p = some o ∧ o.Records p state.journal r) ∧
        (r.isRejected = true → ∀ later after, Trace (reached, state) (later, after) →
          after.lists.get? p = some r)) ∧
    ∃ layout, Trace (.empty, .empty) (layout, Engine.empty.run moves) ∧
      (∀ s ∈ log, ∃ o i check event earlier, s.Fits layout o i check earlier (event :: earlier) ∧
        event :: earlier <:+ now ∧ 0 < s.record.pending ∧ o.Records s.list earlier s.record) ∧
      (log.map (·.member)).Nodup ∧
      ∀ p o, layout.opening? p = some o → submittedTo p log = o.results p now := by
  intro now log
  refine ⟨fun reached state trace p r held => ?_, ?_⟩
  · have sound := Trace.sound trace sound_empty
    refine ⟨sound.records held, fun rejected later after goes => ?_⟩
    obtain ⟨f, rejected⟩ := Option.isSome_iff_exists.1 rejected
    exact goes.record_of_rejected sound held rejected
  · obtain ⟨layout, trace, submitted⟩ := run_submits sound_empty valid (Submits.refl .empty [])
    have sound := Trace.sound trace sound_empty
    refine ⟨layout, trace, fun s mem => ?_, submitted.distinct, fun p o found =>
      (submitted.counted p o found).symm⟩
    obtain ⟨o, i, check, event, earlier, fits, -, behind⟩ := submitted.timely s mem
    exact ⟨o, i, check, event, earlier, fits, behind, fits.records sound.wellFormed
      (sound.toPlaced.clearly.mono ((List.suffix_cons _ _).trans behind))⟩

/-- The second alternative of the group fails, and the group waits for the first one; that passes and with it the
group, before the plain clause has passed. -/
theorem lists_account_for_members_settlements :
    (Submission.run (.call .waiting .null :: Move.settlements) .empty).map
        (fun s => (s.member.path, s.list.path, s.record.pending)) =
      [([1, 1], [1], 2), ([0, 1], [1], 1), ([1], [], 2), ([0], [], 1)] ∧
    ((Submission.run (.call .waiting .null :: Move.settlements) .empty).map (·.member)).Nodup := by
  have valid : ∀ m ∈ .call .waiting .null :: Move.settlements, m.Valid :=
    List.forall_mem_cons.2 ⟨Validator.built_waiting, Move.valid_settlements⟩
  obtain ⟨-, layout, -, -, distinct, -⟩ := lists_account_for_members valid
  exact ⟨rfl, distinct⟩

end Criteria
