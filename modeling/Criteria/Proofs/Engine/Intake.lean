import Criteria.Engine.Delivery
import Criteria.Proofs.Layout.Opening

/-!
# The progress of a list as a function of its results

`Combinator.progress` is what a list in progress holds after the given results, and `take_progress`
is the one fact about taking in a result: the list holds the results with one more, and passes on
its decision exactly when this result is the one that decides it.
-/

namespace Criteria
set_option autoImplicit false

theorem firstFailure?_append (results more : List Result) :
    firstFailure? (results ++ more) = (firstFailure? results).or (firstFailure? more) := by
  simp [firstFailure?, failures]

@[simp] theorem failures_append_ok (results : List Result) (passed : Bool) :
    failures (results ++ [.ok passed]) = failures results := by
  simp [failures, Result.failure?]

@[simp] theorem failures_append_error (results : List Result) (f : Failure) :
    failures (results ++ [.error f]) = failures results ++ [f] := by
  simp [failures, Result.failure?]

theorem firstFailure?_eq_none_iff {results : List Result} :
    firstFailure? results = none ↔ ∀ result ∈ results, result.isOk = true := by
  rw [firstFailure?, List.head?_eq_none_iff, failures, List.filterMap_eq_nil_iff]
  refine forall₂_congr fun result _ => ?_
  cases result <;> simp [Result.failure?, Except.isOk, Except.toBool]

theorem mem_of_firstFailure? {results : List Result} {f : Failure}
    (h : firstFailure? results = some f) : .error f ∈ results := by
  have mem := List.mem_of_head? h
  obtain ⟨result, mem, image⟩ := List.mem_filterMap.1 mem
  cases result with
  | ok b => cases image
  | error g =>
    cases image
    exact mem

/-- With a failure among them, results do not all hold. -/
theorem all_holds_of_firstFailure? {results : List Result} {f : Failure}
    (h : firstFailure? results = some f) : results.all Result.holds = false := by
  rw [List.all_eq_false]
  exact ⟨_, mem_of_firstFailure? h, by simp [Result.holds]⟩

namespace Combinator

variable {size : Nat} {value : Json} {results : List Result}

/-- What a list of `size` checks holds after the given results. -/
def progress (combinator : Combinator) (size : Nat) (value : Json) (results : List Result) :
    Progress :=
  let awaited := (combinator.decision? size value results).isNone
  match combinator with
  | .all => ⟨results.all Result.holds, size - (results.takeWhile Except.isOk).length,
      firstFailure? results, [], awaited⟩
  | .any => ⟨results.any Result.holds, size - results.length, none, failures results, awaited⟩

/-- What the bringer of the next result is told by the list itself. -/
def ownReport (combinator : Combinator) (size : Nat) (value : Json) (results : List Result)
    (result : Result) : Report :=
  match combinator with
  | .all => result.map fun _ => ()
  | .any =>
    if results.length + 1 = size then (alternative value (results ++ [result])).map fun _ => ()
    else .ok ()

theorem progress_nil (combinator : Combinator) (inhabited : size ≠ 0) :
    combinator.progress size value [] = .start combinator size := by
  cases combinator <;>
    simp [progress, Progress.start, decision?, firstFailure?, failures, identity, inhabited.symm]

/-- A list passes on its decision with the result that decides it. -/
def passesOn (combinator : Combinator) (size : Nat) (value : Json) (results : List Result)
    (result : Result) : Option Result :=
  match combinator.decision? size value results with
  | some _ => none
  | none => combinator.decision? size value (results ++ [result])

/-- A list passes on a decision when the result is the one that it comes to it with. -/
theorem passesOn_eq_some {combinator : Combinator} {result decision : Result} :
    combinator.passesOn size value results result = some decision ↔
      combinator.decision? size value results = none ∧
        combinator.decision? size value (results ++ [result]) = some decision := by
  cases decided : combinator.decision? size value results <;> simp [passesOn, decided]

/-- A failure decides a conjunction for good. -/
theorem decision?_all_of_failure {f : Failure} (h : firstFailure? results = some f) :
    Combinator.all.decision? size value results = some (.error f) := by
  simp [decision?, h]

/-- A conjunction fails with its first failure. -/
theorem decision?_all_eq_error {f : Failure} :
    Combinator.all.decision? size value results = some (.error f) ↔
      firstFailure? results = some f := by
  cases rejected : firstFailure? results with
  | some g => simp [decision?, rejected]
  | none => by_cases full : results.length = size <;> simp [decision?, rejected, full]

theorem take_progress_all (room : results.length < size) (result : Result) :
    (Combinator.all.progress size value results).takeAll result =
      ⟨{ Combinator.all.progress size value (results ++ [result]) with
          awaited := (Combinator.all.decision? size value results).isNone },
        Combinator.all.passesOn size value results result,
        Combinator.all.ownReport size value results result⟩ := by
  cases rejected : firstFailure? results with
  | some f =>
    have later : firstFailure? (results ++ [result]) = some f := by
      rw [firstFailure?_append, rejected, Option.some_or]
    have notAll : ¬ ((results.takeWhile Except.isOk).length = results.length) := by
      intro full
      have same := (List.takeWhile_prefix Except.isOk).eq_of_length full
      have clean : results.all Except.isOk = true := same ▸ List.all_takeWhile
      have rejects := List.all_eq_true.1 clean _ (mem_of_firstFailure? rejected)
      simp [Except.isOk, Except.toBool] at rejects
    cases result <;>
      simp [progress, Progress.takeAll, passesOn, ownReport, decision?, rejected, later,
        all_holds_of_firstFailure? rejected, List.takeWhile_append, notAll, Except.map]
  | none =>
    have clean := firstFailure?_eq_none_iff.1 rejected
    have full : results.takeWhile Except.isOk = results := by
      simpa using @List.takeWhile_append_of_pos _ _ results [] clean
    have some_left : ¬ (results.length = size) := by omega
    cases result with
    | ok passed =>
      have later : firstFailure? (results ++ [.ok passed]) = none := by
        rw [firstFailure?_append, rejected]
        rfl
      have takes : (results ++ [Except.ok passed]).takeWhile Except.isOk =
          results ++ [Except.ok passed] := by
        rw [List.takeWhile_append_of_pos clean]
        rfl
      have count : size - results.length - 1 = size - (results.length + 1) := by omega
      have last : size - (results.length + 1) = 0 ↔ results.length + 1 = size := by omega
      by_cases done : results.length + 1 = size <;>
        simp [progress, Progress.takeAll, passesOn, ownReport, decision?, rejected, later, full,
          takes, some_left, count, last, done, Result.holds, Except.map]
    | error f =>
      have later : firstFailure? (results ++ [.error f]) = some f := by
        rw [firstFailure?_append, rejected]
        rfl
      have takes : (results ++ [Except.error f]).takeWhile Except.isOk = results := by
        rw [List.takeWhile_append_of_pos clean]
        simp [List.takeWhile, Except.isOk, Except.toBool]
      simp [progress, Progress.takeAll, passesOn, ownReport, decision?, rejected, later, full,
        takes, some_left, Result.holds, Except.map]

theorem take_progress_any (room : results.length < size) (result : Result) :
    (Combinator.any.progress size value results).takeAny value result =
      ⟨{ Combinator.any.progress size value (results ++ [result]) with
          awaited := (Combinator.any.decision? size value results).isNone },
        Combinator.any.passesOn size value results result,
        Combinator.any.ownReport size value results result⟩ := by
  have some_left : ¬ (results.length = size) := by omega
  have count : size - results.length - 1 = size - (results.length + 1) := by omega
  have last : size - (results.length + 1) = 0 ↔ results.length + 1 = size := by omega
  cases result <;> by_cases done : results.length + 1 = size <;>
    simp [progress, Progress.takeAny, Progress.alternative, passesOn, ownReport, decision?,
      alternative, Result.holds, some_left, count, last, done]

/-- Taking in a result. -/
theorem take_progress (combinator : Combinator) (room : results.length < size) (result : Result) :
    (combinator.progress size value results).take combinator value result =
      ⟨{ combinator.progress size value (results ++ [result]) with
          awaited := (combinator.decision? size value results).isNone },
        combinator.passesOn size value results result,
        combinator.ownReport size value results result⟩ := by
  cases combinator with
  | all => exact take_progress_all room result
  | any => exact take_progress_any room result

@[simp] theorem progress_awaited (combinator : Combinator) :
    (combinator.progress size value results).awaited =
      (combinator.decision? size value results).isNone := by
  cases combinator <;> rfl

/-- Nobody waits for a list that has come to a decision. -/
theorem progress_unawaited {combinator : Combinator} {decision : Result}
    (decided : combinator.decision? size value results = some decision) :
    { combinator.progress size value results with awaited := false } =
      combinator.progress size value results := by
  rw [show false = (combinator.progress size value results).awaited by simp [decided]]

/-- A list with room for another result is decided by a failure only, and for good. -/
theorem decision?_append (combinator : Combinator) (room : results.length < size) (result : Result)
    {decision : Result} (decided : combinator.decision? size value results = some decision) :
    combinator.decision? size value (results ++ [result]) = some decision := by
  have some_left : ¬ (results.length = size) := by omega
  cases combinator with
  | all =>
    cases rejected : firstFailure? results with
    | some f =>
      rw [decision?_all_of_failure rejected] at decided
      rw [← decided, decision?_all_of_failure]
      rw [firstFailure?_append, rejected, Option.some_or]
    | none => simp [decision?, rejected, some_left] at decided
  | any => simp [decision?, some_left] at decided

end Combinator

namespace Engine

variable {e : Engine} {p : Place} {combinator : Combinator} {size : Nat} {value : Json}
  {results : List Result}

/-- The list takes in a result that does not decide it, or that comes after the decision. -/
theorem takeIn_kept (here : e.lists.get? p = some (combinator.progress size value results))
    (room : results.length < size) {result : Result}
    (kept : combinator.passesOn size value results result = none)
    (next : Result → Engine → Report × Engine) :
    e.takeIn p combinator value result next =
      (combinator.ownReport size value results result,
        e.putList p (combinator.progress size value (results ++ [result]))) := by
  have awaited : (combinator.decision? size value results).isNone =
      (combinator.decision? size value (results ++ [result])).isNone := by
    cases decided : combinator.decision? size value results with
    | none =>
      simp only [Combinator.passesOn, decided] at kept
      rw [kept]
    | some d =>
      rw [combinator.decision?_append room result decided]
  have same : { combinator.progress size value (results ++ [result]) with
      awaited := (combinator.decision? size value results).isNone } =
      combinator.progress size value (results ++ [result]) := by
    rw [awaited, ← Combinator.progress_awaited]
  simp only [takeIn, here, combinator.take_progress room, kept, same]

/-- The list takes in the result that decides it, and passes on the decision. -/
theorem takeIn_passed (here : e.lists.get? p = some (combinator.progress size value results))
    (room : results.length < size) {result decision : Result}
    (passed : combinator.passesOn size value results result = some decision)
    (next : Result → Engine → Report × Engine) :
    e.takeIn p combinator value result next =
      let after := next decision
        (e.putList p (combinator.progress size value (results ++ [result])))
      (combinator.tell (combinator.ownReport size value results result) after.1, after.2) := by
  obtain ⟨undecided, decides⟩ := Combinator.passesOn_eq_some.1 passed
  simp only [takeIn, here, combinator.take_progress room, passed, Combinator.progress_unawaited decides,
    Combinator.progress_awaited, undecided, Option.isNone_none, if_true]

end Engine
end Criteria
