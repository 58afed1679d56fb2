import Criteria.Proofs.Mirror.Pairing

/-!
# Views of failures

Two runs are compared as far as a view lets them be seen. The whole view shows everything; the
wordless view hides the messages of failures, which are all that depends on templates. A view pairs the
failures that it shows alike (`View.pairing`), so it can follow results up any route.
-/

namespace Criteria
set_option autoImplicit false

/-- What of a failure is seen. An aggregate is seen by what is seen of its parts. -/
structure View where
  see : Failure → Failure
  aggregate : ∀ value fs gs, fs.map see = gs.map see →
    see (.aggregate value fs) = see (.aggregate value gs)

/-- The view that shows everything. -/
def View.whole : View where
  see f := f
  aggregate value fs gs same := by
    rw [List.map_id', List.map_id'] at same
    rw [same]

mutual

/-- The failure without its words. -/
def Failure.wordless : Failure → Failure
  | ⟨_, value, rule, negated, params, nested, cause⟩ =>
    ⟨"", value, rule, negated, params, Failure.allWordless nested, cause⟩

/-- The failures without their words. -/
def Failure.allWordless : List Failure → List Failure
  | [] => []
  | f :: rest => f.wordless :: Failure.allWordless rest

end

theorem Failure.allWordless_eq_map (fs : List Failure) :
    Failure.allWordless fs = fs.map Failure.wordless := by
  induction fs with
  | nil => rfl
  | cons f rest ih => rw [allWordless, ih, List.map_cons]

/-- The view that hides words. -/
def View.wordless : View where
  see := Failure.wordless
  aggregate value fs gs same := by
    simp only [Failure.aggregate, Failure.wordless, Failure.allWordless_eq_map, same]

namespace View

variable (view : View)

/-- What is seen of a result or a report. -/
def result {α : Type} (r : Except Failure α) : Except Failure α := r.mapError view.see

/-- What is seen of a list in progress. -/
def progress (p : Progress) : Progress :=
  { p with rejection := p.rejection.map view.see, failures := p.failures.map view.see }

/-- What is seen of the record of a call. -/
def call (c : Call) : Call where
  value := c.value
  failure := c.failure.map view.see
  returned := c.returned.map view.result
  completed := c.completed.map view.result

/-- What is seen of an event. -/
def event : Event → Event
  | .judged p answer result => .judged p answer (view.result result)
  | .told p report => .told p (view.result report)
  | .settledBy rule report => .settledBy rule (view.result report)
  | .completed call result => .completed call (view.result result)
  | .returned call result => .returned call (view.result result)
  | event => event

variable {view}

/-! ### The whole view -/

theorem result_whole {α : Type} (r : Except Failure α) : View.whole.result r = r := by
  cases r <;> rfl

theorem event_whole (event : Event) : View.whole.event event = event := by
  cases event <;> simp only [View.event, result_whole]

theorem call_whole (c : Call) : View.whole.call c = c := by
  have results : (View.whole.result : Result → Result) = id := funext result_whole
  simp only [call, results, Option.map_id]
  rw [show View.whole.see = id from rfl, Option.map_id]
  rfl

/-! ### Alike results -/

/-- Alike results are both accepted alike or both refused with alike failures. -/
theorem alike_cases {α : Type} {r s : Except Failure α} (alike : view.result r = view.result s) :
    (∃ a, r = .ok a ∧ s = .ok a) ∨ ∃ f g, r = .error f ∧ s = .error g ∧ view.see f = view.see g := by
  cases r with
  | ok a =>
    cases s with
    | ok b => exact .inl ⟨a, rfl, congrArg Except.ok (Except.ok.inj alike).symm⟩
    | error g => cases alike
  | error f =>
    cases s with
    | ok b => cases alike
    | error g => exact .inr ⟨f, g, rfl, rfl, Except.error.inj alike⟩

/-! ### Views as pairings -/

/-- Optional records are seen alike just if they correspond, given that of records. -/
theorem rel_iff_map_eq {α β : Type} {related : α → α → Prop} {see : α → β}
    (agrees : ∀ a b, related a b ↔ see a = see b) {a b : Option α} :
    Option.Rel related a b ↔ a.map see = b.map see := by
  constructor
  · intro corresponds
    cases corresponds with
    | none => rfl
    | some here => exact congrArg some ((agrees _ _).1 here)
  · intro same
    cases a with
    | none =>
      obtain rfl : b = none := Option.map_eq_none_iff.1 same.symm
      exact .none
    | some a =>
      obtain ⟨b, rfl, seen⟩ := Option.map_eq_some_iff.1 same.symm
      exact .some ((agrees _ _).2 seen.symm)

/-- Failures that are seen alike are seen alike as failures. -/
theorem forall₂_iff_map_eq {fs gs : List Failure} :
    List.Forall₂ (fun f g => view.see f = view.see g) fs gs ↔ fs.map view.see = gs.map view.see := by
  rw [← List.forall₂_eq_eq_eq, List.forall₂_map_left_iff, List.forall₂_map_right_iff]

variable (view) in
/-- The pairing of failures that are seen alike. -/
def pairing : Pairing where
  pairs f g := view.see f = view.see g
  aggregate value fs gs paired := view.aggregate value fs gs (forall₂_iff_map_eq.1 paired)

theorem results_iff {α : Type} {r s : Except Failure α} :
    view.pairing.Results r s ↔ view.result r = view.result s := by
  constructor
  · intro paired
    cases paired with
    | ok a => rfl
    | error seen => exact congrArg Except.error seen
  · intro alike
    obtain ⟨a, rfl, rfl⟩ | ⟨f, g, rfl, rfl, seen⟩ := alike_cases alike
    · exact .ok a
    · exact .error seen

theorem lists_iff (p q : Progress) :
    view.pairing.Lists p q ↔ view.progress p = view.progress q := by
  simp only [progress, Progress.mk.injEq, ← forall₂_iff_map_eq]
  rw [← rel_iff_map_eq fun _ _ => Iff.rfl]
  constructor
  · rintro ⟨passed, pending, rejection, failures, awaited⟩
    exact ⟨passed, pending, rejection, failures, awaited⟩
  · rintro ⟨passed, pending, rejection, failures, awaited⟩
    exact ⟨passed, pending, rejection, failures, awaited⟩

theorem calls_iff (c d : Call) : view.pairing.Calls c d ↔ view.call c = view.call d := by
  simp only [call, Call.mk.injEq]
  rw [← rel_iff_map_eq fun _ _ => Iff.rfl, ← rel_iff_map_eq fun _ _ => results_iff,
    ← rel_iff_map_eq fun _ _ => results_iff]
  constructor
  · rintro ⟨value, failure, returned, completed⟩
    exact ⟨value, failure, returned, completed⟩
  · rintro ⟨value, failure, returned, completed⟩
    exact ⟨value, failure, returned, completed⟩

end View
end Criteria
