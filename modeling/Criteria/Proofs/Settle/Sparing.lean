import Criteria.Proofs.Settle.Reacting

/-!
# Runs in which nobody settles twice

A conduct that spares leaves out every settlement of a settled handle, whoever makes it: a scripted body,
the one who keeps the handle, a completion, a validator that serves as a rule, or a body that answers at
once. Everything else is done as before, so a sparing run tells what a run would have been without those
settlements. `Omits` says what is then missing in the journal, and sparing runs agree with the others in
all but that.
-/

namespace Criteria
set_option autoImplicit false

/-- Whether a journal is another one without the notes of repeated settlements: each is one event, and
a scripted body has also noted that it was told nothing. -/
inductive Omits : Journal → Journal → Prop where
  | nil : Omits [] []
  | keep {event : Event} {journal spared : Journal} (other : ∀ p, event ≠ .repeated p) :
    Omits journal spared → Omits (event :: journal) (event :: spared)
  | repeated (p : Place) {journal spared : Journal} :
    Omits journal spared → Omits (.repeated p :: journal) spared
  | action (rule : String) (p : Place) {journal spared : Journal} : Omits journal spared →
    Omits (.settledBy rule (.ok ()) :: .repeated p :: journal) spared

namespace Omits

theorem recording : Recording Omits := fun _ _ _ other h => .keep other h

variable {journal spared : Journal}

/-- What is left tells of no repeated settlement. -/
theorem repeated_not_mem (h : Omits journal spared) (p : Place) : .repeated p ∉ spared := by
  induction h with
  | nil => exact List.not_mem_nil
  | keep other _ ih => exact List.not_mem_cons_of_ne_of_not_mem (other p).symm ih
  | repeated _ _ ih => exact ih
  | action _ _ _ ih => exact ih

/-- All that the journal tells besides is left, in the same order. -/
theorem filterMap_eq {α : Type} (h : Omits journal spared) (look : Event → Option α)
    (repeated : ∀ p, look (.repeated p) = none)
    (told : ∀ rule, look (.settledBy rule (.ok ())) = none) :
    journal.filterMap look = spared.filterMap look := by
  induction h with
  | nil => rfl
  | keep _ _ ih => rw [List.filterMap_cons, List.filterMap_cons, ih]
  | repeated p _ ih => rw [List.filterMap_cons_none (repeated p), ih]
  | action rule p _ ih =>
    rw [List.filterMap_cons_none (told rule), List.filterMap_cons_none (repeated p), ih]

end Omits

/-! ## Side by side -/

variable {e s : Engine}

/-- A change that both engines make. -/
theorem Agrees.change_omits (h : Agrees Omits e s) {act : Engine → Engine}
    (change : Engine.Change act) : Agrees Omits (act e) (act s) := by
  cases change with
  | note other => exact h.noteBoth Omits.recording other
  | markSettled p => exact h.markSettled p
  | putList p progress => exact h.putList p progress
  | updateCall call update => exact h.updateCall call update
  | enter value => exact h.enter value
  | park handle => exact h.park handle
  | dropParked index => exact h.dropParked index
  | parkDetached => exact h.parkDetached
  | takeLoose => exact h.takeLoose
  | define templates => exact h.define templates
  | setTemplate definition negated template => exact h.setTemplate definition negated template

/-- An event of a registry is noted by both engines. -/
theorem Agrees.log_omits (h : Agrees Omits e s) {event : Event} (logged : event.Logged) :
    Agrees Omits (e.note event) (s.note event) := by
  refine h.noteBoth Omits.recording ?_
  rintro p rfl
  exact logged

namespace Conduct

variable {react : Reaction}
  (reacts : ∀ call result e event, .log event ∈ react call result e → event.Logged)
include reacts

/-- Whatever completions do, what is left out makes no other difference. -/
theorem related_omits (depth : Nat) :
    Related (reacting false react depth) (reacting true react depth) (Agrees Omits) := by
  refine Related.reacting ⟨Agrees.state, fun h change => h.change_omits change, ?_, ?_,
    fun _ _ => id, fun _ _ _ _ => id⟩ ?_ depth
  · exact fun h _ => ⟨h.state, .repeated _ h.journal⟩
  · exact fun rule h _ => ⟨h.state, .action rule _ h.journal⟩
  · exact fun call result e event mem _ _ h => h.log_omits (reacts call result e event mem)

/-- A run agrees with the sparing one. -/
theorem run_omits (depth : Nat) {moves : List Move}
    (logged : ∀ event, .log event ∈ moves → event.Logged) (h : Agrees Omits e s) :
    Agrees Omits ((reacting false react depth).run e moves) ((reacting true react depth).run s moves) :=
  (related_omits reacts depth).run (fun event mem _ _ h => h.log_omits (logged event mem)) h

end Conduct
end Criteria
