import Criteria.Proofs.Registry.Entries
import Criteria.Proofs.Snapshot.Change

/-!
# The log of a registry

The log of a registry is what the journal holds of its registrations and removals. Evaluation notes nothing of
registries (`Engine.move_records`), so only steps that work on registries add to the log
(`Session.registryLog_of_moved`).
-/

namespace Criteria
set_option autoImplicit false

/-- Whether an event is a registration or a removal in the registry of the given number. -/
def Event.concerns (number : Nat) : Event → Bool
  | .registered registry _ _ | .removed registry _ => registry == number
  | _ => false

/-- What a journal holds of the registry of the given number, the earliest first. -/
def Registry.records (number : Nat) (journal : Journal) : List Event :=
  (journal.filter (Event.concerns number)).reverse

variable {layout : Layout} {e : Engine} {number : Nat}

theorem Event.not_concerns_of_inner {event : Event} (inner : event.Inner) : event.concerns number = false := by
  cases event with
  | registered | removed => exact inner.elim
  | _ => rfl

theorem Registry.records_cons (event : Event) (journal : Journal) :
    records number (event :: journal) =
      records number journal ++ if event.concerns number then [event] else [] := by
  rw [records, List.filter_cons]
  split <;> simp [records]

/-- What a change notes in the log of one registry is on record for this registry. -/
theorem Registry.records_event (n : Nat) (r : Registry) (c : Change) (journal : Journal) :
    records number ((c.event? n r).toList ++ journal) =
      records number journal ++ if n = number then (c.event? number r).toList else [] := by
  have record : ∀ {event : Event}, event.concerns number = (n == number) →
      records number (event :: journal) = records number journal ++ if n = number then [event] else [] := by
    intro event here
    rw [records_cons, here]
    by_cases same : n = number <;> simp [same]
  cases c with
  | add d =>
    refine (record rfl).trans ?_
    by_cases same : n = number <;> simp [same, Change.event?]
  | remove name =>
    cases held : r.contains name with
    | false => simp [Change.event?, held]
    | true =>
      simp only [Change.event?, held, if_true]
      refine (record rfl).trans ?_
      by_cases same : n = number <;> simp [same]

theorem Prolongs.records {earlier later : Journal} (h : Prolongs earlier later) :
    Registry.records number later = Registry.records number earlier := by
  obtain ⟨news, rfl, inner, -⟩ := h
  have none : news.filter (Event.concerns number) = [] :=
    List.filter_eq_nil_iff.2 fun event mem => by simp [Event.not_concerns_of_inner (inner event mem)]
  rw [Registry.records, List.filter_append, none]
  rfl

/-- A move that logs nothing of registries records nothing of them. -/
theorem Engine.move_records (h : Sound layout e) {m : Move} (valid : m.Valid) (spares : m.Spares) :
    Registry.records number (e.move m).journal = Registry.records number e.journal := by
  cases m with
  | call v value =>
    obtain ⟨during, -, prolongs, -, -, made⟩ := call_trace h (Validator.Built.wellFormed valid) value
    rw [Engine.move, made]
    exact (Registry.records_cons _ _).trans ((List.append_nil _).trans prolongs.records)
  | settle index answer =>
    rw [Engine.move]
    cases e.parked? index with
    | none => rfl
    | some handle => exact (settle_rests handle answer e).journal.records
  | evaluate d value params handle =>
    have begun : ∀ {handle : Handle}, layout.Lends e.journal handle →
        (some handle ∈ e.parked ∨ handle = .detached e.loosePlace) →
        Registry.records number
            (Engine.evaluate d.name value params e.loosePlace handle d.body e.takeLoose).2.journal =
          Registry.records number e.journal := by
      intro handle lends kept
      obtain ⟨_, -, -, runs⟩ := evaluate_begun h valid value params lends kept
      exact runs.grows.journal.records
    cases handle with
    | none => exact begun ⟨rfl, trivial⟩ (.inr rfl)
    | some index =>
      rw [Engine.move]
      cases kept : e.parked? index with
      | none => rfl
      | some handle => exact begun (h.lends_parked? kept) (.inl (Engine.mem_of_parked? kept))
  | log event =>
    cases event with
    | built checks => exact (Registry.records_cons _ _).trans (List.append_nil _)
    | registered | removed => exact spares.elim
    | _ => exact valid.elim
  | drop | make => rfl
  | define | setTemplate => exact spares.elim

namespace Session

variable {s t : Session}

/-- The log of the registry of the given number. -/
def registryLog (s : Session) (number : Nat) : List Event :=
  Registry.records number s.engine.journal

/-- Steps that do not work on registries leave their logs as they are. -/
theorem registryLog_of_moved (h : s.Stands .empty) (moved : Moved s t) :
    t.registryLog number = s.registryLog number := by
  obtain same | ⟨m, valid, spares, same⟩ := moved.engine
  · rw [registryLog, same, registryLog]
  · obtain ⟨moves, all, reached⟩ := h.engine
    obtain ⟨layout, -, sound⟩ := sound_run all
    rw [registryLog, same]
    exact Engine.move_records (reached ▸ sound) valid spares

end Session
end Criteria
