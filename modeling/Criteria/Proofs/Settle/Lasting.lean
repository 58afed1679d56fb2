import Criteria.Proofs.Run.Advance

/-!
# Settled for good

A handle that is settled stays settled, whatever happens: each part of the engine only ever adds to the
settled handles (`Lasts`). Settling a handle settles it, and settling it again tells nothing and leaves
one event.
-/

namespace Criteria
set_option autoImplicit false

/-- Whatever is settled in one engine is settled in another. -/
def Lasts (e e' : Engine) : Prop := ∀ p, e.isSettled p = true → e'.isSettled p = true

namespace Lasts

variable {e e' e'' : Engine}

theorem refl (e : Engine) : Lasts e e := fun _ => id

theorem trans (first : Lasts e e') (second : Lasts e' e'') : Lasts e e'' :=
  fun p settled => second p (first p settled)

/-- A change that leaves the settled handles as they are. -/
theorem of_same (same : e'.settled = e.settled) : Lasts e e' := fun p settled => by
  rw [Engine.isSettled, same]
  exact settled

theorem markSettled (e : Engine) (p : Place) : Lasts e (e.markSettled p) := by
  intro q settled
  simp only [Engine.isSettled, Engine.markSettled, List.contains_cons] at settled ⊢
  rw [settled, Bool.or_true]

end Lasts

theorem Engine.isSettled_markSettled (e : Engine) (p : Place) :
    (e.markSettled p).isSettled p = true := by
  simp [Engine.isSettled, Engine.markSettled]

/-- Nothing that an engine does unsettles a handle. -/
theorem Lasts.advances : Advances Lasts where
  refl := .refl
  trans := .trans
  note _ _ := .of_same rfl
  markSettled := .markSettled
  putList _ _ _ := .of_same rfl
  updateCall _ _ _ := .of_same rfl
  park _ _ := .of_same rfl
  enter _ _ := .of_same rfl
  takeLoose _ := .of_same rfl

/-! ## Settling -/

section

variable (e : Engine)

/-- Settling a handle by an act that unsettles none. -/
theorem once_settles (p : Place) {act : Engine → Report × Engine} (acts : ∀ e, Lasts e (act e).2) :
    (e.once p act).2.isSettled p = true := by
  unfold Engine.once
  split
  · next settled => exact settled
  · exact acts _ p (e.isSettled_markSettled p)

theorem settle_settles (handle : Handle) (answer : Answer) :
    (Engine.settle handle answer e).2.isSettled handle.place = true := by
  cases handle with
  | detached p => exact once_settles e p .refl
  | asked p question onward =>
    apply once_settles
    intro e
    have h := Lasts.advances
    exact h.trans (h.trans (h.note e _) (h.deliver onward _ _)) (h.note _ _)

end

theorem heed_rests (handle : Handle) (evaluated : Reply × Engine) :
    Rests evaluated.2 (Engine.heed handle evaluated) := by
  obtain ⟨reply, after⟩ := evaluated
  cases reply with
  | now holds => exact settle_rests handle _ after
  | later => exact .refl _ after

/-! ## Settling again -/

/-- **Settling a settled handle** tells nothing and leaves one event. -/
theorem settle_again {e : Engine} {handle : Handle} (settled : e.isSettled handle.place = true)
    (answer : Answer) : Engine.settle handle answer e = (.ok (), e.note (.repeated handle.place)) := by
  cases handle with
  | detached p => exact if_pos settled
  | asked p question onward => exact if_pos settled

end Criteria
