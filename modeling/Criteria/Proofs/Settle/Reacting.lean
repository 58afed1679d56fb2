import Criteria.Proofs.Settle.Lasting
import Criteria.Proofs.Settle.Related

/-!
# Completions that act

A completion may do anything with what it has received: settle handles, also the one whose settlement it
runs in, call validators or evaluate bodies. `Conduct.reacting` is the engine with completions that make
moves; what completes by these moves acts in its turn, down to some depth. Handles stay settled through
all of this, and a completion finds the handle settled whose first settlement has brought it about
(`Conduct.settle_congr`).
-/

namespace Criteria
set_option autoImplicit false

/-- The moves that the completion of a call makes. They follow from what it has received and from the
state by then, apart from the journal. -/
abbrev Reaction := Nat → Result → Engine → List Move

namespace Conduct

/-- What completions do that make moves; those that run in the moves of others do so down to a depth. -/
def reaction (spares : Bool) (react : Reaction) : Nat → Nat → Result → Engine → Engine
  | 0 => fun _ _ e => e
  | depth + 1 => fun call result e =>
    (acting spares (reaction spares react depth)).run e (react call result e.silenced)

/-- The engine with completions that make moves. -/
def reacting (spares : Bool) (react : Reaction) (depth : Nat) : Conduct Engine :=
  acting spares (reaction spares react depth)

/-- If no completion makes a move, nothing else goes on. -/
theorem reacting_nothing (depth : Nat) : reacting false (fun _ _ _ => []) depth = plain := by
  cases depth <;> rfl

variable {react : Reaction} {spares spares' : Bool}

/-- What is kept without completions that act is kept with them, too. -/
theorem Related.reacting {R : Engine → Engine → Prop}
    (h : Related (acting spares fun _ _ e => e) (acting spares' fun _ _ e => e) R)
    (log : ∀ call result e event, .log event ∈ react call result e →
      ∀ {s t}, R s t → R (s.note event) (t.note event)) : ∀ depth,
    Related (reacting spares react depth) (reacting spares' react depth) R
  | 0 => h
  | depth + 1 =>
    { silenced := h.silenced
      change := h.change
      again := h.again
      void := h.void
      takes := h.takes
      hears := fun {s t} call result r => by
        have same : s.silenced = t.silenced := h.silenced r
        show R ((acting spares _).run s (react call result s.silenced))
          ((acting spares' _).run t (react call result t.silenced))
        rw [same]
        exact (Related.reacting h log depth).run (log call result t.silenced) r }

end Conduct

/-! ## Settled for good -/

/-- No change unsettles a handle. -/
theorem Engine.Change.lasts {act : Engine → Engine} (change : Engine.Change act) (e : Engine) :
    Lasts e (act e) := by
  cases change with
  | markSettled p => exact .markSettled e p
  | _ => exact .of_same rfl

namespace Conduct

variable {react : Reaction} {spares : Bool}

/-- What is settled stays settled in a single run, whatever completions do. -/
theorem reacting_related (react : Reaction) (depth : Nat) (e : Engine) :
    Related (reacting false react depth) (reacting false react depth)
      fun s t => s = t ∧ Lasts e s := by
  refine Related.reacting ⟨?_, ?_, ?_, ?_, fun _ _ => id, fun _ _ _ _ => id⟩ ?_ depth
  · rintro s _ ⟨rfl, -⟩
    rfl
  · rintro s _ act ⟨rfl, lasts⟩ change
    exact ⟨rfl, lasts.trans (change.lasts s)⟩
  · rintro s _ p ⟨rfl, lasts⟩ -
    exact ⟨rfl, lasts.trans (.of_same rfl)⟩
  · rintro s _ p rule ⟨rfl, lasts⟩ -
    exact ⟨rfl, lasts.trans (.of_same rfl)⟩
  · rintro _ _ _ event - s _ ⟨rfl, lasts⟩
    exact ⟨rfl, lasts.trans (.of_same rfl)⟩

variable (react) (depth : Nat) (e : Engine)

theorem deliver_lasts (route : Route) (source : Place) (result : Result) :
    Lasts e ((reacting false react depth).deliver route source result e).2 :=
  ((reacting_related react depth e).deliver route source result ⟨rfl, .refl e⟩).2.2

theorem settle_lasts (handle : Handle) (answer : Answer) :
    Lasts e ((reacting false react depth).settle handle answer e).2 :=
  ((reacting_related react depth e).settle ⟨rfl, .refl e⟩ handle answer).2.2

theorem perform_lasts (rule : String) (own : Handle) (action : Action) :
    Lasts e ((reacting false react depth).perform rule own e action) :=
  ((reacting_related react depth e).perform ⟨rfl, .refl e⟩ rule own action).2

theorem evaluate_lasts (rule : String) (value : Json) (params : List Json) (p : Place)
    (handle : Handle) (body : Body) :
    Lasts e ((reacting false react depth).evaluate rule value params p handle body e).2 :=
  ((reacting_related react depth e).evaluate rule params body value p handle ⟨rfl, .refl e⟩).2.2

theorem run_lasts (moves : List Move) : Lasts e ((reacting false react depth).run e moves) := by
  refine ((reacting_related react depth e).run ?_ ⟨rfl, .refl e⟩).2
  rintro event - s _ ⟨rfl, lasts⟩
  exact ⟨rfl, lasts.trans (.of_same rfl)⟩

/-- A handle that has been settled is settled. -/
theorem settle_settles (handle : Handle) (given : Answer) :
    ((reacting false react depth).settle handle given e).2.isSettled handle.place = true := by
  cases settled : e.isSettled handle.place with
  | true => exact settle_lasts react depth e handle given _ settled
  | false =>
    have marked := e.isSettled_markSettled handle.place
    cases handle with
    | detached p =>
      rw [settle, once_first settled]
      exact marked
    | asked p question onward =>
      rw [settle, answer, once_first settled]
      exact deliver_lasts react depth _ onward p _ p marked

/-! ## While a handle is settled for the first time -/

/-- **Completions find the handle settled** whose first settlement they run in: what they would do if it
was not has no influence. -/
theorem settle_congr {hears hears' : Nat → Result → Engine → Engine} {handle : Handle}
    (same : ∀ call result e, e.isSettled handle.place = true →
      hears call result e = hears' call result e ∧
        (hears call result e).isSettled handle.place = true) (given : Answer) :
    (acting false hears).settle handle given e = (acting false hears').settle handle given e := by
  have related : Related (acting false hears) (acting false hears')
      fun s t => s = t ∧ s.isSettled handle.place = true := by
    refine ⟨?_, ?_, ?_, ?_, ?_, fun _ _ _ _ => id⟩
    · rintro s _ ⟨rfl, -⟩
      rfl
    · rintro s _ act ⟨rfl, settled⟩ change
      exact ⟨rfl, change.lasts s _ settled⟩
    · rintro s _ p ⟨rfl, settled⟩ -
      exact ⟨rfl, settled⟩
    · rintro s _ p rule ⟨rfl, settled⟩ -
      exact ⟨rfl, settled⟩
    · rintro s _ call result ⟨rfl, settled⟩
      exact same call result s settled
  cases settled : e.isSettled handle.place with
  | true =>
    rw [settle_again (c := acting false hears) settled, settle_again (c := acting false hears') settled]
    rfl
  | false =>
    cases handle with
    | detached p => rfl
    | asked p question onward =>
      have marked := e.isSettled_markSettled p
      have first : ∀ hears, (acting false hears).settle (.asked p question onward) given e =
          (acting false hears).judge p question given ((acting false hears).deliver onward p)
            (e.markSettled p) := fun hears => once_first (c := acting false hears) settled _
      obtain ⟨told, after, -⟩ :=
        related.judge ⟨rfl, marked⟩ p question given (related.deliver onward p)
      rw [first, first]
      exact Prod.ext told after

end Conduct
end Criteria
