/-!
# Places

A place says where in a run a check stands: the call it belongs to and the positions on the way down
to it. A check is started at most once in a run, so its place names its handle, and the place of a
list of checks names the list. A rule body that is evaluated outside of any call has a loose place.
A board keeps one record for each place.
-/

namespace Criteria
set_option autoImplicit false

/-- What a place belongs to. -/
inductive Root where
  | call (number : Nat)
  | loose (number : Nat)
deriving DecidableEq, Repr

/-- Where a check stands; the innermost position comes first. -/
structure Place where
  root : Root
  path : List Nat
deriving DecidableEq, Repr

/-- The place of the check at a position of the list that stands here. -/
def Place.member (p : Place) (position : Nat) : Place := ⟨p.root, position :: p.path⟩

/-- Taking out the entries of one key leaves those of the others. -/
theorem lookup_filter_ne {κ α : Type} [BEq κ] [LawfulBEq κ] {p q : κ} (different : q ≠ p)
    (entries : List (κ × α)) :
    (entries.filter fun entry => entry.1 != p).lookup q = entries.lookup q := by
  induction entries with
  | nil => rfl
  | cons entry rest ih =>
    obtain ⟨k, a⟩ := entry
    by_cases same : k = p
    · subst same
      have unlike : (q == k) = false := by simpa using different
      simp [List.lookup_cons, unlike, ih]
    · rw [List.filter_cons_of_pos (by simpa using same)]
      simp only [List.lookup_cons, ih]

/-- One record for each place that has one. -/
structure Board (α : Type) where
  entries : List (Place × α)

namespace Board

variable {α : Type}

/-- The board without records. -/
def empty : Board α := ⟨[]⟩

instance : Inhabited (Board α) := ⟨empty⟩

/-- The record of a place. -/
def get? (b : Board α) (p : Place) : Option α := b.entries.lookup p

/-- Puts a record at a place, instead of the one that is there. -/
def put (b : Board α) (p : Place) (a : α) : Board α :=
  ⟨(p, a) :: b.entries.filter fun entry => entry.1 != p⟩

theorem get?_put (b : Board α) (p q : Place) (a : α) :
    (b.put p a).get? q = if q = p then some a else b.get? q := by
  by_cases same : q = p
  · simp [get?, put, same]
  · have unlike : (q == p) = false := by simpa using same
    simp only [get?, put, List.lookup_cons, unlike, if_neg same]
    exact lookup_filter_ne same b.entries

end Board
end Criteria
