/-!
# Numbered records

A store numbers its records in the order in which they are added, from zero on. A number stays valid
for good: records change in place and are never taken out.
-/

namespace Criteria
set_option autoImplicit false

/-- Records numbered in the order of their arrival. -/
structure Store (α : Type) where
  records : List α

namespace Store

variable {α : Type}

/-- The store without records. -/
def empty : Store α := ⟨[]⟩

instance : Inhabited (Store α) := ⟨empty⟩

/-- The number of records, which is also the number of the next one. -/
def size (s : Store α) : Nat := s.records.length

/-- The record of the given number. -/
def get? (s : Store α) (n : Nat) : Option α := s.records[n]?

/-- The store with one more record, whose number is `s.size`. -/
def add (s : Store α) (a : α) : Store α := ⟨s.records ++ [a]⟩

/-- The store with the record of the given number changed; nothing if there is none. -/
def update (s : Store α) (n : Nat) (change : α → α) : Store α := ⟨s.records.modify n change⟩

@[simp] theorem size_add (s : Store α) (a : α) : (s.add a).size = s.size + 1 := by
  simp [size, add]

@[simp] theorem size_update (s : Store α) (n : Nat) (change : α → α) :
    (s.update n change).size = s.size := by
  simp [size, update]

theorem get?_add (s : Store α) (a : α) (n : Nat) :
    (s.add a).get? n = if n = s.size then some a else s.get? n := by
  by_cases h : n = s.size
  · subst h
    simp [get?, add, size]
  · rw [if_neg h]
    simp only [get?, add]
    rcases Nat.lt_or_ge n s.records.length with inside | outside
    · exact List.getElem?_append_left inside
    · have beyond : s.records.length < n := Nat.lt_of_le_of_ne outside (Ne.symm h)
      rw [List.getElem?_eq_none (by simp; omega), List.getElem?_eq_none outside]

theorem get?_update (s : Store α) (n m : Nat) (change : α → α) :
    (s.update n change).get? m = if n = m then (s.get? m).map change else s.get? m := by
  simp only [get?, update, List.getElem?_modify]
  split <;> simp

end Store
end Criteria
