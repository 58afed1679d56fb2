import Criteria.Rule.Body

/-!
# Registries

A registry holds definitions by name. They are listed in code point order of their names, each name
once, so the listing is the registry's own order and no sorting is left to do.
-/

namespace Criteria
set_option autoImplicit false

namespace Registry

/-- Puts a definition in its place by name; it replaces one of the same name. -/
def insertEntry (d : Definition) : List Definition → List Definition
  | [] => [d]
  | e :: rest =>
    if d.name < e.name then d :: e :: rest
    else if e.name = d.name then d :: rest
    else e :: insertEntry d rest

theorem mem_insertEntry {d x : Definition} {entries : List Definition}
    (h : x ∈ insertEntry d entries) : x = d ∨ x ∈ entries := by
  induction entries with
  | nil => simpa [insertEntry] using h
  | cons e rest ih =>
    simp only [insertEntry] at h
    split at h
    · simpa using h
    · split at h
      · rcases List.mem_cons.1 h with rfl | h
        · exact .inl rfl
        · exact .inr (List.mem_cons_of_mem _ h)
      · rcases List.mem_cons.1 h with rfl | h
        · exact .inr List.mem_cons_self
        · exact (ih h).imp_right (List.mem_cons_of_mem _)

theorem pairwise_insertEntry {d : Definition} {entries : List Definition}
    (h : entries.Pairwise fun a b => a.name < b.name) :
    (insertEntry d entries).Pairwise fun a b => a.name < b.name := by
  induction entries with
  | nil => simp [insertEntry]
  | cons e rest ih =>
    obtain ⟨first, tail⟩ := List.pairwise_cons.1 h
    simp only [insertEntry]
    split
    next before =>
      refine List.pairwise_cons.2 ⟨fun x hx => ?_, h⟩
      rcases List.mem_cons.1 hx with rfl | hx
      · exact before
      · exact String.lt_trans before (first x hx)
    next notBefore =>
      split
      next same => exact List.pairwise_cons.2 ⟨fun x hx => same ▸ first x hx, tail⟩
      next other =>
        refine List.pairwise_cons.2 ⟨fun x hx => ?_, ih tail⟩
        rcases mem_insertEntry hx with rfl | hx
        · exact Decidable.byContradiction fun notAfter =>
            other (String.le_antisymm (String.not_lt.1 notBefore) (String.not_lt.1 notAfter))
        · exact first x hx

end Registry

/-- The definitions that clauses are resolved against. -/
structure Registry where
  entries : List Definition
  sorted : entries.Pairwise fun a b => a.name < b.name

namespace Registry

/-- The registry without rules. -/
def empty : Registry := ⟨[], .nil⟩

instance : Inhabited Registry := ⟨empty⟩

/-- The definition registered under a name. -/
def lookup? (r : Registry) (name : String) : Option Definition :=
  r.entries.find? fun d => d.name == name

/-- Whether a rule is registered under a name. -/
def contains (r : Registry) (name : String) : Bool := (r.lookup? name).isSome

/-- Registers a definition under its name. -/
def insert (r : Registry) (d : Definition) : Registry :=
  ⟨insertEntry d r.entries, pairwise_insertEntry r.sorted⟩

/-- Forgets the definition registered under a name. -/
def erase (r : Registry) (name : String) : Registry :=
  ⟨r.entries.filter fun d => d.name != name, r.sorted.filter _⟩

/-- The registered names, in code point order. -/
def names (r : Registry) : List String := r.entries.map (·.name)

/-- The number of registered rules. -/
def size (r : Registry) : Nat := r.entries.length

/-- Whether no rule is registered. -/
def isEmpty (r : Registry) : Bool := r.entries.isEmpty

end Registry
end Criteria
