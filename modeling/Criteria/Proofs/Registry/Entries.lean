import Criteria.Engine.State
import Criteria.Proofs.Clause.Resolution
import Mathlib.Data.List.Induction
import Mathlib.Data.List.Nodup

/-!
# What changes make of a registry

A registry changes when a definition is added under its name and when a name is removed. The last change on a
name decides what is found under it (`Registry.lookup?_changed`). The names are those under which something is
found, each once, so what the changes note in the log accounts for the size (`Registry.size_changed`).
-/

namespace Criteria
set_option autoImplicit false

/-- What is done to a registry. -/
inductive Registry.Change where
  | add (definition : Definition)
  | remove (name : String)

namespace Registry.Change

/-- The name that is worked on. -/
def name : Change → String
  | add d => d.name
  | remove name => name

/-- The definition that is there afterwards. -/
def made? : Change → Option Definition
  | add d => some d
  | remove _ => none

/-- The registry with the change made. -/
def apply (r : Registry) : Change → Registry
  | add d => r.insert d
  | remove name => r.erase name

/-- What the change notes in the log of the registry, which has the given number. -/
def event? (number : Nat) (r : Registry) : Change → Option Event
  | add d => some (.registered number d.name (r.contains d.name))
  | remove name => if r.contains name then some (.removed number name) else none

end Registry.Change

namespace Registry

variable {r : Registry} {name : String}

/-- The registry with changes made in order. -/
def changed (r : Registry) (changes : List Change) : Registry := changes.foldl Change.apply r

/-- The last change on a name. -/
def last? (name : String) (changes : List Change) : Option Change :=
  (changes.filter fun c => c.name == name).getLast?

/-- What changes note in the log, in order, each as it finds the registry. -/
def log (number : Nat) (r : Registry) : List Change → List Event
  | [] => []
  | c :: rest => (c.event? number r).toList ++ log number (c.apply r) rest

/-! ## Names and sizes -/

theorem contains_iff : r.contains name = true ↔ ∃ d, r.lookup? name = some d := Option.isSome_iff_exists

theorem mem_names : name ∈ r.names ↔ r.contains name = true := by
  simp [names, contains, lookup?, List.find?_isSome]

theorem pairwise_names (r : Registry) : r.names.Pairwise (· < ·) := List.pairwise_map.2 r.sorted

theorem nodup_names (r : Registry) : r.names.Nodup := by
  refine r.pairwise_names.imp ?_
  rintro a _ before rfl
  exact String.lt_irrefl a before

theorem length_names (r : Registry) : r.names.length = r.size := List.length_map _

theorem isEmpty_iff : r.isEmpty = true ↔ r.size = 0 := by
  simp [isEmpty, size]

/-- Names, each once, that are those of a registry count its entries. -/
theorem size_eq_length {list : List String} (nodup : list.Nodup)
    (same : ∀ name, r.contains name = true ↔ name ∈ list) : r.size = list.length := by
  rw [← length_names]
  refine ((List.perm_ext_iff_of_nodup r.nodup_names nodup).2 fun name => ?_).length_eq
  exact mem_names.trans (same name)

/-! ## Adding and removing -/

theorem find?_name_cons (e : Definition) (rest : List Definition) (name : String) :
    (e :: rest).find? (fun d => d.name == name) =
      if e.name = name then some e else rest.find? (fun d => d.name == name) := by
  rw [List.find?_cons]
  split <;> simp_all

theorem find?_insertEntry (d : Definition) (name : String) (entries : List Definition) :
    (insertEntry d entries).find? (fun e => e.name == name) =
      if d.name = name then some d else entries.find? (fun e => e.name == name) := by
  induction entries with
  | nil => exact find?_name_cons d [] name
  | cons e rest ih =>
    rw [insertEntry, find?_name_cons e rest]
    split
    · rw [find?_name_cons, find?_name_cons]
    · split
      next same => rw [find?_name_cons, same]; split <;> rfl
      next other =>
        rw [find?_name_cons, ih]
        split
        next here => rw [if_neg fun there => other (here.trans there.symm)]
        next => rfl

theorem lookup?_insert (r : Registry) (d : Definition) (name : String) :
    (r.insert d).lookup? name = if d.name = name then some d else r.lookup? name :=
  find?_insertEntry d name r.entries

theorem lookup?_erase (r : Registry) (name other : String) :
    (r.erase name).lookup? other = if name = other then none else r.lookup? other := by
  rw [lookup?, lookup?, erase, List.find?_filter]
  split
  next same =>
    subst same
    simp
  next differs =>
    congr 1
    funext e
    by_cases here : e.name = other
    · simp [here, Ne.symm differs]
    · simp [here]

/-- A registry stays as it is when a name is removed that it does not hold. -/
theorem erase_of_absent (absent : r.contains name = false) : r.erase name = r := by
  have all : ∀ d ∈ r.entries, (d.name != name) = true := by
    simpa [contains, lookup?] using absent
  have same : (r.erase name).entries = r.entries := List.filter_eq_self.2 all
  cases r
  exact Registry.mk.injEq _ _ _ _ ▸ same

theorem contains_insert (r : Registry) (d : Definition) (name : String) :
    (r.insert d).contains name = true ↔ d.name = name ∨ r.contains name = true := by
  rw [contains, lookup?_insert]
  split
  next same => simp [same]
  next differs => simp [differs, contains]

theorem contains_erase (r : Registry) (name other : String) :
    (r.erase name).contains other = true ↔ name ≠ other ∧ r.contains other = true := by
  rw [contains, lookup?_erase]
  split
  next same => simp [same]
  next differs => simp [differs, contains]

/-- A new name counts, a name that was there does not. -/
theorem size_insert (r : Registry) (d : Definition) :
    (r.insert d).size = if r.contains d.name then r.size else r.size + 1 := by
  split
  next there =>
    refine (size_eq_length r.nodup_names fun name => ?_).trans r.length_names
    rw [contains_insert, mem_names]
    exact ⟨fun here => here.elim (fun same => same ▸ there) id, .inr⟩
  next absent =>
    have nodup : (d.name :: r.names).Nodup := List.nodup_cons.2 ⟨mt mem_names.1 absent, r.nodup_names⟩
    refine (size_eq_length nodup fun name => ?_).trans (congrArg (· + 1) r.length_names)
    rw [contains_insert, List.mem_cons, mem_names, eq_comm]

/-- The name that is removed counted. -/
theorem size_erase (present : r.contains name = true) : (r.erase name).size + 1 = r.size := by
  have nodup : (name :: (r.erase name).names).Nodup := by
    refine List.nodup_cons.2 ⟨fun mem => ?_, nodup_names _⟩
    exact ((contains_erase r name name).1 (mem_names.1 mem)).1 rfl
  have size := size_eq_length (r := r) nodup fun other => by
    rw [List.mem_cons, mem_names, contains_erase]
    by_cases same : other = name
    · simp [same, present]
    · simp [same, Ne.symm same]
  rw [size, List.length_cons, length_names]

/-! ## Changes -/

theorem lookup?_apply (r : Registry) (c : Change) (name : String) :
    (c.apply r).lookup? name = if c.name = name then c.made? else r.lookup? name := by
  cases c with
  | add d => exact r.lookup?_insert d name
  | remove removed => exact r.lookup?_erase removed name

theorem last?_append (changes : List Change) (c : Change) :
    last? name (changes ++ [c]) = if c.name = name then some c else last? name changes := by
  rw [last?, last?, List.filter_append]
  split <;> simp_all

/-- **The last change on a name** decides what is found under it. -/
theorem lookup?_changed (r : Registry) (changes : List Change) (name : String) :
    (r.changed changes).lookup? name =
      match last? name changes with
      | some c => c.made?
      | none => r.lookup? name := by
  -- By induction from the end: the change made last is on this name or leaves what is found under it.
  induction changes using List.reverseRec with
  | nil => rfl
  | append_singleton changes c ih =>
    have step : (r.changed (changes ++ [c])) = c.apply (r.changed changes) := by
      simp [changed]
    rw [step, lookup?_apply, last?_append]
    split
    · rfl
    · exact ih

theorem changed_append (r : Registry) (changes more : List Change) :
    r.changed (changes ++ more) = (r.changed changes).changed more := List.foldl_append

theorem log_append (number : Nat) (changes more : List Change) : ∀ r : Registry,
    log number r (changes ++ more) = log number r changes ++ log number (r.changed changes) more := by
  induction changes with
  | nil => exact fun _ => rfl
  | cons c rest ih =>
    intro r
    rw [List.cons_append, log, log, ih, List.append_assoc]
    rfl

end Registry

/-- Whether a rule was registered under a new name. -/
def Event.isAddition : Event → Bool
  | .registered _ _ replaced => !replaced
  | _ => false

/-- Whether a rule was removed. -/
def Event.isRemoval : Event → Bool
  | .removed _ _ => true
  | _ => false

namespace Registry

theorem size_apply (number : Nat) (r : Registry) (c : Change) :
    (c.apply r).size + (c.event? number r).toList.countP Event.isRemoval =
      r.size + (c.event? number r).toList.countP Event.isAddition := by
  cases c with
  | add d =>
    rw [Change.apply, size_insert]
    cases held : r.contains d.name <;> simp [Change.event?, held, Event.isRemoval, Event.isAddition]
  | remove name =>
    cases held : r.contains name with
    | false => simp [Change.apply, Change.event?, held, erase_of_absent held]
    | true =>
      simpa [Change.apply, Change.event?, held, Event.isRemoval, Event.isAddition] using size_erase held

/-- **The log accounts for the size**: the names that came new, less those that were removed. -/
theorem size_changed (number : Nat) (changes : List Change) : ∀ r : Registry,
    (r.changed changes).size + (log number r changes).countP Event.isRemoval =
      r.size + (log number r changes).countP Event.isAddition := by
  induction changes with
  | nil => exact fun _ => rfl
  | cons c rest ih =>
    intro r
    have first := size_apply number r c
    have further := ih (c.apply r)
    rw [log, List.countP_append, List.countP_append]
    rw [show r.changed (c :: rest) = (c.apply r).changed rest from rfl]
    omega

end Registry
end Criteria
