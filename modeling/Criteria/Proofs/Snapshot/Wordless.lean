import Criteria.Proofs.Isolation.Route
import Criteria.Proofs.Mirror.Evaluation
import Criteria.Proofs.Snapshot.Change

/-!
# Words decide nothing

Two engines are alike if they differ in their templates and in the messages of failures only. No answer is
judged by a message, so alike engines stay alike whatever is done to both, and also when one of them
defines or edits templates (`Engine.Alike.manages`).
-/

namespace Criteria
set_option autoImplicit false

/-- The region of everything. -/
def Root.all (_ : Root) : Bool := true

/-- Engines that differ in templates and messages only. -/
abbrev Engine.Alike (e s : Engine) : Prop := Attuned .wordless Root.all e s

variable {e e' s : Engine}

/-- Answers are judged alike by whatever templates. -/
theorem Question.judge_alike (question : Question) (templates templates' : Templates)
    (answer : Answer) :
    View.wordless.result (question.judge templates answer) =
      View.wordless.result (question.judge templates' answer) := by
  cases answer with
  | ok holds =>
    rw [judge, judge]
    split <;> rfl
  | error cause => rfl

/-- Alike engines keep the same handles. -/
theorem Mirrors.alike (h : Mirrors .wordless Root.all e s) (same : e.parked = s.parked)
    (inside : ∀ handle, some handle ∈ s.parked → handle.route.Within Root.all) : e.Alike s := by
  refine ⟨h, ?_⟩
  rw [same]
  generalize s.parked = slots at inside
  induction slots with
  | nil => exact .nil
  | cons slot slots ih =>
    refine .cons ?_ (ih fun handle mem => inside handle (List.mem_cons_of_mem _ mem))
    cases slot with
    | none => exact .gone
    | some handle => exact .inside (inside handle List.mem_cons_self)

theorem Sound.alike_refl {layout : Layout} (h : Sound layout e) : e.Alike e := by
  have mirrors : Mirrors .wordless Root.all e e :=
    ⟨fun _ _ => rfl, fun _ _ _ => rfl, fun _ _ => rfl, fun _ _ => rfl, rfl, fun _ _ => Iff.rfl⟩
  exact mirrors.alike rfl fun handle mem => h.within (fun _ _ => rfl) _ (h.parked handle mem).owns.laid

/-- The outcome of a call that has not returned a failure is what its completion received; if it has
received nothing, the outcome is pending as long as the call can complete. -/
theorem Engine.outcome?_of_record {call : Nat} {c : Call} (held : e.calls.get? call = some c)
    (unfailed : ∀ f, c.returned ≠ some (.error f)) :
    e.outcome? call =
      c.completed.or (if e.canComplete call then none else some (.error (.abandoned c.value))) := by
  obtain ⟨value, failure, returned, completed⟩ := c
  rcases returned with _ | f | b
  · cases completed <;> simp only [outcome?, held] <;> rfl
  · exact absurd rfl (unfailed f)
  · cases completed <;> simp only [outcome?, held] <;> rfl

namespace Engine.Alike

/-! ## What alike engines share -/

theorem parked_eq (h : e.Alike s) : e.parked = s.parked := by
  have slots := h.parked
  generalize e.parked = left at slots
  generalize s.parked = right at slots
  induction slots with
  | nil => rfl
  | cons kept _ ih =>
    rw [ih]
    cases kept with
    | gone | inside => rfl
    | outside other => cases other

/-- The handles that are kept stay in the region of everything. -/
theorem within (h : e.Alike s) {handle : Handle} (mem : some handle ∈ s.parked) :
    handle.route.Within Root.all := by
  obtain ⟨index, here⟩ := List.mem_iff_getElem?.1 mem
  have slot := h.parked? index
  rw [show s.parked? index = some handle by rw [Engine.parked?, here]; rfl] at slot
  generalize e.parked? index = other at slot
  cases slot with
  | inside within => exact within

theorem size_calls (h : e.Alike s) : e.calls.size = s.calls.size := by
  have made : ∀ n, n < e.calls.size ↔ n < s.calls.size := by
    intro n
    have same := congrArg Option.isSome (h.calls n rfl)
    rw [Option.isSome_map, Option.isSome_map] at same
    have inside : ∀ store : Store Call, n < store.size ↔ (store.get? n).isSome = true := by
      simp [Store.size, Store.get?]
    rw [inside, inside, same]
  have first := (made e.calls.size).not.1 (Nat.lt_irrefl _)
  have second := (made s.calls.size).not.2 (Nat.lt_irrefl _)
  omega

theorem loose_eq (h : e.Alike s) : e.loose = s.loose := by
  have first := (h.loose e.loose rfl).not.1 (Nat.lt_irrefl _)
  have second := (h.loose s.loose rfl).not.2 (Nat.lt_irrefl _)
  omega

theorem canComplete_eq (h : e.Alike s) (call : Nat) : e.canComplete call = s.canComplete call := by
  have leads : ∀ slot ∈ s.parked, (slot.any fun handle => e.leadsTo call handle.route) =
      slot.any fun handle => s.leadsTo call handle.route := by
    intro slot mem
    cases slot with
    | none => rfl
    | some handle => exact h.leadsTo call _ (h.within mem)
  rw [Engine.canComplete, Engine.canComplete, h.parked_eq, Bool.eq_iff_iff, List.any_eq_true,
    List.any_eq_true]
  exact exists_congr fun slot => and_congr_right fun mem => by rw [leads slot mem]

/-- The outcomes of calls are alike. -/
theorem outcome? (h : e.Alike s) (call : Nat) :
    (e.outcome? call).map View.wordless.result = (s.outcome? call).map View.wordless.result := by
  have record := h.calls call rfl
  have can := h.canComplete_eq call
  cases held : e.calls.get? call with
  | none =>
    rw [held, Option.map_none, eq_comm, Option.map_eq_none_iff] at record
    rw [Engine.outcome?, Engine.outcome?, held, record]
  | some c =>
    rw [held, Option.map_some, eq_comm, Option.map_eq_some_iff] at record
    obtain ⟨⟨value', failure', returned', completed'⟩, held', same⟩ := record
    obtain ⟨value, failure, returned, completed⟩ := c
    obtain ⟨rfl, -, returns, receives⟩ := Call.mk.inj same
    cases returned with
    | none =>
      obtain rfl : returned' = none := Option.map_eq_none_iff.1 returns
      rw [Engine.outcome?_of_record held nofun, Engine.outcome?_of_record held' nofun, can,
        Option.map_or, Option.map_or]
      exact congrArg (Option.or · _) receives.symm
    | some result =>
      obtain ⟨result', rfl, alike⟩ := Option.map_eq_some_iff.1 returns
      obtain ⟨b, rfl, rfl⟩ | ⟨f, g, rfl, rfl, seen⟩ := View.alike_cases alike
      · rw [Engine.outcome?_of_record held nofun, Engine.outcome?_of_record held' nofun, can,
          Option.map_or, Option.map_or]
        exact congrArg (Option.or · _) receives.symm
      · simp only [Engine.outcome?, held, held']
        exact congrArg (some ∘ Except.error) seen.symm

/-! ## What alike engines do -/

/-- Whatever one of the engines makes of its templates, they stay alike. -/
theorem manages (h : e.Alike s) (manages : e.Manages e') : e'.Alike s := by
  obtain ⟨moves, all, rfl⟩ := manages
  induction moves generalizing e with
  | nil => exact h
  | cons m moves ih =>
    have rest := fun next : (e.move m).Alike s => ih next fun m mem => all m (List.mem_cons_of_mem _ mem)
    obtain ⟨valid, manages⟩ := all m List.mem_cons_self
    cases m with
    | define | setTemplate =>
      exact rest { h with judges := fun question answer => question.judge_alike _ _ answer }
    | log event =>
      have nowhere : event.root?.any Root.all = false := by
        cases event <;> first | rfl | exact valid.elim
      exact rest (Attuned.spares h (.note nowhere))
    | _ => exact manages.elim

theorem drop (h : e.Alike s) (index : Nat) : (e.dropParked index).Alike (s.dropParked index) := by
  have mirrors : Mirrors .wordless Root.all (e.dropParked index) (s.dropParked index) :=
    { h.toMirrors with }
  refine mirrors.alike (congrArg (List.set · index none) h.parked_eq) fun handle mem => ?_
  rcases List.mem_or_eq_of_mem_set mem with before | impossible
  · exact h.within before
  · cases impossible

theorem park (h : e.Alike s) : e.parkDetached.Alike s.parkDetached := by
  have mirrors : Mirrors .wordless Root.all e.parkDetached s.parkDetached :=
    { h.toMirrors with
      loose := fun n _ => by rw [show e.parkDetached.loose = s.parkDetached.loose from
        congrArg Nat.succ h.loose_eq] }
  have place : e.loosePlace = s.loosePlace := by rw [loosePlace, loosePlace, h.loose_eq]
  refine mirrors.alike ?_ fun handle mem => ?_
  · show e.parked ++ [some (.detached e.loosePlace)] = s.parked ++ [some (.detached s.loosePlace)]
    rw [h.parked_eq, place]
  · rcases List.mem_append.1 mem with before | new
    · exact h.within before
    · obtain rfl : handle = .detached s.loosePlace := Option.some.inj (List.mem_singleton.1 new)
      exact (rfl : s.loosePlace.path = [])

end Engine.Alike
end Criteria
