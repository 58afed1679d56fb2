import Criteria.Proofs.Isolation.Route
import Criteria.Proofs.Mirror.Evaluation
import Criteria.Proofs.Run.Chronicle

/-!
# A run without the others

What a call needs of what came before is little: the templates of the definitions, and the numbers that
it and its handles will get. `Engine.backdrop` lists moves that provide just that, in a run in which no
rule body was ever invoked and no handle is kept. There the call has only itself, and the engine in
which it is made in fact is attuned to it (`attuned_backdrop`).
-/

namespace Criteria
set_option autoImplicit false

/-- The validator without clauses. -/
def Validator.empty : Validator := ⟨0, []⟩

theorem Validator.built_empty : Validator.empty.Built :=
  ⟨0, .empty, [], fun _ mem => absurd mem List.not_mem_nil, rfl⟩

/-- Moves that define the same templates, make as many calls, of a validator without clauses, and make
as many handles, which are dropped at once. -/
def Engine.backdrop (e : Engine) : List Move :=
  e.templates.records.map .define ++
    (List.replicate e.calls.size (.call .empty .null) ++
      (List.range e.parked.length).flatMap fun index => [.make, .drop index])

namespace Engine

variable {e : Engine}

theorem valid_backdrop : ∀ m ∈ e.backdrop, m.Valid := by
  intro m mem
  simp only [backdrop, List.mem_append, List.mem_map, List.mem_replicate, List.mem_flatMap,
    List.mem_cons, List.not_mem_nil, or_false] at mem
  obtain ⟨templates, -, rfl⟩ | ⟨-, rfl⟩ | ⟨index, -, rfl | rfl⟩ := mem
  · trivial
  · exact Validator.built_empty
  · trivial
  · trivial

/-- Definitions add their templates and nothing else. -/
theorem run_define (records : List Templates) : ∀ e : Engine,
    e.run (records.map .define) = { e with templates := ⟨e.templates.records ++ records⟩ } := by
  induction records with
  | nil =>
    intro e
    rw [List.append_nil]
    rfl
  | cons templates records ih =>
    intro e
    rw [List.map_cons, run, List.foldl_cons, ← run, ih]
    simp [move, define, Store.add]

/-- A call of the validator without clauses keeps no handle. -/
theorem call_empty (e : Engine) (value : Json) :
    (e.call .empty value).2.templates = e.templates ∧
      (e.call .empty value).2.calls.size = e.calls.size + 1 ∧
      (e.call .empty value).2.parked = e.parked := by
  have confined : Confined .empty _ _ := .complete (e.enter value) e.calls.size (.ok true)
  have grows := complete_rests (e.enter value) e.calls.size (.ok true)
  rw [call_of_empty rfl]
  refine ⟨confined.templates, ?_, confined.parked⟩
  rw [show ∀ (e : Engine) id result, (e.leave id result).calls = (e.updateCall id _).calls from
    fun _ _ _ => rfl, updateCall, Store.size_update, grows.calls, enter, Store.size_add]

theorem run_calls (n : Nat) : ∀ e : Engine,
    (e.run (List.replicate n (.call .empty .null))).templates = e.templates ∧
      (e.run (List.replicate n (.call .empty .null))).calls.size = e.calls.size + n ∧
      (e.run (List.replicate n (.call .empty .null))).parked = e.parked := by
  induction n with
  | zero => exact fun _ => ⟨rfl, rfl, rfl⟩
  | succ n ih =>
    intro e
    obtain ⟨templates, size, parked⟩ := call_empty e .null
    obtain ⟨templates', size', parked'⟩ := ih (e.call .empty .null).2
    refine ⟨templates'.trans templates, size'.trans ?_, parked'.trans parked⟩
    rw [size, Nat.add_right_comm, Nat.add_assoc]

/-- Handles that are dropped as soon as they are made leave gaps. -/
theorem run_gaps (n : Nat) : ∀ e : Engine, e.parked = [] →
    (e.run ((List.range n).flatMap fun index => [.make, .drop index])).templates = e.templates ∧
      (e.run ((List.range n).flatMap fun index => [.make, .drop index])).calls.size = e.calls.size ∧
      (e.run ((List.range n).flatMap fun index => [.make, .drop index])).parked =
        List.replicate n none := by
  induction n with
  | zero => exact fun _ parked => ⟨rfl, rfl, parked⟩
  | succ n ih =>
    intro e parked
    obtain ⟨templates, size, gaps⟩ := ih e parked
    rw [List.range_succ, List.flatMap_append, run_append]
    refine ⟨templates, size, ?_⟩
    generalize e.run _ = before at gaps
    have dropped : (before.run [.make, .drop n]).parked =
        (before.parked ++ [some (Handle.detached before.loosePlace)]).set n none := rfl
    rw [List.flatMap_singleton, dropped, gaps, List.replicate_succ',
      List.set_append_right n none (by simp)]
    simp

/-- **What the backdrop provides**, and that no handle is kept there. -/
theorem run_backdrop (e : Engine) :
    (empty.run e.backdrop).templates = e.templates ∧
      (empty.run e.backdrop).calls.size = e.calls.size ∧
      (empty.run e.backdrop).parked = List.replicate e.parked.length none := by
  have defined := run_define e.templates.records empty
  rw [backdrop, run_append, run_append, defined]
  obtain ⟨templates, size, parked⟩ := run_calls e.calls.size
    { empty with templates := ⟨empty.templates.records ++ e.templates.records⟩ }
  obtain ⟨templates', size', gaps⟩ := run_gaps e.parked.length _ parked
  refine ⟨templates'.trans templates, size'.trans (size.trans ?_), gaps⟩
  exact Nat.zero_add _

end Engine

/-! ## The mirror image -/

/-- The region of a call. -/
def Root.ofCall (call : Nat) (root : Root) : Bool := decide (root = .call call)

theorem returned?_ne_none {call : Nat} {result : Result} {journal : Journal}
    (mem : Event.returned call result ∈ journal) : returned? call journal ≠ none := by
  induction journal with
  | nil => cases mem
  | cons event journal ih =>
    rcases List.mem_cons.1 mem with rfl | before
    · simp [returned?]
    · cases event with
      | returned id answer =>
        rw [returned?]
        split
        · exact Option.some_ne_none _
        · exact ih before
      | _ => exact ih before

/-- Nothing has happened yet in a call that has not been made. -/
theorem Sound.history_new {layout : Layout} {e : Engine} (h : Sound layout e)
    (answered : Answered e.journal) : e.history (Root.ofCall e.calls.size) = [] := by
  have unknown : ∀ {x : Place}, x.root = .call e.calls.size → ¬ e.Known x :=
    h.toPlaced.unknown h.new_call (h.unissued_call _)
  have unjudged : ∀ p answer result, Event.judged p answer result ∈ e.journal →
      p.root ≠ .call e.calls.size := fun p answer result mem below =>
    unknown below (.inr (h.judged p answer result mem).1)
  rw [Engine.history, List.filter_eq_nil_iff]
  obtain ⟨unreturned, uncompleted⟩ := h.unheard e.calls.size (Nat.le_refl _)
  intro event mem mine
  cases event with
  | invoked p rule scripted value params =>
    exact unknown (of_decide_eq_true mine) (.inr ⟨rule, scripted, value, params, mem⟩)
  | judged p answer result => exact unjudged p answer result mem (of_decide_eq_true mine)
  | told p report =>
    obtain ⟨answer, result, judged⟩ := (answered p).2 ⟨report, mem⟩
    exact unjudged p answer result judged (of_decide_eq_true mine)
  | completed call result =>
    obtain rfl : call = e.calls.size := Root.call.inj (of_decide_eq_true mine)
    have received : result ∈ completions e.calls.size e.journal :=
      List.mem_filterMap.2 ⟨_, mem, by simp⟩
    rw [uncompleted] at received
    cases received
  | returned call result =>
    obtain rfl : call = e.calls.size := Root.call.inj (of_decide_eq_true mine)
    exact returned?_ne_none mem unreturned
  | _ => cases mine

/-- Nothing stands yet at the places of a call that has not been made. -/
theorem Sound.unsettled_new {layout : Layout} {e : Engine} (h : Sound layout e) {p : Place}
    (below : p.root = .call e.calls.size) (inner : p.path ≠ []) : e.isSettled p = false := by
  rw [Engine.isSettled, List.contains_eq_mem, decide_eq_false_iff_not]
  intro mem
  obtain ⟨handle, handed⟩ := h.asks p mem inner
  exact Layout.root_of_handle? handed (below ▸ h.new_call)

theorem Sound.unopened_new {layout : Layout} {e : Engine} (h : Sound layout e) {p : Place}
    (below : p.root = .call e.calls.size) : e.lists.get? p = none := by
  have closed : ¬ e.Opened p := fun opened =>
    h.toPlaced.unknown h.new_call (h.unissued_call _) below (.inl opened)
  exact Classical.not_not.1 closed

/-- Handles that all lead outside a region, of which the second engine keeps none. -/
theorem kept_gaps {region : Root → Bool} {root : Root} (other : region root = false)
    {slots : List (Option Handle)}
    (outside : ∀ handle, some handle ∈ slots → handle.route.Within fun root => !region root) :
    List.Forall₂ (Kept region) slots (List.replicate slots.length none) := by
  induction slots with
  | nil => exact .nil
  | cons slot slots ih =>
    refine .cons ?_ (ih fun handle mem => outside handle (List.mem_cons_of_mem _ mem))
    cases slot with
    | none => exact .gone
    | some handle => exact .outside other (outside handle List.mem_cons_self)

/-- **An engine and its backdrop are attuned in the call that comes next**: there is nothing of it yet,
and the handles that are kept lead elsewhere. -/
theorem attuned_backdrop {layout bare : Layout} {e : Engine} (h : Sound layout e)
    (answered : Answered e.journal) (h' : Sound bare (Engine.empty.run e.backdrop))
    (answered' : Answered (Engine.empty.run e.backdrop).journal) :
    Attuned .whole (Root.ofCall e.calls.size) e (Engine.empty.run e.backdrop) := by
  obtain ⟨templates, size, gaps⟩ := Engine.run_backdrop e
  have history' := h'.history_new answered'
  rw [size] at history'
  refine ⟨⟨fun question answer => ?_, fun p mine inner => ?_, fun p mine => ?_, fun call mine => ?_,
    ?_, fun n impossible => ?_⟩, ?_⟩
  · rw [Engine.templatesOf_congr templates]
  · have below : p.root = .call e.calls.size := of_decide_eq_true mine
    rw [h.unsettled_new below inner, h'.unsettled_new (size ▸ below) inner]
  · have below : p.root = .call e.calls.size := of_decide_eq_true mine
    rw [h.unopened_new below, h'.unopened_new (size ▸ below)]
  · obtain rfl : call = e.calls.size := Root.call.inj (of_decide_eq_true mine)
    have unmade : e.calls.get? e.calls.size = none := List.getElem?_eq_none (Nat.le_refl _)
    have unmade' : (Engine.empty.run e.backdrop).calls.get? e.calls.size = none :=
      List.getElem?_eq_none (Nat.le_of_eq size)
    rw [unmade, unmade']
  · rw [h.history_new answered, history']
  · cases of_decide_eq_true impossible
  · rw [gaps]
    refine kept_gaps (show Root.ofCall _ (.loose 0) = false from rfl) fun handle mem =>
      h.within (fun root known => ?_) _ (h.parked handle mem).owns.laid
    have other : root ≠ .call e.calls.size := fun same => known (same ▸ h.new_call)
    simp [Root.ofCall, other]

end Criteria
