import Criteria.Proofs.Engine.Delivery
import Criteria.Proofs.Engine.Growth
import Mathlib.Logic.Relation

/-!
# Evaluation as a sequence of steps

`EvalStep` says all that evaluation can do to an engine: invoke a body, open a list, settle a handle,
pass an empty validator, keep a handle, note what a body was told. Bodies are invoked and lists are
opened below the active root only, and a handle is settled by those who hold it: it is kept, or it is
the own handle of a body below the active root. Each step keeps engines sound, and starting checks is
a sequence of steps (`start_runs`), so whatever the steps keep is kept by whole evaluations with all
the bodies in them.
-/

namespace Criteria
set_option autoImplicit false

variable {layout : Layout} {active : Option Root} {e e' : Engine}

/-- Whether somebody can use a handle: it is kept, or its body is being evaluated. -/
def Engine.Held (e : Engine) (active : Option Root) (handle : Handle) : Prop :=
  some handle ∈ e.parked ∨ active = some handle.place.root

/-- One step of an evaluation below the active root, if there is one. -/
inductive EvalStep (layout : Layout) (active : Option Root) : Engine → Engine → Prop where
  /-- Notes that the body at a place, which was not invoked before, is invoked. -/
  | invoke {e : Engine} {p : Place} (rule : String) (scripted : Bool) (value : Json)
      (params : List Json) (mine : active = some p.root) (fresh : ¬ e.Known p)
      (above : ∀ w i, p = w.member i → e.Opened w)
      (root : p.path = [] → ∃ n, p.root = .loose n ∧ n < e.loose)
      (inhabited : ∀ o, layout.opening? p = some o → o.checks ≠ []) :
      EvalStep layout active e (e.note (.invoked p rule scripted value params))
  /-- Opens the list that stands at a place. -/
  | openList {e : Engine} {p : Place} {o : Opening} (found : layout.opening? p = some o)
      (mine : active = some p.root) (inhabited : o.checks ≠ []) (closed : ¬ e.Opened p)
      (above : ∀ w i, p = w.member i → e.Opened w)
      (asked : ∀ h, layout.handle? p = some h → Issued p e.journal) :
      EvalStep layout active e (e.putList p (.start o.combinator o.checks.length))
  /-- Settles a handle that was handed out. -/
  | settle {e : Engine} {handle : Handle} (lends : layout.Lends e.journal handle)
      (held : e.Held active handle) (answer : Answer) :
      EvalStep layout active e (Engine.settle handle answer e).2
  /-- Notes that a validator without clauses is invoked as a rule and sends its result. -/
  | pass {e : Engine} {p : Place} {o : Opening} {handle : Handle} (rule : String) (value : Json)
      (params : List Json) (mine : active = some p.root) (fresh : ¬ e.Known p)
      (above : ∀ w i, p = w.member i → e.Opened w)
      (root : p.path = [] → ∃ n, p.root = .loose n ∧ n < e.loose)
      (found : layout.opening? p = some o) (empty : o.checks = [])
      (onward : o.onward = handle.route)
      (owns : layout.Owns (.invoked p rule false value params :: e.journal) handle) :
      EvalStep layout active e
        (Engine.deliver handle.route (.ok true) (e.note (.invoked p rule false value params))).2
  /-- Keeps a handle that was handed out. -/
  | park {e : Engine} {handle : Handle} (lends : layout.Lends e.journal handle)
      (held : e.Held active handle) : EvalStep layout active e (e.park handle)
  /-- Notes what a body was told that settled a handle. -/
  | told {e : Engine} (rule : String) (report : Report) :
      EvalStep layout active e (e.note (.settledBy rule report))

/-! ## Each step keeps engines sound -/

/-- Every list above something that was started is open. -/
theorem Placed.opened_above (h : Placed layout e) {x q : Place} (known : e.Known q)
    (encloses : x.Encloses q) (other : x ≠ q) : e.Opened x := by
  obtain ⟨root, path⟩ := q
  induction path with
  | nil => exact absurd encloses.eq_root other
  | cons i path ih =>
    have opened : e.Opened ⟨root, path⟩ := h.above ⟨root, path⟩ i known
    have above := (Place.encloses_member_iff (p := ⟨root, path⟩)).1 encloses
    by_cases here : x = ⟨root, path⟩
    · exact here ▸ opened
    · exact ih (.inl opened) (above.resolve_left other) here

/-- Nothing was judged below a list that is not open. -/
theorem Placed.untouched (h : Placed layout e) {p : Place} (closed : ¬ e.Opened p) :
    ∀ event ∈ e.journal, ∀ i, ¬ event.Touches (p.member i) := by
  intro event mem i touches
  cases event with
  | judged q answer result =>
    obtain ⟨issued, -⟩ := h.judged q answer result mem
    refine closed (h.opened_above (.inr issued) ((p.encloses_member i).trans touches) ?_)
    rintro rfl
    exact Place.not_member_encloses _ i touches
  | _ => exact touches

theorem Opening.results_eq_nil {o : Opening} {p : Place} :
    ∀ {journal : Journal}, (∀ event ∈ journal, ∀ i, ¬ event.Touches (p.member i)) →
      o.results p journal = []
  | [], _ => rfl
  | event :: journal, untouched => by
    have same : ∀ part ∈ o.parts p, part (event :: journal) = part journal := by
      intro part mem
      obtain ⟨i, check, found, rfl⟩ := Check.mem_outcomes mem
      exact Check.outcome?_cons_of_untouched o.value journal (untouched event List.mem_cons_self i)
        check
    rw [Opening.results_cons_of_same same]
    exact results_eq_nil fun event mem => untouched event (List.mem_cons_of_mem _ mem)

theorem Sound.invoke (h : Sound layout e) {p : Place} (rule : String) (scripted : Bool)
    (value : Json) (params : List Json) (above : ∀ w i, p = w.member i → e.Opened w)
    (root : p.path = [] → ∃ n, p.root = .loose n ∧ n < e.loose) :
    Sound layout (e.note (.invoked p rule scripted value params)) := by
  have issued : ∀ {q : Place}, Issued q (e.note (.invoked p rule scripted value params)).journal →
      q = p ∨ Issued q e.journal := by
    rintro q ⟨rule', scripted', value', params', mem⟩
    rcases List.mem_cons.1 mem with equal | mem
    · cases equal
      exact .inl rfl
    · exact .inr ⟨rule', scripted', value', params', mem⟩
  have untouched : ∀ q, ¬ (Event.invoked p rule scripted value params).Touches q := fun _ => id
  have judged : ∀ {q : Place} {answer : Answer} {result : Result}, Event.judged q answer result ∈
      (e.note (.invoked p rule scripted value params)).journal →
        Event.judged q answer result ∈ e.journal := by
    intro q answer result mem
    rcases List.mem_cons.1 mem with equal | mem
    · cases equal
    · exact mem
  refine ⟨⟨h.wellFormed, h.calls, ?_, ?_, h.opened, ?_, ?_, ?_, ?_, h.asks, ?_, h.unheard⟩, ?_, ?_⟩
  · intro n o found
    obtain ⟨conjunction, bound, handle, lends, onward⟩ := h.loose n o found
    exact ⟨conjunction, bound, handle, lends.mono (.refl _) (List.suffix_cons _ _), onward⟩
  · intro w i known
    rcases known with opened | begun
    · exact h.above w i (.inl opened)
    · rcases issued begun with equal | begun
      · exact above w i equal.symm
      · exact h.above w i (.inr begun)
  · exact fun q handle opened found => (h.asked q handle opened found).cons _
  · intro r begun
    rcases issued begun with equal | begun
    · subst equal
      exact root rfl
    · exact h.roots r begun
  · exact fun handle mem => (h.parked handle mem).mono (.refl _) (List.suffix_cons _ _)
  · intro q handle found
    rw [show (e.note _).journal = .invoked p rule scripted value params :: e.journal from rfl,
      judgement?_cons_of_untouched (untouched q)]
    exact h.settled q handle found
  · intro q answer result mem
    obtain ⟨begun, asked⟩ := h.judged q answer result (judged mem)
    exact ⟨begun.cons _, asked⟩
  · intro q progress held
    obtain ⟨o, opened, same⟩ := h.lists q progress held
    refine ⟨o, opened, ?_⟩
    rw [same, ← Opening.results_cons_of_untouched (untouched q)]
    rfl
  · intro call o found
    rw [show (e.note _).journal = .invoked p rule scripted value params :: e.journal from rfl,
      Opening.decision?_cons_of_untouched (untouched _)]
    exact (h.reported call o found).congr rfl rfl rfl

theorem Sound.openList (h : Sound layout e) {p : Place} {o : Opening}
    (found : layout.opening? p = some o) (inhabited : o.checks ≠ []) (closed : ¬ e.Opened p)
    (above : ∀ w i, p = w.member i → e.Opened w)
    (asked : ∀ h, layout.handle? p = some h → Issued p e.journal) :
    Sound layout (e.putList p (.start o.combinator o.checks.length)) := by
  have opened : ∀ q, (e.putList p (.start o.combinator o.checks.length)).Opened q ↔
      q = p ∨ e.Opened q := fun _ => Engine.opened_putList
  refine ⟨{ h.toPlaced with above := ?_, opened := ?_, asked := ?_ }, ?_, ?_⟩
  · intro w i known
    rw [opened]
    rcases known with here | begun
    · rcases (opened _).1 here with equal | here
      · exact .inr (above w i equal.symm)
      · exact .inr (h.above w i (.inl here))
    · exact .inr (h.above w i (.inr begun))
  · intro q here
    rcases (opened _).1 here with rfl | here
    · exact ⟨o, found⟩
    · exact h.opened q here
  · intro q handle here handed
    rcases (opened _).1 here with rfl | here
    · exact asked handle handed
    · exact h.asked q handle here handed
  · intro q progress held
    rw [Engine.get?_putList] at held
    split at held
    next here =>
      subst here
      refine ⟨o, found, ?_⟩
      have none_yet : o.results q e.journal = [] := Opening.results_eq_nil (h.untouched closed)
      show progress = o.combinator.progress o.checks.length o.value (o.results q e.journal)
      rw [none_yet, Combinator.progress_nil _ (by simpa using inhabited)]
      exact (Option.some.inj held).symm
    · exact h.lists q progress held
  · exact fun call own here => (h.reported call own here).congr rfl rfl rfl

theorem pass_sound (h : Sound layout e) {handle : Handle} (owns : layout.Owns e.journal handle)
    (result : Result) : Sound layout (Engine.deliver handle.route result e).2 := by
  cases handle with
  | detached p => exact deliver_sound (.detached p) ⟨h, owns⟩
  | asked p question onward => exact deliver_sound (.answer p question onward) ⟨h, owns⟩

/-- **Every step keeps engines sound.** -/
theorem EvalStep.sound (step : EvalStep layout active e e') (h : Sound layout e) :
    Sound layout e' := by
  cases step with
  | invoke rule scripted value params _ _ above root _ =>
    exact h.invoke rule scripted value params above root
  | openList found _ inhabited closed above asked =>
    exact h.openList found inhabited closed above asked
  | settle lends _ answer => exact settle_sound h lends.owns answer
  | pass rule value params _ _ above root _ _ _ owns =>
    exact pass_sound (h.invoke rule false value params above root) owns _
  | park lends _ => exact h.park lends
  | told rule report => exact h.note (.settledBy rule report) trivial

/-- Steps of evaluation that start nothing outside a region. -/
structure Runs (layout : Layout) (active : Option Root) (region : Place → Prop) (e e' : Engine) :
    Prop where
  steps : Relation.ReflTransGen (EvalStep layout active) e e'
  grows : Grows region e e'

namespace Runs

variable {region wider : Place → Prop} {e'' : Engine}

theorem refl (layout : Layout) (active : Option Root) (region : Place → Prop) (e : Engine) :
    Runs layout active region e e :=
  ⟨.refl, .refl _ e⟩

theorem trans (first : Runs layout active region e e') (second : Runs layout active region e' e'') :
    Runs layout active region e e'' :=
  ⟨first.steps.trans second.steps, first.grows.trans second.grows⟩

theorem mono (h : Runs layout active region e e') (sub : ∀ p, region p → wider p) :
    Runs layout active wider e e' :=
  ⟨h.steps, h.grows.mono sub⟩

theorem single (step : EvalStep layout active e e') (grows : Grows region e e') :
    Runs layout active region e e' :=
  ⟨.single step, grows⟩

theorem sound (h : Runs layout active region e e') (before : Sound layout e) : Sound layout e' := by
  obtain ⟨steps, -⟩ := h
  induction steps with
  | refl => exact before
  | tail _ step ih => exact step.sound ih

theorem lends (h : Runs layout active region e e') {handle : Handle}
    (lends : layout.Lends e.journal handle) : layout.Lends e'.journal handle :=
  lends.mono (.refl _) h.grows.journal.suffix

/-- Who can use a handle can still use it later. -/
theorem held (h : Runs layout active region e e') {handle : Handle} (held : e.Held active handle) :
    e'.Held active handle :=
  held.imp_left fun mem => h.grows.parked.subset mem

end Runs

end Criteria
