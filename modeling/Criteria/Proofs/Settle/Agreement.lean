import Criteria.Proofs.Run.Step

/-!
# Engines that differ in their journals

Nothing that an engine does depends on its journal, so two engines that agree in all but their journals
go on alike. `Agrees` says that they do and how their journals are related; any relation will do that
is kept when both note the same event. The lemmas here are for the parts of the engine that are the
same in both; how handles are settled may differ, so what settling needs is left to those who use them.
-/

namespace Criteria
set_option autoImplicit false

/-- The engine without its journal. -/
def Engine.silenced (e : Engine) : Engine := { e with journal := [] }

/-- Two engines agree in all but their journals, which stand in the given relation. -/
structure Agrees (related : Journal → Journal → Prop) (e s : Engine) : Prop where
  state : e.silenced = s.silenced
  journal : related e.journal s.journal

/-- Whether a relation of journals is kept when both note the same event, unless it is that a settled
handle was settled again. -/
def Recording (related : Journal → Journal → Prop) : Prop :=
  ∀ ⦃event : Event⦄ ⦃journal journal' : Journal⦄, (∀ p, event ≠ .repeated p) → related journal journal' →
    related (event :: journal) (event :: journal')

/-- The same answer, and engines that agree. -/
def Alike {α : Type} (related : Journal → Journal → Prop) (a b : α × Engine) : Prop :=
  a.1 = b.1 ∧ Agrees related a.2 b.2

namespace Agrees

variable {related : Journal → Journal → Prop} {e s : Engine}

/-! ## What is read off agreeing engines is the same -/

/-- Whatever does not look at the journal reads the same off both engines. -/
theorem read {α : Type} (h : Agrees related e s) (look : Engine → α)
    (blind : ∀ e : Engine, look e.silenced = look e) : look e = look s := by
  rw [← blind e, ← blind s, h.state]

theorem isSettled (h : Agrees related e s) (p : Place) : e.isSettled p = s.isSettled p :=
  h.read (·.isSettled p) fun _ => rfl

theorem isRejected (h : Agrees related e s) (p : Place) : e.isRejected p = s.isRejected p :=
  h.read (·.isRejected p) fun _ => rfl

theorem passed (h : Agrees related e s) (p : Place) : e.passed p = s.passed p :=
  h.read (·.passed p) fun _ => rfl

theorem list (h : Agrees related e s) (p : Place) : e.lists.get? p = s.lists.get? p :=
  h.read (·.lists.get? p) fun _ => rfl

theorem calls (h : Agrees related e s) : e.calls = s.calls := h.read (·.calls) fun _ => rfl

theorem parked? (h : Agrees related e s) (index : Nat) : e.parked? index = s.parked? index :=
  h.read (·.parked? index) fun _ => rfl

theorem loosePlace (h : Agrees related e s) : e.loosePlace = s.loosePlace :=
  h.read (·.loosePlace) fun _ => rfl

theorem templatesOf (h : Agrees related e s) (definition : Nat) :
    e.templatesOf definition = s.templatesOf definition :=
  h.read (·.templatesOf definition) fun _ => rfl

theorem leadsTo_silenced (e : Engine) (call : Nat) :
    ∀ route : Route, e.silenced.leadsTo call route = e.leadsTo call route
  | .call _ => rfl
  | .detached _ => rfl
  | .list p combinator value onward => by
    rw [Engine.leadsTo, Engine.leadsTo, leadsTo_silenced e call onward]
    rfl
  | .answer p question onward => by
    rw [Engine.leadsTo, Engine.leadsTo, leadsTo_silenced e call onward]
    rfl

theorem canComplete (h : Agrees related e s) (call : Nat) :
    e.canComplete call = s.canComplete call :=
  h.read (·.canComplete call) fun e => by
    simp only [Engine.canComplete, leadsTo_silenced]
    rfl

/-- The outcomes of calls are the same. -/
theorem outcome? (h : Agrees related e s) (call : Nat) : e.outcome? call = s.outcome? call := by
  simp only [Engine.outcome?, h.calls, h.canComplete]

/-! ## Changes that leave the journal alone -/

/-- The same change, which neither looks at the journal nor adds to it, leaves the engines in
agreement. -/
theorem change (h : Agrees related e s) (act : Engine → Engine)
    (blind : ∀ e : Engine, (act e).silenced = act e.silenced)
    (silent : ∀ e : Engine, (act e).journal = e.journal) : Agrees related (act e) (act s) where
  state := by rw [blind e, blind s, h.state]
  journal := by
    rw [silent e, silent s]
    exact h.journal

theorem markSettled (h : Agrees related e s) (p : Place) :
    Agrees related (e.markSettled p) (s.markSettled p) :=
  h.change (·.markSettled p) (fun _ => rfl) fun _ => rfl

theorem putList (h : Agrees related e s) (p : Place) (progress : Progress) :
    Agrees related (e.putList p progress) (s.putList p progress) :=
  h.change (·.putList p progress) (fun _ => rfl) fun _ => rfl

theorem updateCall (h : Agrees related e s) (call : Nat) (change : Call → Call) :
    Agrees related (e.updateCall call change) (s.updateCall call change) :=
  h.change (·.updateCall call change) (fun _ => rfl) fun _ => rfl

theorem enter (h : Agrees related e s) (value : Json) :
    Agrees related (e.enter value) (s.enter value) :=
  h.change (·.enter value) (fun _ => rfl) fun _ => rfl

theorem park (h : Agrees related e s) (handle : Handle) :
    Agrees related (e.park handle) (s.park handle) :=
  h.change (·.park handle) (fun _ => rfl) fun _ => rfl

theorem dropParked (h : Agrees related e s) (index : Nat) :
    Agrees related (e.dropParked index) (s.dropParked index) :=
  h.change (·.dropParked index) (fun _ => rfl) fun _ => rfl

theorem takeLoose (h : Agrees related e s) : Agrees related e.takeLoose s.takeLoose :=
  h.change (·.takeLoose) (fun _ => rfl) fun _ => rfl

theorem parkDetached (h : Agrees related e s) : Agrees related e.parkDetached s.parkDetached :=
  h.change (·.parkDetached) (fun _ => rfl) fun _ => rfl

theorem define (h : Agrees related e s) (templates : Templates) :
    Agrees related (e.define templates) (s.define templates) :=
  h.change (·.define templates) (fun _ => rfl) fun _ => rfl

theorem setTemplate (h : Agrees related e s) (definition : Nat) (negated : Bool)
    (template : Option String) :
    Agrees related (e.setTemplate definition negated template)
      (s.setTemplate definition negated template) :=
  h.change (·.setTemplate definition negated template) (fun _ => rfl) fun _ => rfl

/-! ## Events -/

/-- Noting related stretches of events. -/
theorem note (h : Agrees related e s) (event event' : Event)
    (kept : related e.journal s.journal →
      related (event :: e.journal) (event' :: s.journal)) :
    Agrees related (e.note event) (s.note event') :=
  ⟨h.state, kept h.journal⟩

/-- Noting the same event. -/
theorem noteBoth (recording : Recording related) (h : Agrees related e s) {event : Event}
    (other : ∀ p, event ≠ .repeated p) : Agrees related (e.note event) (s.note event) :=
  h.note event event (recording other)

/-! ## Results on their way -/

/-- Calls hear the same. -/
theorem complete (recording : Recording related) (h : Agrees related e s) (call : Nat)
    (result : Result) : Alike related (e.complete call result) (s.complete call result) := by
  unfold Engine.complete
  rw [h.calls]
  split
  · exact ⟨rfl, h⟩
  · exact ⟨rfl, h.updateCall call _⟩
  · exact ⟨rfl, (h.updateCall call _).noteBoth recording nofun⟩

/-- Lists take in the same result; what they come to goes on alike. -/
theorem takeIn (h : Agrees related e s) (p : Place) (combinator : Combinator) (value : Json)
    (result : Result) {next next' : Result → Engine → Report × Engine}
    (further : ∀ (decision : Result) ⦃e s : Engine⦄, Agrees related e s →
      Alike related (next decision e) (next' decision s)) :
    Alike related (e.takeIn p combinator value result next)
      (s.takeIn p combinator value result next') := by
  unfold Engine.takeIn
  rw [h.list p]
  cases s.lists.get? p with
  | none => exact ⟨rfl, h⟩
  | some progress =>
    dsimp only
    generalize progress.take combinator value result = intake
    cases intake.decision with
    | none => exact ⟨rfl, h.putList p _⟩
    | some decision =>
      dsimp only
      split
      · obtain ⟨told, after⟩ := further decision
          (h.putList p { intake.progress with awaited := false })
        exact ⟨congrArg (combinator.tell intake.report) told, after⟩
      · exact ⟨rfl, h.putList p _⟩

/-- Calls end alike. -/
theorem conclude (recording : Recording related) {a b : Bool × Engine} (h : Alike related a b)
    (call : Nat) : Alike related (Engine.conclude call a) (Engine.conclude call b) := by
  obtain ⟨passed, e⟩ := a
  obtain ⟨passed', s⟩ := b
  obtain ⟨same, agrees⟩ := h
  obtain rfl : passed = passed' := same
  have agrees : Agrees related e s := agrees
  have left : ∀ result, Agrees related (e.leave call result) (s.leave call result) :=
    fun result => (agrees.updateCall call _).noteBoth recording nofun
  simp only [Engine.conclude, agrees.calls]
  exact ⟨rfl, left _⟩

end Agrees
end Criteria
