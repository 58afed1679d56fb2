import Criteria.Proofs.Polarity.Counterpart

/-!
# Results on their way in dual engines

A result and its counterpart take the same way in dual engines, and those who settled are told
counterparts (`deliver_dual`). The polarity of a clause acts in one step only, when its question is judged;
this step is the same in both engines because question and answer are turned together (`answer_dual`).
-/

namespace Criteria
set_option autoImplicit false

variable {t : Turning} {e s : Engine}

/-- The engines are dual if what they have come to is foretold. -/
def InStep (t : Turning) (e s : Engine) : Prop := Foretold t e s → Dual t e s

/-- What two engines give is related, and they are dual, if what they have come to is foretold. -/
def Concurs (t : Turning) {α : Type} (related : α → α → Prop) (x y : α × Engine) : Prop :=
  Foretold t x.2 y.2 → related x.1 y.1 ∧ Dual t x.2 y.2

theorem Concurs.inStep {α : Type} {related : α → α → Prop} {x y : α × Engine}
    (h : Concurs t related x y) : InStep t x.2 y.2 :=
  fun foretold => (h foretold).2

variable {result result' : Result}

theorem complete_dual (h : Dual t e s) (call : Nat) (paired : t.pairing.Results result result') :
    Concurs t t.pairing.Results (e.complete call result) (s.complete call result') := by
  apply Pairing.complete paired (h.calls call)
  · exact fun _ => ⟨.ok (), h⟩
  · intro f f' paired _
    exact ⟨.error paired, h.updateCall call fun before => { before with failure := .some paired }⟩
  · intro _
    have updated : Dual t
        (e.updateCall call fun c => { c with completed := some result })
        (s.updateCall call fun c => { c with completed := some result' }) :=
      h.updateCall call fun before => { before with completed := .some paired }
    exact ⟨paired.raise, updated.note (.completed call paired)⟩

theorem takeIn_dual (h : Dual t e s) (p : Place) (combinator : Combinator) (value : Json)
    (paired : t.pairing.Results result result') {next next' : Result → Engine → Report × Engine}
    (further : ∀ {decision decision' : Result} {e s : Engine},
      t.pairing.Results decision decision' → Dual t e s →
        Concurs t t.pairing.Results (next decision e) (next' decision' s)) :
    Concurs t t.pairing.Results (e.takeIn p combinator value result next)
      (s.takeIn p combinator value result' next') := by
  apply Pairing.takeIn paired (h.lists p)
  · exact fun _ => ⟨.ok (), h⟩
  · exact fun took told _ => ⟨told, h.putList p took⟩
  · intro _ _ _ _ _ _ decided took told foretold
    obtain ⟨raised, after⟩ := further decided (h.putList p took) foretold
    exact ⟨told.tell raised combinator, after⟩

/-- A handle that nobody asks for answers nothing. -/
theorem detached_dual (h : Dual t e s) (p : Place) :
    Concurs t t.pairing.Results (e.once p fun e => (.ok (), e)) (s.once p fun e => (.ok (), e)) := by
  intro _
  unfold Engine.once
  rw [h.isSettled p]
  split
  · exact ⟨.ok (), h.note (.repeated _)⟩
  · exact ⟨.ok (), h.markSettled p⟩

/-- The first answer to a question is judged, and the judgement goes on. -/
theorem Engine.answer_first {e : Engine} {p : Place} (unsettled : ¬ e.isSettled p = true)
    (question : Question) (answer : Answer) (next : Result → Engine → Report × Engine) :
    e.answer p question answer next =
      let result := question.judge (e.templatesOf question.definition) answer
      let further := next result ((e.markSettled p).note (.judged p answer result))
      (further.1, further.2.note (.told p further.1)) :=
  if_neg unsettled

/-- **Question and answer are turned together**: the judgements correspond, and so does what follows. -/
theorem answer_dual (h : Dual t e s) (p : Place) (question : Question) (answer : Answer)
    {next next' : Result → Engine → Report × Engine}
    (later : ∀ result e, Onward e (next result e).2) (later' : ∀ result s, Onward s (next' result s).2)
    (further : ∀ {result result' : Result} {e s : Engine},
      t.pairing.Results result result' → Dual t e s →
        Concurs t t.pairing.Results (next result e) (next' result' s)) :
    Concurs t t.pairing.Results (e.answer p question answer next)
      (s.answer p (question.turn (t.chosen p)) (answer.turn (t.chosen p)) next') := by
  have same := h.isSettled p
  by_cases settled : e.isSettled p = true
  · rw [Engine.answer, Engine.answer, Engine.once, Engine.once, if_pos settled,
      if_pos (same ▸ settled)]
    exact fun _ => ⟨.ok (), h.note (.repeated _)⟩
  · rw [Engine.answer_first settled, Engine.answer_first (same ▸ settled)]
    intro foretold
    have foretold := foretold.before (Onward.advances.note _ _) (Onward.advances.note _ _)
    have before := foretold.before (later _ _) (later' _ _)
    have judged := before.plain _ List.mem_cons_self
    have judged' := before.turned _ List.mem_cons_self
    have templates : s.templatesOf (question.turn (t.chosen p)).definition =
        e.templatesOf question.definition := (h.templatesOf question.definition).symm
    rw [templates] at judged'
    rw [templates]
    have paired := question.judge_paired (e.templatesOf question.definition) judged judged'
    obtain ⟨told, after⟩ := further paired
      ((h.markSettled p).note (.judged p question _ answer)) (templates ▸ foretold)
    exact ⟨told, after.note (.told p told)⟩

/-- **Counterparts take the same way**, by induction on the route. A route passes through no answer to a
chosen clause: only a validator that serves as a rule answers there. -/
theorem deliver_dual (route : Route) : route.Free t.chosen → ∀ {result result' : Result} {e s : Engine},
    t.pairing.Results result result' → Dual t e s →
      Concurs t t.pairing.Results (Engine.deliver route result e)
        (Engine.deliver route result' s) := by
  induction route with
  | call call => exact fun _ _ _ _ _ paired h => complete_dual h call paired
  | list p combinator value onward ih =>
    exact fun free _ _ _ _ paired h => takeIn_dual h p combinator value paired (ih free)
  | detached p => exact fun _ _ _ _ _ _ h => detached_dual h p
  | answer p question onward ih =>
    rintro ⟨other, free⟩ result result' e s paired h
    have answered := answer_dual h p question (.ok result'.holds)
      (Onward.advances.deliver onward) (Onward.advances.deliver onward) (ih free)
    rw [other, Question.turn_false, Answer.turn_false] at answered
    rw [Engine.deliver, Engine.deliver, paired.holds]
    exact answered

/-- Settling a handle and the handle of the turned clause. -/
theorem settle_dual (h : Dual t e s) {handle : Handle} (free : handle.Free t.chosen)
    (answer : Answer) :
    Concurs t t.pairing.Results (Engine.settle handle answer e)
      (Engine.settle (handle.turn t.chosen) (answer.turn (handle.isChosen t.chosen)) s) := by
  cases handle with
  | detached p => exact detached_dual h p
  | asked p question onward =>
    exact answer_dual h p question answer (Onward.advances.deliver onward)
      (Onward.advances.deliver onward) (deliver_dual onward free)

end Criteria
