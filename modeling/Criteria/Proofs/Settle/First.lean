import Criteria.Proofs.Settle.InCall
import Criteria.Proofs.Settle.Sparing

/-!
# The first settlement wins

A handle is settled once and for good, and it is settled from the moment on at which its first settlement
begins. Settling it again tells nothing, runs no completion and leaves one event in the journal; and a run
without those settlements comes to the same in every other respect. All of this is so whatever completions
do with what they receive.
-/

namespace Criteria
set_option autoImplicit false

namespace Conduct

variable {react : Reaction} {depth : Nat}

/-- Whoever settles a handle while it is settled for the first time has no effect. -/
theorem settle_inside {e inside : Engine} {handle clone : Handle}
    (lasts : Lasts (e.markSettled handle.place) inside) (same : clone.place = handle.place)
    (given : Answer) : (reacting false react depth).settle clone given inside =
      (.ok (), inside.note (.repeated handle.place)) := by
  rw [← same] at lasts ⊢
  exact settle_again (c := reacting false react depth) (lasts _ (e.isSettled_markSettled _)) given

/-- A body that answers at once although its handle is settled: the answer is one more settlement. -/
theorem start_again {value : Json} {p : Place} {into : Route} {definition : Nat} {name : String}
    {body : Body} {negated : Bool} {params : List Json} {e : Engine} {holds : Bool}
    (replied : ((reacting false react depth).evaluate name value params p
      (.asked p ⟨definition, name, negated, params, value⟩ into) body e).1 = .now holds)
    (settled : ((reacting false react depth).evaluate name value params p
      (.asked p ⟨definition, name, negated, params, value⟩ into) body e).2.isSettled p = true) :
    (reacting false react depth).start value p into (.rule definition name body negated params) e =
      ((reacting false react depth).evaluate name value params p
        (.asked p ⟨definition, name, negated, params, value⟩ into) body e).2.note (.repeated p) := by
  rw [start]
  generalize (reacting false react depth).evaluate name value params p _ body e = evaluated
    at replied settled ⊢
  obtain ⟨reply, after⟩ := evaluated
  obtain rfl : reply = .now holds := replied
  exact congrArg Prod.snd (@settle_again _ (reacting false react depth) after
    (.asked p ⟨definition, name, negated, params, value⟩ into) settled (.ok holds))

end Conduct

/-- **The first settlement wins**, whatever moves completions make with what they receive. Whatever is
settled at some time of a run stays settled, through further moves as well as through single settlements,
actions of bodies and evaluations of bodies within a move; and what has been settled is settled. A handle
is settled already when what its first settlement sets off begins, so another settlement in there has no
effect, through whichever clone; completions that run in there find it settled, and what they would do
otherwise does not matter. Settling a settled handle tells nothing and leaves a single event, at any time,
whoever does it: the one who keeps it, a completion, a scripted body, which notes that it was told nothing,
a validator that serves as a rule, or a body that answers at once. The run with all such settlements left
out comes to the same state, with the same returns and completions; its journal tells the same in the same
order and has none of these events, so nothing else brings them about; all calls have the same outcome;
and whatever is done next, a further call returns the same, a body that is evaluated by itself replies the
same, and a settlement is told the same. Where completions make no moves, the run is the one of the
engine. -/
theorem first_settlement_wins (react : Reaction) (depth : Nat)
    (reacts : ∀ call result e event, .log event ∈ react call result e → event.Logged)
    {moves : List Move} (logged : ∀ event, .log event ∈ moves → event.Logged) :
    let c := Conduct.reacting false react depth
    let d := Conduct.reacting true react depth
    let e := c.run .empty moves
    let s := d.run .empty moves
    ((∀ more, Lasts e (c.run e more)) ∧
      ∀ during : Engine,
        (∀ handle answer, Lasts during (c.settle handle answer during).2 ∧
          (c.settle handle answer during).2.isSettled handle.place = true) ∧
        (∀ rule own action, Lasts during (c.perform rule own during action)) ∧
        ∀ rule value params p handle body,
          Lasts during (c.evaluate rule value params p handle body during).2) ∧
    (∀ (during : Engine) (handle : Handle), during.isSettled handle.place = false →
      (∀ act, c.once handle.place act during = act (during.markSettled handle.place)) ∧
      ∀ inside, Lasts (during.markSettled handle.place) inside →
        ∀ clone answer, clone.place = handle.place →
          c.settle clone answer inside = (.ok (), inside.note (.repeated handle.place))) ∧
    (∀ (during : Engine) (handle : Handle) (answer : Answer)
      (hears hears' : Nat → Result → Engine → Engine),
      (∀ call result inside, inside.isSettled handle.place = true →
        hears call result inside = hears' call result inside ∧
          (hears call result inside).isSettled handle.place = true) →
      (Conduct.acting false hears).settle handle answer during =
        (Conduct.acting false hears').settle handle answer during) ∧
    (∀ (during : Engine) (handle : Handle), during.isSettled handle.place = true →
      (∀ answer, c.settle handle answer during = (.ok (), during.note (.repeated handle.place))) ∧
      (∀ rule answer, c.perform rule handle during (.settle answer) =
        (during.note (.repeated handle.place)).note (.settledBy rule (.ok ()))) ∧
      ∀ source result, c.deliver handle.route source result during =
        (.ok (), during.note (.repeated handle.place))) ∧
    (∀ (during : Engine) (definition : Nat) (name : String) (body : Body) (negated : Bool)
      (params : List Json) (value : Json) (p : Place) (into : Route) (holds : Bool),
      let evaluated := c.evaluate name value params p
        (.asked p ⟨definition, name, negated, params, value⟩ into) body during
      evaluated.1 = .now holds → evaluated.2.isSettled p = true →
        c.start value p into (.rule definition name body negated params) during =
          evaluated.2.note (.repeated p)) ∧
    e.silenced = s.silenced ∧
    Omits e.journal s.journal ∧
    (∀ p, .repeated p ∉ s.journal) ∧
    e.journal.filterMap Event.essence? = s.journal.filterMap Event.essence? ∧
    (∀ call, e.outcome? call = s.outcome? call) ∧
    (∀ v value, (c.call v value e).1 = (d.call v value s).1) ∧
    (∀ definition value params handle,
      (c.evaluateLoose definition value params handle e).1 =
          (d.evaluateLoose definition value params handle s).1 ∧
        (c.evaluateLoose definition value params handle e).2.1 =
          (d.evaluateLoose definition value params handle s).2.1) ∧
    (∀ index answer, (e.parked? index).map (fun handle => (c.settle handle answer e).1) =
      (s.parked? index).map fun handle => (d.settle handle answer s).1) ∧
    ∀ (start : Engine) (more : List Move),
      (Conduct.reacting false (fun _ _ _ => []) depth).run start more = start.run more := by
  intro c d e s
  have related : Conduct.Related c d (Agrees Omits) := Conduct.related_omits reacts depth
  have agrees : Agrees Omits e s :=
    Conduct.run_omits reacts depth logged (e := .empty) (s := .empty) ⟨rfl, .nil⟩
  refine ⟨⟨Conduct.run_lasts react depth e, fun during => ⟨fun handle answer =>
      ⟨Conduct.settle_lasts react depth during handle answer,
        Conduct.settle_settles react depth during handle answer⟩,
      Conduct.perform_lasts react depth during, Conduct.evaluate_lasts react depth during⟩⟩,
    fun during handle unsettled => ⟨Conduct.once_first (c := c) unsettled,
      fun inside lasts clone answer same => Conduct.settle_inside lasts same answer⟩,
    fun during handle answer hears hears' same => Conduct.settle_congr during same answer,
    fun during handle settled => ⟨Conduct.settle_again (c := c) settled,
      Conduct.settleFor_again (c := c) settled, Conduct.deliver_again (c := c) settled⟩,
    fun during definition name body negated params value p into holds => Conduct.start_again,
    agrees.state, agrees.journal, agrees.journal.repeated_not_mem,
    agrees.journal.filterMap_eq _ (fun _ => rfl) fun _ => rfl, agrees.outcome?,
    fun v value => (related.call agrees v value).1,
    fun definition value params handle =>
      (related.evaluateLoose agrees definition value params handle).imp id And.left,
    fun index answer => ?_, fun start more => ?_⟩
  · rw [agrees.parked? index]
    exact Option.map_congr fun handle _ => (related.settle agrees handle answer).1
  · rw [Conduct.reacting_nothing, Conduct.run_plain]

/-- Three settlements of settled handles: a body answers although it has settled, the completion of the
call settles the handle whose settlement it runs in, before the settler is told, and that handle is settled
once more after that. -/
theorem first_settlement_wins_wavering :
    let react : Reaction := fun _ _ _ => [.settle 0 (.ok false)]
    let moves : List Move :=
      [.call (.either .wavering) .null, .settle 0 (.ok true), .settle 0 (.error "late")]
    let e := (Conduct.reacting false react 1).run .empty moves
    let s := (Conduct.reacting true react 1).run .empty moves
    let p : Place := ⟨.call 0, [1, 0]⟩
    (∀ call result e event, .log event ∈ react call result e → event.Logged) ∧
      (∀ event, .log event ∈ moves → event.Logged) ∧
      e.outcome? 0 = s.outcome? 0 ∧ Omits e.journal s.journal ∧
      e.journal.take 4 = [.repeated p, .told p (.ok ()), .repeated p, .completed 0 (.ok true)] ∧
      s.journal.take 2 = [.told p (.ok ()), .completed 0 (.ok true)] ∧
      e.journal.length = 12 ∧ s.journal.length = 9 := by
  intro react moves e s p
  have reacts : ∀ call result e event, .log event ∈ react call result e → event.Logged := by
    intro call result e event mem
    simp [react] at mem
  have logged : ∀ event, .log event ∈ moves → event.Logged := by
    intro event mem
    simp [moves] at mem
  obtain ⟨-, -, -, -, -, -, journal, -, -, outcomes, -⟩ := first_settlement_wins react 1 reacts logged
  exact ⟨reacts, logged, outcomes 0, journal, by rfl, by rfl, by decide +kernel, by decide +kernel⟩

end Criteria
