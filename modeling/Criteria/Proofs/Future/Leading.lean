import Criteria.Proofs.Run.Reach

/-!
# What a kept handle leads to

A result that enters a route reaches a call as long as every list on the way awaits its decision and
no handle on the way is settled. Lists stay decided and handles stay settled, so a route that was begun
leads to a call only if it has led there all the time (`Sound.leadsTo_earlier`), and delivery along a
route that does not lead to a call leaves the call alone (`deliver_calls`).
-/

namespace Criteria
set_option autoImplicit false

variable {layout later : Layout} {e e' : Engine} {call : Nat}

/-! ## Routes that were begun -/

/-- Whether a route starts at a list that was opened or at a handle that was handed out. -/
def Layout.Begun (layout : Layout) (e : Engine) : Route → Prop
  | .call _ => True
  | .list p combinator value onward =>
    layout.Carries (.list p combinator value onward) ∧ e.Opened p
  | .detached p => p.path = []
  | .answer p question onward => layout.Owns e.journal (.asked p question onward)

theorem Layout.Owns.begun {handle : Handle} (owns : layout.Owns e.journal handle) :
    layout.Begun e handle.route := by
  cases handle with
  | detached p => exact owns
  | asked p question onward => exact owns

/-- The list at a root passes its decision on along a route that was begun. -/
theorem Placed.begun_root (h : Placed layout e) {root : Root} {o : Opening}
    (found : layout root = some o) : layout.Begun e o.onward := by
  cases root with
  | call call =>
    obtain ⟨-, onward, -⟩ := h.calls call o found
    rw [onward]
    trivial
  | loose n =>
    obtain ⟨-, -, handle, lends, onward⟩ := h.loose n o found
    rw [onward]
    exact lends.owns.begun

/-- An open list passes its decision on along a route that was begun. -/
theorem Placed.begun_onward (h : Placed layout e) {p : Place} {o : Opening}
    (found : layout.opening? p = some o) (opened : e.Opened p) : layout.Begun e o.onward := by
  obtain root | ⟨w, k, rfl⟩ := p.root_or_member
  · rw [root] at found
    exact h.begun_root found
  · obtain ⟨outer, above, member⟩ := Layout.opening?_member_eq_some found
    have open_above := h.above w k (.inl opened)
    obtain ⟨members, -, rfl⟩ | ⟨_, _, _, _, _, _, -, handed, rfl⟩ := Opening.member?_eq_some member
    · exact ⟨⟨outer, above, rfl⟩, open_above⟩
    · have owned := Layout.handle?_of_opening? above handed
      exact ⟨owned, h.asked _ _ opened owned⟩

/-- A handle that was handed out sends its judgement on along a route that was begun. -/
theorem Placed.begun_judgement (h : Placed layout e) {p : Place} {question : Question}
    {onward : Route} (owns : layout.Owns e.journal (.asked p question onward)) :
    layout.Begun e onward := by
  obtain ⟨w, i, o, rfl, found, handed⟩ := Layout.handle?_eq_some owns.1
  obtain ⟨_, _, _, _, _, -, equal⟩ := Opening.handle?_eq_some handed
  obtain ⟨-, rfl⟩ : _ ∧ onward = o.route w := by simpa using equal
  exact ⟨⟨o, found, rfl⟩, h.above w i (.inr owns.2)⟩

/-! ## Decisions and judgements last -/

/-- An open list awaits its decision as long as it has come to none. -/
theorem Sound.isAwaited_eq (h : Sound layout e) {p : Place} {o : Opening}
    (found : layout.opening? p = some o) (opened : e.Opened p) :
    e.isAwaited p = (o.decision? p e.journal).isNone := by
  rw [Engine.isAwaited, h.progress_at found opened, Option.map_some, Option.getD_some,
    Combinator.progress_awaited]
  rfl

/-- A handle that was handed out is settled just if its question was judged. -/
theorem Sound.isSettled_eq (h : Sound layout e) {p : Place} {handle : Handle}
    (handed : layout.handle? p = some handle) :
    e.isSettled p = (judgement? p e.journal).isSome := by
  rw [Bool.eq_iff_iff, ← h.settled p handle handed, Engine.isSettled, List.contains_iff_mem]

/-- **A route that was begun never comes to lead to a call** if it did not before. -/
theorem Sound.leadsTo_earlier (h : Sound layout e) (h' : Sound later e')
    (ext : layout.Extends later) (grows : e.journal <:+ e'.journal)
    (opens : ∀ p, e.Opened p → e'.Opened p) : (route : Route) → layout.Begun e route →
      e'.leadsTo call route = true → e.leadsTo call route = true
  | .call _, _ => id
  | .detached _, _ => id
  | .list p combinator value onward, ⟨⟨o, found, same⟩, opened⟩ => by
    obtain ⟨-, -, rfl⟩ : o.combinator = combinator ∧ o.value = value ∧ o.onward = onward := by
      simpa [Opening.route] using same
    have further := Sound.leadsTo_earlier h h' ext grows opens o.onward
      (h.toPlaced.begun_onward found opened)
    simp only [Engine.leadsTo, Bool.and_eq_true]
    refine And.imp (fun awaited => ?_) further
    rw [h'.isAwaited_eq (ext.opening? found) (opens p opened), Option.isNone_iff_eq_none] at awaited
    rw [h.isAwaited_eq found opened, Option.isNone_iff_eq_none, Option.eq_none_iff_forall_ne_some]
    intro decision decided
    rw [(h.wellFormed.opening found).decision?_mono grows decided] at awaited
    cases awaited
  | .answer p question onward, owns => by
    have further := Sound.leadsTo_earlier h h' ext grows opens onward
      (h.toPlaced.begun_judgement owns)
    simp only [Engine.leadsTo, Bool.and_eq_true, Bool.not_eq_true']
    refine And.imp (fun unsettled => ?_) further
    rw [h'.isSettled_eq (ext.handle? owns.1), Option.isSome_eq_false_iff,
      Option.isNone_iff_eq_none] at unsettled
    rw [h.isSettled_eq owns.1, Option.isSome_eq_false_iff, Option.isNone_iff_eq_none,
      Option.eq_none_iff_forall_ne_some]
    intro result judged
    rw [(lasting_judgement p).mono grows judged] at unsettled
    cases unsettled

/-! ## Up to the root -/

/-- Where a list leads, the list above all of them leads too. -/
theorem Layout.leadsTo_root {first : Opening} : ∀ {path : List Nat} {root : Root} {o : Opening},
    layout root = some first → layout.opening? ⟨root, path⟩ = some o →
      e.leadsTo call o.onward = true → e.leadsTo call first.onward = true
  | [], root, o, here, found, leads => by
    obtain rfl := Option.some.inj (here.symm.trans found)
    exact leads
  | k :: path, root, o, here, found, leads => by
    obtain ⟨outer, above, member⟩ := Option.bind_eq_some_iff.1 found
    have above : layout.opening? ⟨root, path⟩ = some outer := above
    have further : e.leadsTo call outer.onward = true → e.leadsTo call first.onward = true :=
      leadsTo_root here above
    obtain ⟨members, -, rfl⟩ | ⟨_, _, _, _, _, _, -, -, rfl⟩ := Opening.member?_eq_some member
    · simp only [Opening.route, Engine.leadsTo, Bool.and_eq_true] at leads
      exact further leads.2
    · simp only [Opening.route, Engine.leadsTo, Bool.and_eq_true] at leads
      exact further leads.2.2

/-- Where a handle leads, the list above it leads too. -/
theorem Layout.leadsTo_root_of_handle? {first : Opening} {p : Place} {handle : Handle}
    (here : layout p.root = some first) (handed : layout.handle? p = some handle)
    (leads : e.leadsTo call handle.route = true) : e.leadsTo call first.onward = true := by
  obtain ⟨w, i, o, rfl, found, member⟩ := Layout.handle?_eq_some handed
  obtain ⟨_, _, _, _, _, -, rfl⟩ := Opening.handle?_eq_some member
  simp only [Handle.route, Opening.route, Engine.leadsTo, Bool.and_eq_true] at leads
  exact leadsTo_root here found leads.2.2

/-! ## Deliveries that do not reach a call -/

/-- Where fewer lists await their decision and more handles are settled, fewer routes lead to a call. -/
theorem Engine.leadsTo_of_fewer (awaited : ∀ p, e'.isAwaited p = true → e.isAwaited p = true)
    (settled : ∀ p, e.isSettled p = true → e'.isSettled p = true) (route : Route)
    (leads : e'.leadsTo call route = true) : e.leadsTo call route = true := by
  induction route with
  | call id => exact leads
  | detached p => exact leads
  | list p combinator value onward ih =>
    simp only [leadsTo, Bool.and_eq_true] at leads ⊢
    exact ⟨awaited p leads.1, ih leads.2⟩
  | answer p question onward ih =>
    simp only [leadsTo, Bool.and_eq_true, Bool.not_eq_true'] at leads ⊢
    refine ⟨Bool.eq_false_iff.2 fun was => ?_, ih leads.2⟩
    rw [settled p was] at leads
    cases leads.1

/-- Where a route leads follows from the lists and the settled handles. -/
theorem Engine.leadsTo_congr (lists : e'.lists = e.lists) (settled : e'.settled = e.settled)
    (route : Route) : e'.leadsTo call route = e.leadsTo call route := by
  rw [Bool.eq_iff_iff]
  constructor
  · exact leadsTo_of_fewer (by simp [isAwaited, lists]) (by simp [isSettled, settled]) route
  · exact leadsTo_of_fewer (by simp [isAwaited, lists]) (by simp [isSettled, settled]) route

theorem complete_calls {id : Nat} (other : id ≠ call) (result : Result) :
    (e.complete id result).2.calls.get? call = e.calls.get? call := by
  have update : ∀ change, (e.updateCall id change).calls.get? call = e.calls.get? call := by
    intro change
    rw [Engine.updateCall, Store.get?_update, if_neg other]
  unfold Engine.complete
  split
  · rfl
  · exact update _
  · exact update _

/-- Answering a question whose judgement does not lead to a call leaves the call alone. -/
theorem answer_calls {p : Place} {question : Question} {onward : Route} (given : Answer)
    (away : e.leadsTo call (.answer p question onward) = false)
    (further : ∀ {e : Engine} {result : Result}, e.leadsTo call onward = false →
      (Engine.deliver onward result e).2.calls.get? call = e.calls.get? call) :
    (e.answer p question given (Engine.deliver onward)).2.calls.get? call = e.calls.get? call := by
  rw [Engine.answer, Engine.once]
  split
  · rfl
  next unsettled =>
    rw [Engine.leadsTo, Bool.eq_false_iff.2 unsettled, Bool.not_false, Bool.true_and] at away
    have fewer : ∀ judgement, (((e.markSettled p).note (.judged p given judgement)).leadsTo call
        onward) = false := by
      intro judgement
      refine Bool.eq_false_iff.2 fun leads => ?_
      refine Bool.eq_false_iff.1 away (Engine.leadsTo_of_fewer ?_ ?_ onward leads)
      · exact fun _ => id
      · intro q settled
        have mem : q ∈ e.settled := by simpa [Engine.isSettled] using settled
        simp [Engine.isSettled, Engine.note, Engine.markSettled, mem]
    exact further (fewer _)

theorem once_calls (p : Place) :
    (e.once p fun e => (.ok (), e)).2.calls.get? call = e.calls.get? call := by
  rw [Engine.once]
  split <;> rfl

/-- **Delivery along a route that does not lead to a call leaves the call alone.** -/
theorem deliver_calls (route : Route) : ∀ {e : Engine} {result : Result},
    e.leadsTo call route = false →
      (Engine.deliver route result e).2.calls.get? call = e.calls.get? call := by
  induction route with
  | call id =>
    exact fun {e} {result} away => complete_calls (by simpa [Engine.leadsTo] using away) result
  | detached p => exact fun _ => once_calls p
  | list p combinator value onward ih =>
    intro e result away
    rw [Engine.deliver, Engine.takeIn]
    split
    · rfl
    next progress held =>
      dsimp only
      split
      · split
        next awaited =>
          have here : e.isAwaited p = true := by rw [Engine.isAwaited, held]; exact awaited
          rw [Engine.leadsTo, here, Bool.true_and] at away
          have fewer : ∀ decided : Progress, decided.awaited = false →
              (e.putList p decided).leadsTo call onward = false := by
            intro decided unawaited
            refine Bool.eq_false_iff.2 fun leads => ?_
            refine Bool.eq_false_iff.1 away (Engine.leadsTo_of_fewer ?_ ?_ onward leads)
            · intro q awaits
              rw [Engine.isAwaited, Engine.get?_putList] at awaits
              split at awaits
              · rw [Option.map_some, Option.getD_some, unawaited] at awaits
                cases awaits
              · exact awaits
            · exact fun _ => id
          exact ih (fewer _ rfl)
        · rfl
      · rfl
  | answer p question onward ih => exact fun away => answer_calls _ away ih

/-- Settling a handle that does not lead to a call leaves the call alone. -/
theorem settle_calls {handle : Handle} (answer : Answer)
    (away : e.leadsTo call handle.route = false) :
    (Engine.settle handle answer e).2.calls.get? call = e.calls.get? call := by
  cases handle with
  | detached p => exact once_calls p
  | asked p question onward => exact answer_calls answer away (deliver_calls onward)

end Criteria
