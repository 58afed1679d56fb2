import Criteria.Proofs.Run.Reach

/-!
# Validators that answer for rules

When a rule is itself a validator, its list stands at the place of the rule clause and passes its
decision on as the answer to the clause. `Relayed` says of a journal that this is all that ever
answers such a clause: it is judged once, right after the event that decided the list, by what the
list decided; it is judged as soon as the list is decided; and it is never settled again. A result
travels up through any number of such lists, so between a decision and its judgement one list has no
judgement yet; `Relaying` describes these moments, along the route that lies ahead.
-/

namespace Criteria
set_option autoImplicit false

variable {layout later : Layout} {active : Option Root} {e e' : Engine}

/-- Whether the list that stands at a place answers a rule clause. -/
def Layout.Relays (layout : Layout) (p : Place) (o : Opening) : Prop :=
  layout.opening? p = some o ∧ ∃ handle, layout.handle? p = some handle

namespace Layout.Relays

variable {p : Place} {o : Opening}

/-- A list that answers a rule clause is a member of another, with the answer as its way on. -/
theorem member (h : layout.Relays p o) : ∃ w k outer question, p = w.member k ∧
    layout.opening? w = some outer ∧ o.combinator = .all ∧
    (∃ definition name age negated params,
      outer.checks[k]? = some (.rule definition name (.validator age o.checks) negated params) ∧
      question = ⟨definition, name, negated, params, outer.value⟩) ∧ o.value = outer.value ∧
    layout.handle? p = some (.asked p question (outer.route w)) ∧
    o.onward = .answer p question (outer.route w) := by
  obtain ⟨found, handle, handed⟩ := h
  obtain ⟨w, k, outer, rfl, above, asks⟩ := Layout.handle?_eq_some handed
  rw [Layout.opening?_member, above, Option.bind_some] at found
  obtain ⟨members, group, -⟩ | ⟨definition, name, age, checks, negated, params, rule, asked, rfl⟩ :=
    Opening.member?_eq_some found
  · rw [Opening.handle?, group] at asks
    cases asks
  · exact ⟨w, k, outer, _, rfl, above, rfl, ⟨_, _, _, _, _, rule, rfl⟩, rfl,
      Layout.handle?_of_opening? above asked, rfl⟩

theorem path_ne_nil (h : layout.Relays p o) : p.path ≠ [] := by
  intro top
  obtain ⟨w, k, -, -, rfl, -⟩ := h.member
  cases top

/-- A group answers no rule clause. -/
theorem not_group {w : Place} {k : Nat} {outer : Opening} {members : List Check}
    (above : layout.opening? w = some outer) (group : outer.checks[k]? = some (.group members)) :
    ¬ layout.Relays (w.member k) o := by
  rintro ⟨-, handle, handed⟩
  rw [Layout.handle?_member, above, Option.bind_some, Opening.handle?, group] at handed
  cases handed

end Layout.Relays

/-- Whether each rule clause is judged at most once, and each that a validator answers for is judged
by what its list has come to, with the event before being the one that decided the list. Only handles
that were lent are settled again. -/
structure Answers (layout : Layout) (journal : Journal) : Prop where
  once : ∀ p answer result before, .judged p answer result :: before <:+ journal →
    judgement? p before = none
  relayed : ∀ p o answer result before, layout.Relays p o →
    .judged p answer result :: before <:+ journal → ∃ decision,
      o.decision? p before = some decision ∧ answer = .ok decision.holds ∧
      (o.checks ≠ [] → ∃ event earlier, before = event :: earlier ∧ o.decision? p earlier = none)
  repeated : ∀ p, .repeated p ∈ journal → ∃ handle, handle.place = p ∧ layout.Lends journal handle

/-- A clause that a validator answers for is never settled again: its handle was lent to nobody. -/
theorem Answers.unrepeated {journal : Journal} (h : Answers layout journal) {p : Place} {o : Opening}
    (relays : layout.Relays p o) : .repeated p ∉ journal := by
  intro mem
  obtain ⟨handle, rfl, owns, free⟩ := h.repeated p mem
  cases handle with
  | detached q => exact relays.path_ne_nil owns
  | asked q question onward => cases (show layout.opening? q = none from free).symm.trans relays.1

/-- Whether each rule clause that a validator answers for is judged if the list of the validator is
decided as of the journal in its view. -/
def Settles (layout : Layout) (view : Place → Journal) (journal : Journal) : Prop :=
  ∀ p o, layout.Relays p o → o.checks ≠ [] → (o.decision? p (view p)).isSome = true →
    (judgement? p journal).isSome = true

/-- Whether validators have answered for rules just as their lists were decided. -/
structure Relayed (layout : Layout) (journal : Journal) : Prop extends Answers layout journal where
  settles : Settles layout (fun _ => journal) journal

/-- Whether validators have answered for rules but for what the result on its way will bring. -/
def Relaying (layout : Layout) (e : Engine) : Route → Result → Prop
  | .call _, _ => Relayed layout e.journal
  | .detached _, _ => Relayed layout e.journal
  | .list p _ _ _, _ => Answers layout e.journal ∧
      Settles layout (fun x => if x.Encloses p then e.journal.tail else e.journal) e.journal
  | .answer p _ _, result => Answers layout e.journal ∧
      (∀ x o, layout.Relays x o → x ≠ p → o.checks ≠ [] →
        (o.decision? x e.journal).isSome = true → (judgement? x e.journal).isSome = true) ∧
      ∀ o, layout.Relays p o → judgement? p e.journal = none ∧
        o.decision? p e.journal = some result ∧
        (o.checks ≠ [] → ∃ event earlier, e.journal = event :: earlier ∧
          o.decision? p earlier = none)

/-! ## Events that judge nothing -/

theorem Answers.cons {journal : Journal} (h : Answers layout journal) {event : Event}
    (untouched : ∀ p, ¬ event.Touches p)
    (again : ∀ p, event = .repeated p → ∃ handle, handle.place = p ∧ layout.Lends journal handle) :
    Answers layout (event :: journal) := by
  have behind : ∀ {p : Place} {answer : Answer} {result : Result} {before : Journal},
      .judged p answer result :: before <:+ event :: journal →
        .judged p answer result :: before <:+ journal := by
    intro p answer result before suffix
    rcases List.suffix_cons_iff.1 suffix with equal | inside
    · obtain ⟨rfl, -⟩ := List.cons.inj equal
      exact absurd (Place.Encloses.refl p) (untouched p)
    · exact inside
  refine ⟨fun p answer result before suffix => h.once p answer result before (behind suffix),
    fun p o answer result before relays suffix =>
      h.relayed p o answer result before relays (behind suffix), fun p mem => ?_⟩
  obtain ⟨handle, place, lends⟩ := (List.mem_cons.1 mem).elim (fun same => again p same.symm)
    (h.repeated p)
  exact ⟨handle, place, lends.mono (fun _ _ => id) (List.suffix_cons _ _)⟩

/-- An event that judges nothing leaves the answers as they are. -/
theorem Relayed.cons {journal : Journal} (h : Relayed layout journal) {event : Event}
    (untouched : ∀ p, ¬ event.Touches p)
    (again : ∀ p, event = .repeated p → ∃ handle, handle.place = p ∧ layout.Lends journal handle) :
    Relayed layout (event :: journal) := by
  refine ⟨h.toAnswers.cons untouched again, fun p o relays inhabited decided => ?_⟩
  rw [Opening.decision?_cons_of_untouched (untouched p)] at decided
  rw [judgement?_cons_of_untouched (untouched p)]
  exact h.settles p o relays inhabited decided

/-! ## Questions -/

/-- The first answer to a question is about to be taken in by the list of its clause. -/
theorem Relaying.judge (h : Sound layout e) {p : Place} {question : Question} {onward : Route}
    (owns : layout.Owns e.journal (.asked p question onward)) (first : p ∉ e.settled)
    {answer : Answer} {result : Result} (judgement : Result) (fits : answer = .ok result.holds ∨
      layout.opening? p = none)
    (relaying : Relaying layout e (.answer p question onward) result) :
    Relaying layout ((e.markSettled p).note (.judged p answer judgement)) onward judgement := by
  obtain ⟨answers, settles, decided⟩ := relaying
  obtain ⟨w, i, outer, rfl, found, handed⟩ := Layout.handle?_eq_some owns.1
  obtain ⟨_, _, _, _, _, -, equal⟩ := Opening.handle?_eq_some handed
  obtain ⟨-, rfl⟩ : _ ∧ onward = outer.route w := by simpa using equal
  have unjudged : judgement? (w.member i) e.journal = none := by
    have settled := h.settled _ _ owns.1
    simpa [first] using settled
  refine ⟨⟨?_, ?_, ?_⟩, ?_⟩
  · intro q given result before suffix
    rcases List.suffix_cons_iff.1 suffix with same | inside
    · cases same
      exact unjudged
    · exact answers.once q given result before inside
  · intro q o given result' before relays suffix
    rcases List.suffix_cons_iff.1 suffix with same | inside
    · cases same
      obtain ⟨-, comes, latest⟩ := decided o relays
      obtain rfl | nowhere := fits
      · exact ⟨result, comes, rfl, latest⟩
      · rw [relays.1] at nowhere
        cases nowhere
    · exact answers.relayed q o given result' before relays inside
  · intro q mem
    obtain ⟨handle, place, lends⟩ := answers.repeated q ((List.mem_cons.1 mem).resolve_left nofun)
    exact ⟨handle, place, lends.mono (fun _ _ => id) (List.suffix_cons _ _)⟩
  · intro x o relays inhabited come
    dsimp only at come
    by_cases same : x = w.member i
    · subst same
      exact judgement?_of_mem List.mem_cons_self
    · have judged : judgement? x (.judged (w.member i) answer judgement :: e.journal) =
          judgement? x e.journal := judgement?_cons_of_ne (Ne.symm same)
      rw [show ((e.markSettled (w.member i)).note _).journal = _ :: e.journal from rfl, judged]
      refine settles x o relays same inhabited ?_
      by_cases above : x.Encloses w
      · rwa [if_pos above] at come
      · rw [if_neg above] at come
        have untouched : ¬ (Event.judged (w.member i) answer judgement).Touches x := fun touches =>
          above ((Place.encloses_member_iff.1 touches).resolve_left same)
        rwa [show ((e.markSettled (w.member i)).note _).journal = _ :: e.journal from rfl,
          Opening.decision?_cons_of_untouched untouched] at come

/-- Before a question that nobody has answered, all is as if nothing were on its way. -/
theorem Relayed.relaying (h : Relayed layout e.journal) {p : Place} (question : Question)
    (onward : Route) {result : Result}
    (decided : ∀ o, layout.Relays p o → judgement? p e.journal = none ∧
      o.decision? p e.journal = some result ∧ o.checks = []) :
    Relaying layout e (.answer p question onward) result := by
  refine ⟨h.toAnswers, fun x o relays _ => h.settles x o relays, fun o relays => ?_⟩
  obtain ⟨unjudged, comes, empty⟩ := decided o relays
  exact ⟨unjudged, comes, fun inhabited => absurd empty inhabited⟩

/-- No validator answers for a question that was answered before, so nothing is owing. -/
theorem Relaying.relayed (h : Sound layout e) {p : Place} {question : Question} {onward : Route}
    (owns : layout.Owns e.journal (.asked p question onward)) (settled : p ∈ e.settled)
    {result : Result} (relaying : Relaying layout e (.answer p question onward) result) :
    Relayed layout e.journal ∧ layout.opening? p = none := by
  obtain ⟨answers, settles, decided⟩ := relaying
  have free : layout.opening? p = none := by
    refine Option.eq_none_iff_forall_ne_some.2 fun o found => ?_
    have relays : layout.Relays p o := ⟨found, _, owns.1⟩
    obtain ⟨unjudged, -⟩ := decided o relays
    have judged := (h.settled _ _ owns.1).1 settled
    rw [unjudged] at judged
    cases judged
  refine ⟨⟨answers, fun x o relays inhabited decided => ?_⟩, free⟩
  refine settles x o relays ?_ inhabited decided
  rintro rfl
  cases free.symm.trans relays.1

/-! ## Lists -/

namespace Lagging

variable {earlier : Journal} {p : Place} {result : Result} {o : Opening}

theorem tail_journal (h : Lagging layout e earlier p result) : e.journal.tail = earlier := by
  obtain ⟨q, answer, judgement, i, latest, -⟩ := h.latest
  rw [latest]
  rfl

/-- The lists above have come to the same as before if the check that this list belongs to has. -/
theorem decision?_above (h : Lagging layout e earlier p result) (found : layout.opening? p = some o)
    (same : layout.outcome? p e.journal = layout.outcome? p earlier) {x : Place} {outer : Opening}
    (above : x.Encloses p) (other : x ≠ p) (opened : layout.opening? x = some outer) :
    outer.decision? x e.journal = outer.decision? x earlier := by
  rw [Opening.decision?, Opening.decision?, h.results_above found same above other opened]

/-- A list that keeps its result leaves no answer owing. -/
theorem relayed_kept (h : Lagging layout e earlier p result) (found : layout.opening? p = some o)
    (same : o.decision? p e.journal = o.decision? p earlier)
    (relaying : Relaying layout e (o.route p) result) : Relayed layout e.journal := by
  obtain ⟨answers, settles⟩ := relaying
  rw [h.tail_journal] at settles
  refine ⟨answers, fun x outer relays inhabited decided => settles x outer relays inhabited ?_⟩
  dsimp only
  split
  next above =>
    by_cases here : x = p
    · subst here
      obtain rfl : o = outer := Option.some.inj (found.symm.trans relays.1)
      rwa [← same]
    · rwa [← h.decision?_above found (h.outcome?_same found same) above here relays.1]
  · exact decided

/-- With the answer of one validator owing, the lists above have settled what they came to before. -/
theorem settles_above (h : Lagging layout e earlier p result) (found : layout.opening? p = some o)
    (same : layout.outcome? p e.journal = layout.outcome? p earlier)
    (relaying : Relaying layout e (o.route p) result) {x : Place} {outer : Opening}
    (relays : layout.Relays x outer) (other : x ≠ p) (inhabited : outer.checks ≠ [])
    (decided : (outer.decision? x e.journal).isSome = true) :
    (judgement? x e.journal).isSome = true := by
  obtain ⟨-, settles⟩ := relaying
  rw [h.tail_journal] at settles
  refine settles x outer relays inhabited ?_
  dsimp only
  split
  next above => rwa [← h.decision?_above found same above other relays.1]
  · exact decided

/-- A list that comes to its decision now has not answered for its clause before. -/
theorem unjudged (h : Lagging layout e earlier p result) (answers : Answers layout e.journal)
    (relays : layout.Relays p o) (before : o.decision? p earlier = none) :
    judgement? p e.journal = none := by
  refine Option.not_isSome_iff_eq_none.1 fun judged => ?_
  obtain ⟨given, verdict, first, behind⟩ := suffix_of_judgement? judged
  obtain ⟨decision, decided, -⟩ := answers.relayed p o given verdict first relays behind
  obtain ⟨q, answer, judgement, i, latest, below⟩ := h.latest
  -- The latest judgement is one further down, so the one of the clause would be an earlier one.
  rw [latest] at behind
  rcases List.suffix_cons_iff.1 behind with same | old
  · obtain ⟨rfl, -⟩ := Event.judged.inj (List.cons.inj same).1
    exact Place.not_member_encloses p i below
  · have decided := (h.wellFormed.opening relays.1).decision?_mono
      ((List.suffix_cons _ _).trans old) decided
    rw [before] at decided
    cases decided

/-- A list that passes its decision on hands on what is owing. -/
theorem relaying_passed (h : Lagging layout e earlier p result) (found : layout.opening? p = some o)
    (relaying : Relaying layout e (o.route p) result) {decision : Result}
    (before : o.decision? p earlier = none) (after : o.decision? p e.journal = some decision) :
    Relaying layout (taken e p o) o.onward decision := by
  have answers : Answers layout (taken e p o).journal := relaying.1
  -- At the root of its call or loose place a list answers for no clause here.
  have atRoot : ∀ {root : Root}, p = ⟨root, []⟩ → Relayed layout e.journal := by
    rintro root rfl
    refine ⟨relaying.1, fun x outer relays => h.settles_above found rfl relaying relays ?_⟩
    rintro rfl
    exact relays.path_ne_nil rfl
  obtain root | ⟨w, k, rfl⟩ := p.root_or_member
  · rw [root] at found
    cases owner : p.root with
    | call call =>
      rw [owner] at found
      obtain ⟨-, onward, -⟩ := h.calls call o found
      rw [onward]
      exact atRoot root
    | loose n =>
      rw [owner] at found
      obtain ⟨-, -, handle, ⟨-, free⟩, onward⟩ := h.loose n o found
      rw [onward]
      cases handle with
      | detached q => exact atRoot root
      | asked q question further =>
        refine Relayed.relaying (atRoot root : Relayed layout (taken e p o).journal) question further
          fun outer relays => ?_
        have nowhere : layout.opening? q = none := free
        rw [relays.1] at nowhere
        cases nowhere
  · obtain ⟨first, outer, member⟩ := Layout.opening?_member_eq_some found
    obtain ⟨members, group, rfl⟩ | ⟨_, _, _, _, _, _, rule, -, rfl⟩ := Opening.member?_eq_some member
    · -- A group answers for no clause, so the lists further up are all that lags.
      refine ⟨answers, fun x above relays inhabited decided => ?_⟩
      refine relaying.2 x above relays inhabited ?_
      have other : x ≠ w.member k := by
        rintro rfl
        exact Layout.Relays.not_group outer group relays
      have same : x.Encloses (w.member k) ↔ x.Encloses w :=
        Place.encloses_member_iff.trans (or_iff_right other)
      have decided : (above.decision? x
          (if x.Encloses w then e.journal.tail else e.journal)).isSome = true := decided
      simpa only [same] using decided
    · have unchanged := h.outcome?_rule rfl outer rule
      refine ⟨answers, fun x above relays other =>
        h.settles_above found unchanged relaying relays other, fun own relays => ?_⟩
      obtain rfl := Option.some.inj (found.symm.trans relays.1)
      obtain ⟨q, answer, judgement, i, latest, -⟩ := h.latest
      exact ⟨h.unjudged answers relays before, after, fun _ => ⟨_, earlier, latest, before⟩⟩

end Lagging

/-! ## Deliveries -/

theorem complete_relayed (h : Relayed layout e.journal) (call : Nat) (result : Result) :
    Relayed layout (e.complete call result).2.journal := by
  unfold Engine.complete
  split
  · exact h
  · exact h
  · exact h.cons (fun _ => id) fun _ => nofun

theorem once_relayed (h : Relayed layout e.journal) {p : Place} (loose : p.path = []) :
    Relayed layout (e.once p fun e => (.ok (), e)).2.journal := by
  rw [Engine.once]
  split
  · refine h.cons (fun _ => id) ?_
    rintro q equal
    obtain rfl := Event.repeated.inj equal
    exact ⟨.detached p, rfl, loose, trivial⟩
  · exact h

/-- Answering a question, if what happens next keeps to the answers. -/
theorem answer_relayed (h : Sound layout e) {p : Place} {question : Question} {onward : Route}
    (owns : layout.Owns e.journal (.asked p question onward)) {answer : Answer} {result : Result}
    (fits : answer = .ok result.holds ∨ layout.opening? p = none)
    (relaying : Relaying layout e (.answer p question onward) result)
    (further : ∀ {e : Engine} {result : Result}, Ready layout e onward result →
      Relaying layout e onward result →
        Relayed layout (Engine.deliver onward result e).2.journal) :
    Relayed layout (e.answer p question answer (Engine.deliver onward)).2.journal := by
  rw [Engine.answer, Engine.once]
  split
  next settled =>
    have mem : p ∈ e.settled := by simpa [Engine.isSettled] using settled
    obtain ⟨relayed, free⟩ := relaying.relayed h owns mem
    refine relayed.cons (fun _ => id) ?_
    rintro q equal
    obtain rfl := Event.repeated.inj equal
    exact ⟨_, rfl, owns, free⟩
  next fresh =>
    have first : p ∉ e.settled := by simpa [Engine.isSettled] using fresh
    exact (further (h.judge owns first _ answer) (relaying.judge h owns first _ fits)).cons
      (fun _ => id) fun _ impossible => by cases impossible

/-- **Delivery answers for rules** just as it decides lists. -/
theorem deliver_relayed (route : Route) : ∀ {e : Engine} {result : Result},
    Ready layout e route result → Relaying layout e route result →
      Relayed layout (Engine.deliver route result e).2.journal := by
  induction route with
  | call call => exact fun {e} {result} _ relaying => complete_relayed relaying call result
  | list p combinator value onward ih =>
    intro e result ready relaying
    obtain ⟨earlier, checks, lagging, found⟩ := ready
    obtain ⟨held, room⟩ := lagging.list found
    rw [Engine.deliver]
    cases passes : combinator.passesOn checks.length value
        (Opening.results ⟨combinator, checks, value, onward⟩ p earlier) result with
    | none =>
      rw [Engine.takeIn_kept held room passes]
      exact lagging.relayed_kept found (lagging.decision?_kept found passes) relaying
    | some decision =>
      obtain ⟨before, after⟩ := lagging.decision?_passed found passes
      rw [Engine.takeIn_passed held room passes, ← lagging.taken_eq found]
      exact ih (lagging.ready_passed found before after)
        (lagging.relaying_passed found relaying before after)
  | detached p => exact fun ready relaying => once_relayed relaying ready.2
  | answer p question onward ih =>
    exact fun ready relaying => answer_relayed ready.1 ready.2 (.inl rfl) relaying ih

/-- Settling a handle that answers for no validator. -/
theorem settle_relayed (h : Sound layout e) (relayed : Relayed layout e.journal) {handle : Handle}
    (lends : layout.Lends e.journal handle) (answer : Answer) :
    Relayed layout (Engine.settle handle answer e).2.journal := by
  obtain ⟨owns, free⟩ := lends
  cases handle with
  | detached p => exact once_relayed relayed owns
  | asked p question onward =>
    have free : layout.opening? p = none := free
    have nowhere : ∀ o, ¬ layout.Relays p o := by
      rintro o ⟨found, -⟩
      rw [free] at found
      cases found
    have relaying : Relaying layout e (.answer p question onward) (.ok true) :=
      relayed.relaying question onward fun o relays => absurd relays (nowhere o)
    exact answer_relayed h owns (.inr free) relaying (deliver_relayed onward)

/-- A validator without clauses that serves as a rule passes. -/
theorem pass_relayed (h : Sound layout e) (relayed : Relayed layout e.journal) {p : Place}
    {o : Opening} {handle : Handle} (unjudged : judgement? p e.journal = none)
    (found : layout.opening? p = some o) (empty : o.checks = [])
    (onward : o.onward = handle.route) (owns : layout.Owns e.journal handle) :
    Relayed layout (Engine.deliver handle.route (.ok true) e).2.journal := by
  cases handle with
  | detached q => exact once_relayed relayed owns
  | asked q question further =>
    refine deliver_relayed (.answer q question further) ⟨h, owns⟩
      (relayed.relaying question further fun own relays => ?_)
    -- The clause that this answers is the one where the list stands: a lent handle is free.
    have same : p = q := by
      obtain root | ⟨w, k, rfl⟩ := p.root_or_member
      · rw [root] at found
        cases owner : p.root with
        | call call =>
          rw [owner] at found
          obtain ⟨-, further, -⟩ := h.calls call o found
          rw [further] at onward
          cases onward
        | loose n =>
          rw [owner] at found
          obtain ⟨-, -, lent, ⟨-, free⟩, further⟩ := h.loose n o found
          rw [further] at onward
          cases lent with
          | detached => cases onward
          | asked =>
            cases onward
            have nowhere : layout.opening? q = none := free
            rw [relays.1] at nowhere
            cases nowhere
      · obtain ⟨first, outer, member⟩ := Layout.opening?_member_eq_some found
        obtain ⟨members, -, rfl⟩ | ⟨_, _, _, _, _, _, -, -, rfl⟩ := Opening.member?_eq_some member
        · cases onward
        · cases onward
          rfl
    subst same
    obtain rfl : o = own := Option.some.inj (found.symm.trans relays.1)
    obtain ⟨-, -, -, -, -, -, conjunction, -⟩ := relays.member
    refine ⟨unjudged, ?_, empty⟩
    have nothing : ∀ journal, o.results p journal = [] := by
      intro journal
      rw [Opening.results, Opening.parts, empty]
      induction journal with
      | nil => rfl
      | cons event earlier ih => rw [Check.outcomes] at ih ⊢; rw [arrivals, ih]; rfl
    rw [Opening.decision?, nothing, conjunction, empty]
    rfl

/-! ## Steps and runs -/

theorem EvalStep.relayed (step : EvalStep layout active e e') (h : Sound layout e)
    (relayed : Relayed layout e.journal) : Relayed layout e'.journal := by
  cases step with
  | invoke => exact relayed.cons (fun _ => id) fun _ => nofun
  | openList => exact relayed
  | settle lends _ answer => exact settle_relayed h relayed lends answer
  | @pass p _ _ rule value params _ fresh above root found empty onward owns =>
    have unjudged : judgement? p (.invoked p rule false value params :: e.journal) = none := by
      rw [judgement?_cons_of_untouched id]
      refine Option.not_isSome_iff_eq_none.1 fun judged => fresh (.inr ?_)
      obtain ⟨answer, result, before, behind⟩ := suffix_of_judgement? judged
      exact (h.judged p answer result (behind.subset List.mem_cons_self)).1
    exact pass_relayed (h.invoke rule false value params above root)
      (relayed.cons (fun _ => id) fun _ => nofun) unjudged found empty onward owns
  | park => exact relayed
  | told => exact relayed.cons (fun _ => id) fun _ => nofun

theorem Layout.opening?_extend_of_ne {root : Root} {p : Place} (other : p.root ≠ root)
    (o : Opening) : (layout.extend root o).opening? p = layout.opening? p :=
  Layout.below_extend_of_ne other o p.path

theorem Layout.Relays.of_extend {root : Root} {first o : Opening} {p : Place} (other : p.root ≠ root)
    (relays : (layout.extend root first).Relays p o) : layout.Relays p o := by
  rwa [Layout.Relays, Layout.opening?_extend_of_ne other, Layout.handle?_extend_of_ne other] at relays

/-- Below a new root nothing has been decided or answered. -/
theorem Relayed.extend (relayed : Relayed layout e.journal) (h : Placed layout e) {root : Root}
    (new : layout root = none) (unissued : ¬ Issued ⟨root, []⟩ e.journal) (first : Opening) :
    Relayed (layout.extend root first) e.journal := by
  have unknown : ∀ {x : Place}, x.root = root → ¬ e.Known x := h.unknown new unissued
  refine ⟨⟨relayed.once, ?_, ?_⟩, ?_⟩
  · intro p o answer result before relays suffix
    by_cases here : p.root = root
    · exact absurd (.inr (h.judged p answer result (suffix.subset List.mem_cons_self)).1)
        (unknown here)
    · exact relayed.relayed p o answer result before (relays.of_extend here) suffix
  · intro p mem
    obtain ⟨handle, place, lends⟩ := relayed.repeated p mem
    exact ⟨handle, place, lends.mono (Layout.extends_extend new first) (List.suffix_refl _)⟩
  · intro p o relays inhabited decided
    by_cases here : p.root = root
    · have nothing : o.results p e.journal = [] := by
        apply h.results_eq_nil
        exact fun i q below => unknown (below.1.symm.trans here)
      obtain ⟨-, -, -, -, -, -, conjunction, -⟩ := relays.member
      have size : o.checks.length ≠ 0 := by simpa using inhabited
      rw [Opening.decision?, nothing, conjunction] at decided
      simp [Combinator.decision?, firstFailure?, failures, size.symm] at decided
    · exact relayed.settles p o (relays.of_extend here) inhabited decided

theorem RunStep.relayed (step : RunStep (layout, e) (later, e')) (h : Sound layout e)
    (relayed : Relayed layout e.journal) : Relayed later e'.journal := by
  cases step with
  | eval _ step => exact step.relayed h relayed
  | enter wf inhabited value =>
    exact relayed.extend h.toPlaced h.new_call (h.unissued_call _) _
  | accept value =>
    have entered : Relayed (layout.withCall e.calls.size [] value) (e.enter value).journal :=
      relayed.extend h.toPlaced h.new_call (h.unissued_call _) _
    exact complete_relayed entered e.calls.size (.ok true)
  | leave => exact relayed.cons (fun _ => id) fun _ => nofun
  | lend wf value lends => exact relayed.extend h.toPlaced h.new_loose h.unissued_loose _
  | loosen => exact relayed
  | drop => exact relayed
  | define => exact relayed
  | setTemplate => exact relayed
  | log logged =>
    refine relayed.cons (fun p => logged.silent.plain.untouched p) ?_
    rintro _ rfl
    exact logged.elim

/-- **In every run validators answer for rules** just as their lists are decided. -/
theorem Trace.relayed {finish : Layout × Engine} (trace : Trace (.empty, .empty) finish) :
    Relayed finish.1 finish.2.journal := by
  induction trace with
  | refl =>
    refine ⟨⟨fun p answer result before suffix => ?_, fun p o answer result before _ suffix => ?_,
      fun p mem => ?_⟩, fun p o relays => ?_⟩
    · cases List.eq_nil_of_suffix_nil suffix
    · cases List.eq_nil_of_suffix_nil suffix
    · cases mem
    · obtain ⟨first, found⟩ := Layout.root_of_opening? relays.1
      cases found
  | @tail middle finish steps step ih => exact step.relayed (Trace.sound steps sound_empty) ih

/-! ## Validators without clauses -/

/-- Whether each rule clause is judged that a validator without clauses answers for, if the validator
was invoked. -/
def Prompt (layout : Layout) (journal : Journal) : Prop :=
  ∀ p o, layout.Relays p o → o.checks = [] → Issued p journal → (judgement? p journal).isSome = true

/-- What was known of a rule clause is that its body was invoked. -/
theorem Placed.issued_of_known (h : Placed layout e) {p : Place} {o : Opening}
    (relays : layout.Relays p o) (known : e.Known p) : Issued p e.journal := by
  obtain ⟨handle, handed⟩ := relays.2
  exact known.elim (fun opened => h.asked p handle opened handed) id

/-- A judgement lasts, so only what is started anew can be owing. -/
theorem Prompt.grows (prompt : Prompt layout e.journal) (h : Placed layout e)
    {region : Place → Prop} (grows : Grows region e e')
    (answered : ∀ p o, region p → layout.Relays p o → o.checks = [] →
      (judgement? p e'.journal).isSome = true) : Prompt layout e'.journal := by
  intro p o relays empty issued
  rcases grows.known p (.inr issued) with known | new
  · exact (lasting_judgement p).isSome_mono grows.journal.suffix
      (prompt p o relays empty (h.issued_of_known relays known))
  · exact answered p o new relays empty

theorem Prompt.rests (prompt : Prompt layout e.journal) (h : Placed layout e) (rests : Rests e e') :
    Prompt layout e'.journal :=
  prompt.grows h rests fun _ _ => False.elim

theorem EvalStep.prompt (step : EvalStep layout active e e') (h : Sound layout e)
    (prompt : Prompt layout e.journal) : Prompt layout e'.journal := by
  cases step with
  | @invoke q rule scripted value params _ _ _ _ inhabited =>
    refine prompt.grows h.toPlaced (.invoke e q rule scripted value params) ?_
    rintro p o rfl relays empty
    exact absurd empty (inhabited o relays.1)
  | openList => exact prompt
  | settle _ _ answer => exact prompt.rests h.toPlaced (settle_rests _ answer e)
  | @pass q o handle rule value params _ _ above root found empty onward owns =>
    have rests := deliver_rests handle.route (.ok true) (e.note (.invoked q rule false value params))
    refine prompt.grows h.toPlaced ((Grows.invoke e q rule false value params).trans
      (rests.grows _)) ?_
    rintro p own rfl relays -
    obtain rfl := Option.some.inj (found.symm.trans relays.1)
    obtain ⟨w, k, outer, question, -, -, -, -, -, -, further⟩ := relays.member
    rw [onward] at further
    cases handle with
    | detached => cases further
    | asked =>
      cases further
      exact (h.invoke rule false value params above root).judged_answer owns _
  | park => exact prompt
  | told rule report =>
    have rests : Rests e (e.note (.settledBy rule report)) := .note trivial trivial trivial
    exact prompt.rests h.toPlaced rests

theorem Prompt.extend (prompt : Prompt layout e.journal) (h : Placed layout e) {root : Root}
    (new : layout root = none) (unissued : ¬ Issued ⟨root, []⟩ e.journal) (first : Opening) :
    Prompt (layout.extend root first) e.journal := by
  intro p o relays empty issued
  by_cases here : p.root = root
  · exact absurd (.inr issued) (h.unknown new unissued here)
  · exact prompt p o (relays.of_extend here) empty issued

theorem Prompt.cons (prompt : Prompt layout e.journal) {event : Event} (plain : event.Plain) :
    Prompt layout (event :: e.journal) := by
  intro p o relays empty issued
  rw [judgement?_cons_of_plain plain]
  exact prompt p o relays empty ((issued_cons_of_plain plain).1 issued)

theorem RunStep.prompt (step : RunStep (layout, e) (later, e')) (h : Sound layout e)
    (prompt : Prompt layout e.journal) : Prompt later e'.journal := by
  cases step with
  | eval _ step => exact step.prompt h prompt
  | enter => exact prompt.extend h.toPlaced h.new_call (h.unissued_call _) _
  | accept value =>
    have entered : Prompt (layout.withCall e.calls.size [] value) (e.enter value).journal :=
      prompt.extend h.toPlaced h.new_call (h.unissued_call _) _
    exact entered.rests (h.enter_placed rfl value) (complete_rests (e.enter value) e.calls.size _)
  | leave =>
    have plain : ∀ id result, (Event.returned id result).Plain := fun _ _ => trivial
    exact prompt.cons (plain _ _)
  | lend => exact prompt.extend h.toPlaced h.new_loose h.unissued_loose _
  | log logged => exact prompt.cons logged.silent.plain
  | loosen | drop | define | setTemplate => exact prompt

/-- **In every run** validators without clauses have answered where they were invoked. -/
theorem Trace.prompt {finish : Layout × Engine} (trace : Trace (.empty, .empty) finish) :
    Prompt finish.1 finish.2.journal := by
  induction trace with
  | refl =>
    intro p o relays
    obtain ⟨first, found⟩ := Layout.root_of_opening? relays.1
    cases found
  | @tail middle finish steps step ih => exact step.prompt (Trace.sound steps sound_empty) ih

end Criteria
