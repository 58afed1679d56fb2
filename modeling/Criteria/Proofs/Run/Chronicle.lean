import Criteria.Proofs.Run.Reach

/-!
# Journals tell of every settlement

A `Chronicle` says of a stretch of the journal that each first settlement of a handle of a call is
noted there with all that it set off, and that nothing else is told in the call. What belongs to one
settlement is up to an account: once the account fits what follows a single judgement (`Accounts`),
every step keeps the chronicle, so it is one of the whole journal of a run. Deliveries can be nested:
the decision of a validator that serves as a rule of another call settles a handle there, so the
stretch of one settlement lies inside another.
-/

namespace Criteria
set_option autoImplicit false

variable {layout later : Layout} {active : Option Root} {e e' : Engine}

/-- What may be noted of the first settlement of a handle: the place, the answer, how it was judged,
what had happened before, and the journal as of what the settler was told. -/
abbrev Account := Place → Answer → Result → Journal → Journal → Prop

/-- Between two states of the journal every first settlement in a call is noted with all that it set
off, and whatever a settler was told is part of such a note. -/
structure Chronicle (account : Account) (call : Nat) (earlier last : Journal) : Prop where
  judged : ∀ p answer result before, p.root = .call call →
    .judged p answer result :: before <:+ last → earlier <:+ before →
      judgement? p before = none ∧
        ∃ whole, .judged p answer result :: before <:+ whole ∧ whole <:+ last ∧
          account p answer result before whole
  told : ∀ p report before, p.root = .call call → .told p report :: before <:+ last →
    earlier <:+ before → ∃ answer result first, earlier <:+ first ∧
      .judged p answer result :: first <:+ before ∧
      account p answer result first (.told p report :: before)

/-- A question is judged for the first time only once. -/
theorem first_judgement_unique {p : Place} {answer answer' : Answer} {result result' : Result}
    {before before' last : Journal} (first : .judged p answer result :: before <:+ last)
    (second : .judged p answer' result' :: before' <:+ last) (unjudged : judgement? p before = none)
    (unjudged' : judgement? p before' = none) :
    Event.judged p answer result :: before = .judged p answer' result' :: before' := by
  rcases List.suffix_or_suffix_of_suffix first second with inside | outside
  · rcases List.suffix_cons_iff.1 inside with equal | earlier
    · exact equal
    · have had := judgement?_of_mem (earlier.subset List.mem_cons_self)
      rw [unjudged'] at had
      cases had
  · rcases List.suffix_cons_iff.1 outside with equal | earlier
    · exact equal.symm
    · have had := judgement?_of_mem (earlier.subset List.mem_cons_self)
      rw [unjudged] at had
      cases had

namespace Chronicle

variable {account : Account} {call : Nat} {first middle last : Journal}

/-- What is told of a judgement is told at the end of its account. -/
theorem account_unique (h : Chronicle account call [] last) {p : Place} {answer : Answer}
    {result : Result} {report : Report} {before during : Journal} (below : p.root = .call call)
    (judged : .judged p answer result :: before <:+ last)
    (told : .told p report :: during <:+ last) :
    account p answer result before (.told p report :: during) := by
  obtain ⟨unjudged, -⟩ := h.judged p answer result before below judged List.nil_suffix
  obtain ⟨answer', result', first, -, inside, whole⟩ :=
    h.told p report during below told List.nil_suffix
  have judged' : .judged p answer' result' :: first <:+ last :=
    inside.trans ((List.suffix_cons _ _).trans told)
  obtain ⟨unjudged', -⟩ := h.judged p answer' result' first below judged' List.nil_suffix
  cases first_judgement_unique judged judged' unjudged unjudged'
  exact whole

theorem refl (account : Account) (call : Nat) (journal : Journal) :
    Chronicle account call journal journal :=
  ⟨fun _ _ _ _ _ behind ahead => absurd ahead (not_suffix_of_cons_suffix behind),
    fun _ _ _ _ behind ahead => absurd ahead (not_suffix_of_cons_suffix behind)⟩

theorem trans (earlier : Chronicle account call first middle)
    (later : Chronicle account call middle last) (begins : first <:+ middle)
    (ends : middle <:+ last) : Chronicle account call first last where
  judged p answer result before below behind ahead := by
    rcases suffix_cases behind ends with inside | outside
    · exact later.judged p answer result before below behind inside
    · obtain ⟨unjudged, whole, starts, within, noted⟩ :=
        earlier.judged p answer result before below outside ahead
      exact ⟨unjudged, whole, starts, within.trans ends, noted⟩
  told p report before below behind ahead := by
    rcases suffix_cases behind ends with inside | outside
    · obtain ⟨answer, result, start, within, noted⟩ := later.told p report before below behind inside
      exact ⟨answer, result, start, begins.trans within, noted⟩
    · exact earlier.told p report before below outside ahead

theorem cons (event : Event) (quiet : event.Quiet) (journal : Journal) :
    Chronicle account call journal (event :: journal) where
  judged p answer result before below behind ahead := by
    rcases List.suffix_cons_iff.1 behind with equal | inside
    · exact absurd quiet ((List.cons.inj equal).1 ▸ id)
    · obtain ⟨unjudged, whole, starts, within, noted⟩ :=
        (refl account call journal).judged p answer result before below inside ahead
      exact ⟨unjudged, whole, starts, within.trans (List.suffix_cons _ _), noted⟩
  told p report before below behind ahead := by
    rcases List.suffix_cons_iff.1 behind with equal | inside
    · exact absurd quiet ((List.cons.inj equal).1 ▸ id)
    · exact (refl account call journal).told p report before below inside ahead

/-- What stands between a judgement and what is told of it. -/
theorem around {p : Place} {answer : Answer} {result : Result} {report : Report}
    (inner : Chronicle account call (.judged p answer result :: first) middle)
    (grows : .judged p answer result :: first <:+ middle)
    (unjudged : judgement? p first = none)
    (whole : p.root = .call call → account p answer result first (.told p report :: middle)) :
    Chronicle account call first (.told p report :: middle) where
  judged q given judgement before below behind ahead := by
    have inside : .judged q given judgement :: before <:+ middle := by
      rcases List.suffix_cons_iff.1 behind with equal | inside
      · cases (List.cons.inj equal).1
      · exact inside
    rcases suffix_cases inside grows with within | outside
    · obtain ⟨fresh, noted, starts, stays, told⟩ :=
        inner.judged q given judgement before below inside within
      exact ⟨fresh, noted, starts, stays.trans (List.suffix_cons _ _), told⟩
    · rcases List.suffix_cons_iff.1 outside with equal | behind
      · cases equal
        exact ⟨unjudged, _, grows.trans (List.suffix_cons _ _), List.suffix_refl _, whole below⟩
      · exact absurd ahead (not_suffix_of_cons_suffix behind)
  told q told before below behind ahead := by
    rcases List.suffix_cons_iff.1 behind with equal | inside
    · cases equal
      exact ⟨answer, result, first, List.suffix_refl _, grows, whole below⟩
    · rcases suffix_cases inside grows with within | outside
      · obtain ⟨given, judgement, start, starts, noted⟩ :=
          inner.told q told before below inside within
        exact ⟨given, judgement, start, (List.suffix_cons _ _).trans starts, noted⟩
      · rcases List.suffix_cons_iff.1 outside with equal | behind
        · cases (List.cons.inj equal).1
        · exact absurd ahead (not_suffix_of_cons_suffix behind)

end Chronicle

/-- Whether an account fits what follows the first judgement of any question of a call. -/
def Accounts (account : Account) (call : Nat) (o : Opening) : Prop :=
  ∀ {layout : Layout} {e : Engine}, layout (.call call) = some o → Sound layout e →
    ∀ {p : Place} {question : Question} {onward : Route},
      layout.Owns e.journal (.asked p question onward) → p.root = .call call → p ∉ e.settled →
      ∀ (templates : Templates) (answer : Answer),
        let result := question.judge templates answer
        let after := Engine.deliver onward result ((e.markSettled p).note (.judged p answer result))
        account p answer result e.journal (.told p after.1 :: after.2.journal)

/-! ## Deliveries -/

section

variable {account : Account} {call : Nat} {o : Opening}

theorem complete_chronicle (e : Engine) (id : Nat) (result : Result) :
    Chronicle account call e.journal (e.complete id result).2.journal := by
  unfold Engine.complete
  split
  · exact .refl account call _
  · exact .refl account call _
  · exact .cons (.completed id _) trivial _

/-- Answering a question, if what the judgement sets off is told of. -/
theorem answer_chronicle (fits : Accounts account call o) (root : layout (.call call) = some o)
    (h : Sound layout e) {p : Place} {question : Question} {onward : Route}
    (owns : layout.Owns e.journal (.asked p question onward)) (answer : Answer)
    (further : ∀ {e : Engine} {result : Result}, Ready layout e onward result →
      Chronicle account call e.journal (Engine.deliver onward result e).2.journal) :
    Chronicle account call e.journal (e.answer p question answer (Engine.deliver onward)).2.journal := by
  rw [Engine.answer, Engine.once]
  split
  · exact .cons (.repeated _) trivial _
  next fresh =>
    have first : p ∉ e.settled := by simpa [Engine.isSettled] using fresh
    have ready := h.judge owns first (e.templatesOf question.definition) answer
    have grows := (deliver_rests onward (question.judge (e.templatesOf question.definition) answer)
      ((e.markSettled p).note (.judged p answer
        (question.judge (e.templatesOf question.definition) answer)))).journal.suffix
    have unjudged : judgement? p e.journal = none := by
      have settled := h.settled _ _ owns.1
      simpa [first] using settled
    exact .around (further ready) grows unjudged fun below => fits root h owns below first _ answer

/-- **Delivery tells** of all that it sets off in a call, on whatever route it comes there. -/
theorem deliver_chronicle (fits : Accounts account call o) (root : layout (.call call) = some o)
    (route : Route) : ∀ {e : Engine} {result : Result}, Ready layout e route result →
      Chronicle account call e.journal (Engine.deliver route result e).2.journal := by
  induction route with
  | call id => exact fun {e} {result} _ => complete_chronicle e id result
  | list p combinator value onward ih =>
    intro e result ready
    obtain ⟨earlier, checks, lagging, found⟩ := ready
    obtain ⟨held, room⟩ := lagging.list found
    rw [Engine.deliver]
    cases passes : combinator.passesOn checks.length value
        (Opening.results ⟨combinator, checks, value, onward⟩ p earlier) result with
    | none =>
      rw [Engine.takeIn_kept held room passes]
      exact .refl account call _
    | some decision =>
      obtain ⟨before, after⟩ := lagging.decision?_passed found passes
      rw [Engine.takeIn_passed held room passes, ← lagging.taken_eq found]
      exact ih (lagging.ready_passed found before after)
  | detached p =>
    intro e result _
    rw [Engine.deliver, Engine.once]
    split
    · exact .cons (.repeated _) trivial _
    · exact .refl account call _
  | answer p question onward ih =>
    exact fun ready => answer_chronicle fits root ready.1 ready.2 _ ih

theorem settle_chronicle (fits : Accounts account call o) (root : layout (.call call) = some o)
    (h : Sound layout e) {handle : Handle} (owns : layout.Owns e.journal handle) (answer : Answer) :
    Chronicle account call e.journal (Engine.settle handle answer e).2.journal := by
  cases handle with
  | detached p =>
    rw [Engine.settle, Engine.once]
    split
    · exact .cons (.repeated _) trivial _
    · exact .refl account call _
  | asked p question onward =>
    exact answer_chronicle fits root h owns answer (deliver_chronicle fits root onward)

/-! ## Steps and runs -/

theorem EvalStep.chronicle (fits : Accounts account call o) (root : layout (.call call) = some o)
    (step : EvalStep layout active e e') (h : Sound layout e) :
    Chronicle account call e.journal e'.journal := by
  cases step with
  | @invoke p rule scripted value params =>
    exact .cons (.invoked p rule scripted value params) trivial _
  | openList => exact .refl account call _
  | settle lends _ answer => exact settle_chronicle fits root h lends.owns answer
  | @pass p _ handle rule value params _ _ above top _ _ _ owns =>
    have invoked := h.invoke rule false value params above top
    have begun : Chronicle account call e.journal
        (e.note (.invoked p rule false value params)).journal :=
      .cons (.invoked p rule false value params) trivial _
    have grows := (Grows.invoke e p rule false value params).journal.suffix
    have rests := (deliver_rests handle.route (.ok true)
      (e.note (.invoked p rule false value params))).journal.suffix
    refine begun.trans ?_ grows rests
    cases handle with
    | detached q => exact deliver_chronicle fits root (.detached q) ⟨invoked, owns⟩
    | asked q question onward =>
      exact deliver_chronicle fits root (.answer q question onward) ⟨invoked, owns⟩
  | park => exact .refl account call _
  | told rule report => exact .cons (.settledBy rule report) trivial _

theorem Event.Logged.quiet {event : Event} (logged : event.Logged) : event.Quiet := by
  cases event <;> trivial

theorem RunStep.chronicle (fits : Accounts account call o) (step : RunStep (layout, e) (later, e'))
    (root : later (.call call) = some o) (h : Sound layout e) :
    Chronicle account call e.journal e'.journal := by
  cases step with
  | eval _ step => exact step.chronicle fits root h
  | enter => exact .refl account call _
  | accept value => exact complete_chronicle (e.enter value) e.calls.size (.ok true)
  | @leave _ _ id _ _ _ => exact .cons (.returned id _) trivial _
  | loosen => exact .refl account call _
  | lend => exact .refl account call _
  | drop => exact .refl account call _
  | define => exact .refl account call _
  | setTemplate => exact .refl account call _
  | @log _ _ event logged => exact .cons event logged.quiet _

theorem RunStep.answered (step : RunStep (layout, e) (later, e')) (h : Answered e.journal) :
    Answered e'.journal := by
  cases step with
  | eval _ step => exact step.grows.journal.answered h
  | accept value =>
    exact (complete_rests (e.enter value) e.calls.size (.ok true)).journal.answered h
  | leave =>
    have quiet : ∀ id result, (Event.returned id result).Quiet := fun _ _ => trivial
    exact h.cons (quiet _ _)
  | log logged => exact h.cons logged.quiet
  | _ => exact h

/-- A journal in which nothing was judged in a call tells of all of it. -/
theorem Chronicle.of_unjudged {journal : Journal} (answered : Answered journal)
    (unjudged : ∀ p answer result, p.root = .call call →
      Event.judged p answer result ∉ journal) : Chronicle account call [] journal where
  judged p answer result before below behind _ :=
    absurd (behind.subset List.mem_cons_self) (unjudged p answer result below)
  told p report before below behind _ := by
    obtain ⟨answer, result, mem⟩ := (answered p).2 ⟨report, behind.subset List.mem_cons_self⟩
    exact absurd mem (unjudged p answer result below)

theorem Placed.unjudged (h : Placed layout e) (new : layout (.call call) = none) :
    ∀ p answer result, p.root = .call call → Event.judged p answer result ∉ e.journal := by
  intro p answer result below mem
  obtain ⟨-, question, onward, templates, handed, -⟩ := h.judged p answer result mem
  exact Layout.root_of_handle? handed (below ▸ new)

/-- **The journal of a run tells of every call** as each account that fits has it. -/
theorem Trace.chronicle {finish : Layout × Engine} (trace : Trace (.empty, .empty) finish) :
    Answered finish.2.journal ∧ ∀ call o, finish.1 (.call call) = some o → ∀ account,
      Accounts account call o → Chronicle account call [] finish.2.journal := by
  induction trace with
  | refl => exact ⟨.nil, fun _ _ impossible => by cases impossible⟩
  | @tail middle finish steps step ih =>
    obtain ⟨layout, e⟩ := middle
    obtain ⟨later, e'⟩ := finish
    obtain ⟨answered, told⟩ := ih
    have sound : Sound layout e := Trace.sound steps sound_empty
    have follows := step.follows sound
    refine ⟨step.answered answered, fun call o root account fits => ?_⟩
    have before : Chronicle account call [] e.journal := by
      cases known : layout (.call call) with
      | none => exact .of_unjudged answered (sound.toPlaced.unjudged known)
      | some own =>
        obtain rfl : own = o := Option.some.inj ((follows.layout _ _ known).symm.trans root)
        exact told call own known account fits
    exact before.trans (step.chronicle fits root sound) List.nil_suffix follows.journal

end

end Criteria
