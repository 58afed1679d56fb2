import Criteria.Proofs.Call.Report
import Criteria.Proofs.Run.Chronicle

/-!
# The journal recounts plain calls

In a call of a plain validator the journal notes of each first settlement exactly what
`Opening.account` says, and nothing else is told.
-/

namespace Criteria
set_option autoImplicit false

variable {layout : Layout} {e : Engine} {call : Nat} {o : Opening}

/-- Between two states of the journal every first settlement in a plain call is noted with all that it
set off, and whatever a settler was told is part of such a note. -/
abbrev Recounts (call : Nat) (o : Opening) : Journal → Journal → Prop :=
  Chronicle (fun p answer result before whole => whole = o.account call p answer result before) call

namespace Recounts

variable {earlier last : Journal}

theorem judged (h : Recounts call o earlier last) (p : Place) (answer : Answer) (result : Result)
    (before : Journal) (below : p.root = .call call)
    (behind : .judged p answer result :: before <:+ last) (ahead : earlier <:+ before) :
    judgement? p before = none ∧ o.account call p answer result before <:+ last := by
  obtain ⟨unjudged, whole, -, within, rfl⟩ :=
    Chronicle.judged h p answer result before below behind ahead
  exact ⟨unjudged, within⟩

theorem told (h : Recounts call o earlier last) (p : Place) (report : Report) (before : Journal)
    (below : p.root = .call call) (behind : .told p report :: before <:+ last)
    (ahead : earlier <:+ before) : ∃ answer result first, earlier <:+ first ∧
      .told p report :: before = o.account call p answer result first := by
  obtain ⟨answer, result, first, starts, -, whole⟩ :=
    Chronicle.told h p report before below behind ahead
  exact ⟨answer, result, first, starts, whole⟩

theorem account_unique (h : Recounts call o [] last) {p : Place} {answer : Answer} {result : Result}
    {report : Report} {before during : Journal} (below : p.root = .call call)
    (judged : .judged p answer result :: before <:+ last)
    (told : .told p report :: during <:+ last) :
    .told p report :: during = o.account call p answer result before :=
  Chronicle.account_unique h below judged told

end Recounts

/-- What follows the first judgement of a question of a plain call, and what is told of it. -/
theorem judged_account (root : layout (.call call) = some o) (plain : o.Plain) (h : Sound layout e)
    {p : Place} {question : Question} {onward : Route}
    (owns : layout.Owns e.journal (.asked p question onward)) (below : p.root = .call call)
    (first : p ∉ e.settled) (templates : Templates) (answer : Answer) :
    let result := question.judge templates answer
    let after := Engine.deliver onward result ((e.markSettled p).note (.judged p answer result))
    .told p after.1 :: after.2.journal = o.account call p answer result e.journal := by
  obtain ⟨w, i, outer, rfl, found, handed⟩ := Layout.handle?_eq_some owns.1
  obtain ⟨_, _, _, _, _, -, equal⟩ := Opening.handle?_eq_some handed
  obtain ⟨-, rfl⟩ : _ ∧ onward = outer.route w := by simpa using equal
  obtain ⟨earlier, checks, lagging, -⟩ := h.judge owns first templates answer
  obtain ⟨_, _, _, _, latest, -⟩ := lagging.latest
  cases latest
  obtain ⟨report, journal⟩ := deliver_account root plain _ rfl lagging found below rfl
  exact congrArg₂ (fun report journal => .told (w.member i) report :: journal) report journal

/-- The first settlement of a handle of a plain call notes its account. -/
theorem settle_account (root : layout (.call call) = some o) (plain : o.Plain) (h : Sound layout e)
    {p : Place} {question : Question} {onward : Route}
    (owns : layout.Owns e.journal (.asked p question onward)) (below : p.root = .call call)
    (first : p ∉ e.settled) (answer : Answer) :
    (Engine.settle (.asked p question onward) answer e).2.journal =
      o.account call p answer (question.judge (e.templatesOf question.definition) answer)
        e.journal := by
  have fresh : ¬ e.isSettled p = true := by simpa [Engine.isSettled] using first
  rw [← judged_account root plain h owns below first, Engine.settle, Engine.answer, Engine.once,
    if_neg fresh]
  rfl

/-- **The journal of a run recounts every plain call.** -/
theorem Trace.recounts {finish : Layout × Engine} (trace : Trace (.empty, .empty) finish) :
    Answered finish.2.journal ∧ ∀ call o, finish.1 (.call call) = some o → o.Plain →
      Recounts call o [] finish.2.journal := by
  obtain ⟨answered, told⟩ := Trace.chronicle trace
  refine ⟨answered, fun call o root plain => told call o root _ ?_⟩
  exact fun root h _ _ _ owns below first templates answer =>
    judged_account root plain h owns below first templates answer

end Criteria
