import Criteria.Proofs.Engine.Intake
import Criteria.Proofs.Layout.Change

/-!
# Sound engines

An engine is sound for a layout if everything in it stands where the layout puts it and agrees with
the journal: kept handles are those of started rule clauses, a handle is settled iff its question was
judged, each list holds the results of its checks in the order of their arrival, and each call has
been told what its list has come to. Between the judgement of a question and the end of its delivery
the lists on the way up lag behind the journal; `Lagging` describes these moments.
-/

namespace Criteria
set_option autoImplicit false

/-- Whether the rule body at a place was invoked. -/
def Issued (p : Place) (journal : Journal) : Prop :=
  ∃ rule scripted value params, Event.invoked p rule scripted value params ∈ journal

/-- What the completion of a call received, the latest first. -/
def completions (call : Nat) (journal : Journal) : List Result :=
  journal.filterMap fun
    | .completed id result => if id = call then some result else none
    | _ => none

/-- What a call returned, and what had happened by then. -/
def returned? (call : Nat) : Journal → Option (Result × Journal)
  | [] => none
  | .returned id result :: earlier =>
    if id = call then some (result, earlier) else returned? call earlier
  | _ :: earlier => returned? call earlier

/-- What the caller and the completion have been told agrees with a decision, where `decisions` says
what had been decided at other times: before the return the completion learns of success only; a
failure by then is returned and never reaches it; after that it learns every decision. -/
def Delivered (call : Nat) (decisions : Journal → Option Result) (journal : Journal)
    (decision : Option Result) : Prop :=
  match returned? call journal with
  | none => completions call journal = (decision.filter Except.isOk).toList
  | some (result, before) =>
    (result = .ok true ∧ (∀ f, decisions before ≠ some (.error f)) ∧
      completions call journal = decision.toList) ∨
    ∃ f, result = .error f ∧ decisions before = some (.error f) ∧ decision = some (.error f) ∧
      completions call journal = []

namespace Engine

/-- Whether the list at a place was opened. -/
def Opened (e : Engine) (p : Place) : Prop := e.lists.get? p ≠ none

/-- Whether anything has been started at a place. -/
def Known (e : Engine) (p : Place) : Prop := e.Opened p ∨ Issued p e.journal

/-- The record of a call agrees with the journal and with a decision of its list. -/
structure CallStands (e : Engine) (call : Nat) (o : Opening) (decision : Option Result) : Prop where
  record : ∃ c, e.calls.get? call = some c ∧ c.value = o.value ∧
    c.returned = (returned? call e.journal).map Prod.fst ∧
    (c.returned = none → c.failure = decision.bind Result.failure?) ∧
    c.completed = (completions call e.journal).head?
  delivered : Delivered call (o.decision? (.ofCall call)) e.journal decision

end Engine

/-- Whether a handle is the one of its place and was handed out. -/
def Layout.Owns (layout : Layout) (journal : Journal) : Handle → Prop
  | .detached p => p.path = []
  | .asked p question onward =>
    layout.handle? p = some (.asked p question onward) ∧ Issued p journal

/-- Whether a handle answers for no validator: a validator that serves as a rule settles the handle of
its clause itself and hands it out to nobody. -/
def Layout.Free (layout : Layout) : Handle → Prop
  | .detached _ => True
  | .asked p _ _ => layout.opening? p = none

/-- Whether a handle was handed out to a body that may keep it. -/
structure Layout.Lends (layout : Layout) (journal : Journal) (handle : Handle) : Prop where
  owns : layout.Owns journal handle
  free : layout.Free handle

/-- Everything in an engine stands where the layout puts it. -/
structure Placed (layout : Layout) (e : Engine) : Prop where
  wellFormed : layout.WellFormed
  calls : ∀ call o, layout (.call call) = some o →
    o.combinator = .all ∧ o.onward = .call call ∧ call < e.calls.size
  loose : ∀ n o, layout (.loose n) = some o →
    o.combinator = .all ∧ n < e.loose ∧ ∃ h, layout.Lends e.journal h ∧ o.onward = h.route
  above : ∀ p i, e.Known (p.member i) → e.Opened p
  opened : ∀ p, e.Opened p → ∃ o, layout.opening? p = some o
  asked : ∀ p h, e.Opened p → layout.handle? p = some h → Issued p e.journal
  roots : ∀ root, Issued ⟨root, []⟩ e.journal → ∃ n, root = .loose n ∧ n < e.loose
  parked : ∀ h, some h ∈ e.parked → layout.Lends e.journal h
  settled : ∀ p h, layout.handle? p = some h →
    (p ∈ e.settled ↔ (judgement? p e.journal).isSome = true)
  asks : ∀ p, p ∈ e.settled → p.path ≠ [] → ∃ h, layout.handle? p = some h
  judged : ∀ p answer result, Event.judged p answer result ∈ e.journal → Issued p e.journal ∧
    ∃ question onward templates, layout.handle? p = some (.asked p question onward) ∧
      result = question.judge templates answer
  unheard : ∀ call, e.calls.size ≤ call →
    returned? call e.journal = none ∧ completions call e.journal = []

/-- Each list holds what the results say that it has as of the journal in its view. -/
def Synced (layout : Layout) (e : Engine) (view : Place → Journal) : Prop :=
  ∀ p progress, e.lists.get? p = some progress → ∃ o, layout.opening? p = some o ∧
    progress = o.combinator.progress o.checks.length o.value (o.results p (view p))

/-- Each call has been told what its list had come to as of a journal. -/
def Reported (layout : Layout) (e : Engine) (journal : Journal) : Prop :=
  ∀ call o, layout (.call call) = some o →
    e.CallStands call o (o.decision? (.ofCall call) journal)

/-- An engine between two actions. -/
structure Sound (layout : Layout) (e : Engine) : Prop extends Placed layout e where
  lists : Synced layout e fun _ => e.journal
  reported : Reported layout e e.journal

/-- An engine in which the list at a place is about to take in a result: a judgement below that list
has just been noted, and the list, those on the way to it and the calls have not heard of it. -/
structure Lagging (layout : Layout) (e : Engine) (earlier : Journal) (p : Place) (result : Result) :
    Prop extends Placed layout e where
  latest : ∃ q answer judgement i,
    e.journal = .judged q answer judgement :: earlier ∧ (p.member i).Encloses q
  lists : Synced layout e fun x => if x.Encloses p then earlier else e.journal
  reported : Reported layout e earlier
  here : e.Opened p
  news : ∀ o, layout.opening? p = some o →
    o.results p e.journal = o.results p earlier ++ [result]

/-! ## Events that change nothing -/

/-- An event that neither invokes a body nor judges a question. -/
def Event.Plain : Event → Prop
  | .invoked _ _ _ _ _ => False
  | .judged _ _ _ => False
  | _ => True

/-- The call that an event is news of. -/
def Event.call? : Event → Option Nat
  | .completed call _ => some call
  | .returned call _ => some call
  | _ => none

/-- A plain event that is no news of a call. -/
def Event.Silent : Event → Prop
  | .completed _ _ => False
  | .returned _ _ => False
  | event => event.Plain

theorem Event.Silent.plain {event : Event} (silent : event.Silent) : event.Plain := by
  cases event <;> first | exact silent | trivial

theorem Event.Silent.call? {event : Event} (silent : event.Silent) : event.call? = none := by
  cases event <;> first | rfl | exact silent.elim

theorem Event.Plain.untouched {event : Event} (plain : event.Plain) (p : Place) :
    ¬ event.Touches p := by
  cases event <;> first | exact id | exact plain.elim

theorem issued_cons_of_plain {event : Event} (plain : event.Plain) {p : Place} {journal : Journal} :
    Issued p (event :: journal) ↔ Issued p journal := by
  constructor
  · rintro ⟨rule, scripted, value, params, mem⟩
    rcases List.mem_cons.1 mem with rfl | mem
    · exact plain.elim
    · exact ⟨rule, scripted, value, params, mem⟩
  · rintro ⟨rule, scripted, value, params, mem⟩
    exact ⟨rule, scripted, value, params, List.mem_cons_of_mem _ mem⟩

theorem Issued.cons {p : Place} {journal : Journal} (h : Issued p journal) (event : Event) :
    Issued p (event :: journal) := by
  obtain ⟨rule, scripted, value, params, mem⟩ := h
  exact ⟨rule, scripted, value, params, List.mem_cons_of_mem _ mem⟩

theorem Issued.mono {p : Place} {earlier later : Journal} (h : Issued p earlier)
    (sub : earlier <:+ later) : Issued p later := by
  obtain ⟨rule, scripted, value, params, mem⟩ := h
  exact ⟨rule, scripted, value, params, sub.subset mem⟩

theorem issued_cons_judged {p q : Place} {answer : Answer} {result : Result} {journal : Journal} :
    Issued p (.judged q answer result :: journal) ↔ Issued p journal := by
  constructor
  · rintro ⟨rule, scripted, value, params, mem⟩
    rcases List.mem_cons.1 mem with h | mem
    · cases h
    · exact ⟨rule, scripted, value, params, mem⟩
  · exact fun h => h.cons _

theorem Layout.Owns.mono {layout later : Layout} {earlier journal : Journal} {h : Handle}
    (owns : layout.Owns earlier h) (ext : layout.Extends later) (sub : earlier <:+ journal) :
    later.Owns journal h := by
  cases h with
  | detached p => exact owns
  | asked p question onward => exact ⟨ext.handle? owns.1, owns.2.mono sub⟩

/-- A handle of a rule clause is free in a layout that adds to one in which it is. -/
theorem Layout.Lends.mono {layout later : Layout} {earlier journal : Journal} {h : Handle}
    (lends : layout.Lends earlier h) (ext : layout.Extends later) (sub : earlier <:+ journal) :
    later.Lends journal h := by
  refine ⟨lends.owns.mono ext sub, ?_⟩
  obtain ⟨owns, free⟩ := lends
  cases h with
  | detached p => trivial
  | asked p question onward =>
    obtain ⟨w, i, o, rfl, found, -⟩ := Layout.handle?_eq_some owns.1
    have free : layout.opening? (w.member i) = none := free
    rw [Layout.opening?_member, found] at free
    rw [Layout.Free, Layout.opening?_member, ext.opening? found]
    exact free

theorem completions_cons_of_other {event : Event} {call : Nat} (other : event.call? ≠ some call)
    (journal : Journal) : completions call (event :: journal) = completions call journal := by
  cases event with
  | completed id result =>
    have different : id ≠ call := by simpa [Event.call?] using other
    simp [completions, different]
  | _ => rfl

theorem returned?_cons_of_other {event : Event} {call : Nat} (other : event.call? ≠ some call)
    (journal : Journal) : returned? call (event :: journal) = returned? call journal := by
  cases event with
  | returned id result =>
    have different : id ≠ call := by simpa [Event.call?] using other
    rw [returned?, if_neg different]
  | _ => rfl

theorem Event.Silent.other {event : Event} (silent : event.Silent) (call : Nat) :
    event.call? ≠ some call := by
  simp [silent.call?]

theorem Delivered.congr {call : Nat} {decisions : Journal → Option Result}
    {journal journal' : Journal} {decision : Option Result}
    (h : Delivered call decisions journal decision)
    (returns : returned? call journal' = returned? call journal)
    (completes : completions call journal' = completions call journal) :
    Delivered call decisions journal' decision := by
  rw [Delivered, returns, completes]
  exact h

/-- A call stands as before if its record, its return and its completions are as before. -/
theorem Engine.CallStands.congr {e e' : Engine} {call : Nat} {o : Opening}
    {decision : Option Result} (h : e.CallStands call o decision)
    (record : e'.calls.get? call = e.calls.get? call)
    (returns : returned? call e'.journal = returned? call e.journal)
    (completes : completions call e'.journal = completions call e.journal) :
    e'.CallStands call o decision := by
  refine ⟨?_, h.delivered.congr returns completes⟩
  rw [record, returns, completes]
  exact h.record

theorem Opening.decision?_cons_of_plain {o : Opening} {p : Place} {event : Event}
    (plain : event.Plain) (journal : Journal) :
    o.decision? p (event :: journal) = o.decision? p journal :=
  Opening.decision?_cons_of_untouched (plain.untouched p)

theorem judgement?_cons_of_plain {p : Place} {event : Event} (plain : event.Plain)
    (journal : Journal) : judgement? p (event :: journal) = judgement? p journal :=
  judgement?_cons_of_untouched (plain.untouched p)

theorem mem_judged_cons_of_plain {event : Event} (plain : event.Plain) {p : Place}
    {answer : Answer} {result : Result} {journal : Journal} :
    Event.judged p answer result ∈ event :: journal ↔ Event.judged p answer result ∈ journal := by
  refine ⟨fun mem => ?_, List.mem_cons_of_mem _⟩
  rcases List.mem_cons.1 mem with rfl | mem
  · exact plain.elim
  · exact mem

theorem Placed.note {layout : Layout} {e : Engine} (h : Placed layout e) {event : Event}
    (plain : event.Plain) (known : ∀ call, event.call? = some call → call < e.calls.size) :
    Placed layout (e.note event) where
  wellFormed := h.wellFormed
  calls := h.calls
  loose n o found := by
    obtain ⟨conjunction, bound, handle, lends, onward⟩ := h.loose n o found
    exact ⟨conjunction, bound, handle, lends.mono (.refl _) (List.suffix_cons _ _), onward⟩
  above p i known := h.above p i (known.imp_right (issued_cons_of_plain plain).1)
  opened := h.opened
  asked p handle opened found := (h.asked p handle opened found).cons _
  roots root issued := h.roots root ((issued_cons_of_plain plain).1 issued)
  parked handle mem := (h.parked handle mem).mono (.refl _) (List.suffix_cons _ _)
  settled p handle found := by
    rw [show (e.note event).journal = event :: e.journal from rfl, judgement?_cons_of_plain plain]
    exact h.settled p handle found
  asks := h.asks
  judged p answer result mem := by
    obtain ⟨issued, asked⟩ := h.judged p answer result ((mem_judged_cons_of_plain plain).1 mem)
    exact ⟨issued.cons _, asked⟩
  unheard call beyond := by
    have other : event.call? ≠ some call := fun same => Nat.not_lt.2 beyond (known call same)
    rw [show (e.note event).journal = event :: e.journal from rfl,
      returned?_cons_of_other other, completions_cons_of_other other]
    exact h.unheard call beyond

theorem Synced.note {layout : Layout} {e : Engine} (h : Synced layout e fun _ => e.journal)
    {event : Event} (plain : event.Plain) :
    Synced layout (e.note event) fun _ => (e.note event).journal := by
  intro p progress found
  obtain ⟨o, opened, same⟩ := h p progress found
  refine ⟨o, opened, ?_⟩
  rw [same, ← Opening.results_cons_of_untouched (plain.untouched p)]
  rfl

/-- Noting what concerns no body, no question and no call keeps an engine sound. -/
theorem Sound.note {layout : Layout} {e : Engine} (h : Sound layout e) (event : Event)
    (silent : event.Silent) : Sound layout (e.note event) where
  toPlaced := h.toPlaced.note silent.plain fun call same => absurd same (silent.other call)
  lists := h.lists.note silent.plain
  reported call o found := by
    rw [show (e.note event).journal = event :: e.journal from rfl,
      Opening.decision?_cons_of_plain silent.plain]
    exact (h.reported call o found).congr rfl (returned?_cons_of_other (silent.other call) _)
      (completions_cons_of_other (silent.other call) _)

/-! ## Parking and marking -/

/-- Keeping a handle that was handed out. -/
theorem Sound.park {layout : Layout} {e : Engine} (h : Sound layout e) {handle : Handle}
    (lends : layout.Lends e.journal handle) : Sound layout (e.park handle) where
  toPlaced := { h.toPlaced with
    parked := by
      intro kept mem
      rcases List.mem_append.1 mem with mem | mem
      · exact h.parked kept mem
      · obtain rfl : kept = handle := by simpa using mem
        exact lends }
  lists := h.lists
  reported call o found := (h.reported call o found).congr rfl rfl rfl

/-- Forgetting a handle. -/
theorem Sound.dropParked {layout : Layout} {e : Engine} (h : Sound layout e) (index : Nat) :
    Sound layout (e.dropParked index) where
  toPlaced := { h.toPlaced with
    parked := by
      intro kept mem
      rcases List.mem_or_eq_of_mem_set mem with mem | equal
      · exact h.parked kept mem
      · cases equal }
  lists := h.lists
  reported call o found := (h.reported call o found).congr rfl rfl rfl

/-- Settling a handle that nobody asks for. -/
theorem Sound.markDetached {layout : Layout} {e : Engine} (h : Sound layout e) {p : Place}
    (detached : p.path = []) : Sound layout (e.markSettled p) where
  toPlaced := { h.toPlaced with
    settled := by
      intro q handle found
      have other : q ≠ p := by
        rintro rfl
        rw [Layout.handle?, detached] at found
        cases found
      refine Iff.trans ?_ (h.settled q handle found)
      exact ⟨fun mem => (List.mem_cons.1 mem).resolve_left other, List.mem_cons_of_mem _⟩
    asks := by
      intro q mem inside
      rcases List.mem_cons.1 mem with rfl | mem
      · exact absurd detached inside
      · exact h.asks q mem inside }
  lists := h.lists
  reported call o found := (h.reported call o found).congr rfl rfl rfl

theorem Engine.mem_of_parked? {e : Engine} {index : Nat} {handle : Handle}
    (kept : e.parked? index = some handle) : some handle ∈ e.parked := by
  rw [Engine.parked?, Option.join_eq_some_iff] at kept
  exact List.mem_of_getElem? kept

theorem Sound.lends_parked? {layout : Layout} {e : Engine} (h : Sound layout e) {index : Nat}
    {handle : Handle} (kept : e.parked? index = some handle) : layout.Lends e.journal handle :=
  h.parked handle (Engine.mem_of_parked? kept)

end Criteria
