import Criteria.Proofs.Call.Report
import Criteria.Proofs.Run.Chronicle

/-!
# What a first settlement sets off among nested validators

A failure travels up through the lists that enclose a handle, also through validators that serve as
rules. Whoever settles the handle first is told the failure of the outermost clause of a conjunction
that has newly failed on that way (`Opening.told`), and nothing if there is none. Everything that is
judged on the way is judged at places that enclose the handle, and nothing rises above a validator that
has answered before (`Event.Rises`). `deliver_told` follows a result through the lists.
-/

namespace Criteria
set_option autoImplicit false

variable {layout : Layout} {e e' e'' : Engine}

/-! ## The lists of one call -/

namespace Opening

/-- The list at a path below a list that stands at a root. -/
def at? (first : Opening) (root : Root) : List Nat → Option Opening
  | [] => some first
  | i :: path => (first.at? root path).bind fun o => o.member? ⟨root, path⟩ i

/-- Whether the clauses on the way down to a place have come to the same in two journals. -/
def Agree (first : Opening) (root : Root) (way : List Nat) (journal journal' : Journal) : Prop :=
  ∀ k path, k :: path <:+ way → ∀ o, first.at? root path = some o →
    o.clause? ⟨root, path⟩ k journal = o.clause? ⟨root, path⟩ k journal'

/-- What is told of a change of the clause at a position of the list at a path: its failure, if the
list is a conjunction. -/
def toldAt (first : Opening) (root : Root) (before last : Journal) (path : List Nat) (i : Nat) :
    Report :=
  match first.at? root path with
  | none => .ok ()
  | some o =>
    if o.combinator = .all then
      toldOf (o.clause? ⟨root, path⟩ i before) (o.clause? ⟨root, path⟩ i last)
    else .ok ()

/-- What a settler is told of changes on the way down to a place: the failure of the outermost clause
of a conjunction that has newly failed. -/
def told (first : Opening) (root : Root) (before last : Journal) : List Nat → Report
  | [] => .ok ()
  | i :: path =>
    Combinator.all.tell (first.toldAt root before last path i) (first.told root before last path)

variable {first : Opening} {root : Root} {way : List Nat} {before last last' journal : Journal}

theorem Agree.trans (earlier : first.Agree root way before last)
    (later : first.Agree root way last last') : first.Agree root way before last' :=
  fun k path behind o found => (earlier k path behind o found).trans (later k path behind o found)

theorem Agree.mono {wider : List Nat} (h : first.Agree root wider before last)
    (sub : way <:+ wider) : first.Agree root way before last :=
  fun k path behind o found => h k path (behind.trans sub) o found

/-- An event that judges nothing leaves the clauses on every way alone. -/
theorem Agree.cons (journal : Journal) {event : Event} (untouched : ∀ p, ¬ event.Touches p) :
    first.Agree root way journal (event :: journal) := by
  intro k path _ o _
  rw [clause?, clause?]
  exact Option.bind_congr fun check _ =>
    (Check.outcome?_cons_of_untouched _ _ (untouched _) check).symm

theorem toldAt_of_agree {path : List Nat} {i : Nat} (agree : first.Agree root (i :: path) before last) :
    first.toldAt root before last path i = .ok () := by
  rw [toldAt]
  split
  · rfl
  next o found => rw [agree i path (List.suffix_refl _) o found, toldOf_same, ite_self]

theorem toldAt_congr {path : List Nat} {i : Nat} (agree : first.Agree root (i :: path) last last') :
    first.toldAt root before last path i = first.toldAt root before last' path i := by
  rw [toldAt, toldAt]
  split
  · rfl
  next o found => rw [agree i path (List.suffix_refl _) o found]

/-- Nothing is told if no clause on the way has changed. -/
theorem told_of_agree : ∀ {way : List Nat}, first.Agree root way before last →
    first.told root before last way = .ok ()
  | [], _ => rfl
  | i :: path, agree => by
    rw [told, told_of_agree (agree.mono (List.suffix_cons i path)), toldAt_of_agree agree]
    rfl

/-- What is told depends on the clauses on the way only. -/
theorem told_congr : ∀ {way : List Nat}, first.Agree root way last last' →
    first.told root before last way = first.told root before last' way
  | [], _ => rfl
  | i :: path, agree => by
    rw [told, told, told_congr (agree.mono (List.suffix_cons i path)), toldAt_congr agree]

/-- The failure of an outer clause is told to whoever settles further down. -/
theorem told_of_error {outer : List Nat} {f : Failure}
    (failed : first.told root before last outer = .error f) :
    ∀ {way : List Nat}, outer <:+ way → first.told root before last way = .error f
  | [], behind => by
    rw [List.eq_nil_of_suffix_nil behind] at failed
    exact failed
  | i :: path, behind => by
    rcases List.suffix_cons_iff.1 behind with rfl | inside
    · exact failed
    · rw [told, told_of_error failed inside]
      rfl

end Opening

/-- The lists of a call follow from the one that it started with. -/
theorem Layout.below_eq_at? {root : Root} {first : Opening} (here : layout root = some first)
    (path : List Nat) : layout.below root path = first.at? root path := by
  induction path with
  | nil => exact here
  | cons i path ih => rw [below, Opening.at?, ih]

/-! ## How far a settlement reaches -/

/-- Whether an event concerns places that enclose a place, if it concerns any. -/
def Event.Above (event : Event) (p : Place) : Prop :=
  match event with
  | .judged q _ _ => q.Encloses p
  | .told q _ => q.Encloses p
  | .completed _ _ => True
  | .repeated q => q.Encloses p
  | _ => False

/-- Whether an event concerns places strictly inside a place only. -/
def Event.Inside (event : Event) (x : Place) : Prop :=
  match event with
  | .judged q _ _ => x.Encloses q ∧ q ≠ x
  | .told q _ => x.Encloses q ∧ q ≠ x
  | .repeated q => x.Encloses q ∧ q ≠ x
  | _ => False

/-- Whether an event concerns places on the way up from a list, as far as the first clause that was
settled before, which may be settled again. -/
def Event.Rises (settled : List Place) (w : Place) (event : Event) : Prop :=
  event.Above w ∧ ∀ x, x.Encloses w → x.path ≠ [] → x ∈ settled → event ≠ .repeated x →
    event.Inside x

/-- Whether all that has happened since an earlier state is of a kind. -/
def Since (kind : Event → Prop) (e e' : Engine) : Prop :=
  ∃ news, e'.journal = news ++ e.journal ∧ ∀ event ∈ news, kind event

namespace Since

variable {kind wider : Event → Prop}

theorem refl (kind : Event → Prop) (e : Engine) : Since kind e e :=
  ⟨[], rfl, fun _ mem => by cases mem⟩

theorem trans (first : Since kind e e') (second : Since kind e' e'') : Since kind e e'' := by
  obtain ⟨news, grows, all⟩ := first
  obtain ⟨more, grows', all'⟩ := second
  refine ⟨more ++ news, by rw [grows', grows, List.append_assoc], fun event mem => ?_⟩
  exact (List.mem_append.1 mem).elim (all' event) (all event)

theorem mono (h : Since kind e e') (sub : ∀ event, kind event → wider event) : Since wider e e' := by
  obtain ⟨news, grows, all⟩ := h
  exact ⟨news, grows, fun event mem => sub event (all event mem)⟩

theorem note {event : Event} (fits : kind event) (e : Engine) : Since kind e (e.note event) :=
  ⟨[event], rfl, fun _ mem => List.mem_singleton.1 mem ▸ fits⟩

end Since

/-- What concerns places above a place is on the way through one member of a list only. -/
theorem Event.Above.member_unique {event : Event} {p q : Place} {i j : Nat} (above : event.Above q)
    (touches : event.Touches (p.member j)) (way : (p.member i).Encloses q) : j = i := by
  cases event with
  | judged q' _ _ => exact Place.member_unique (touches.trans above) way
  | _ => exact touches.elim

/-- What is above a place is above all that lies inside. -/
theorem Event.Above.inside {event : Event} {w p : Place} (above : event.Above w)
    (encloses : w.Encloses p) : event.Above p := by
  cases event with
  | judged | told | repeated => exact above.trans encloses
  | _ => exact above

/-- What rises from an enclosing list rises from the list of a member that was not settled. -/
theorem Event.Rises.of_member {event : Event} {w : Place} {k : Nat} {settled later : List Place}
    (h : event.Rises later w) (kept : ∀ x ∈ settled, x ∈ later) (open_ : w.member k ∉ settled) :
    event.Rises settled (w.member k) := by
  refine ⟨h.1.inside (w.encloses_member k), fun x encloses below mem => h.2 x ?_ below (kept x mem)⟩
  refine (Place.encloses_member_iff.1 encloses).resolve_left ?_
  rintro rfl
  exact open_ mem

/-- What concerns a place that is not settled rises from there. -/
theorem Event.Rises.of_fresh {event : Event} {p : Place} {settled : List Place} (fresh : p ∉ settled)
    (above : event.Above p) (inside : ∀ x, x.Encloses p ∧ p ≠ x → event.Inside x) :
    event.Rises settled p := by
  refine ⟨above, fun x encloses _ mem _ => inside x ⟨encloses, ?_⟩⟩
  rintro rfl
  exact fresh mem

/-- Whatever a list does with a result, only what it passes on can be noted. -/
theorem takeIn_since {kind : Event → Prop} (e : Engine) (p : Place) (combinator : Combinator)
    (value : Json) (result : Result) {next : Result → Engine → Report × Engine}
    (further : ∀ decision e', e'.settled = e.settled → Since kind e' (next decision e').2) :
    Since kind e (e.takeIn p combinator value result next).2 := by
  have put : ∀ progress, Since kind e (e.putList p progress) := fun _ =>
    ⟨[], rfl, fun _ mem => by cases mem⟩
  unfold Engine.takeIn
  split
  · exact .refl kind e
  · dsimp only
    split
    · split
      · exact (put _).trans (further _ _ rfl)
      · exact put _
    · exact put _

theorem complete_since {kind : Event → Prop} (e : Engine) (call : Nat) (result : Result)
    (fits : kind (.completed call result)) : Since kind e (e.complete call result).2 := by
  unfold Engine.complete
  split
  · exact .refl kind e
  · exact ⟨[], rfl, fun _ mem => by cases mem⟩
  · exact ⟨[_], rfl, fun _ mem => List.mem_singleton.1 mem ▸ fits⟩

/-- The place from which a route goes up. -/
def Route.place? : Route → Option Place
  | .call id => some (.ofCall id)
  | .list p _ _ _ => some p
  | .detached _ => none
  | .answer p _ _ => some p

/-- A list in a call passes its decision on from its own place, or, as the list of a group, from the list
around it. -/
theorem Placed.place_onward {call : Nat} {p : Place} {o : Opening} (h : Placed layout e)
    (below : p.root = .call call) (found : layout.opening? p = some o) :
    ∃ w, o.onward.place? = some w ∧ w.Encloses p ∧
      (w = p ∨ ∃ k, p = w.member k ∧ layout.handle? p = none) := by
  obtain root | ⟨w, k, rfl⟩ := p.root_or_member
  · have top : p = .ofCall call := by rw [root, below]
    rw [root, below] at found
    obtain ⟨-, onward, -⟩ := h.calls call o found
    exact ⟨p, by rw [onward, top]; rfl, .refl p, .inl rfl⟩
  · obtain ⟨outer, above, member⟩ := Layout.opening?_member_eq_some found
    obtain ⟨members, group, rfl⟩ | ⟨_, _, _, _, _, _, -, -, rfl⟩ := Opening.member?_eq_some member
    · refine ⟨w, rfl, w.encloses_member k, .inr ⟨k, rfl, ?_⟩⟩
      rw [Layout.handle?_member, above, Option.bind_some, Opening.handle?, group]
    · exact ⟨_, rfl, .refl _, .inl rfl⟩

/-- **What goes along a route of a call** concerns the places on the way up only. -/
theorem deliver_rises {call : Nat} {placed : Engine} (h : Placed layout placed) (route : Route) :
    ∀ {w : Place}, layout.Carries route → route.place? = some w → w.root = .call call →
      ∀ (result : Result) (e : Engine),
        (∀ x ∈ e.settled, x.path ≠ [] → ∃ handle, layout.handle? x = some handle) →
        Since (Event.Rises e.settled w) e (Engine.deliver route result e).2 := by
  induction route with
  | call id =>
    intro w _ place _ result e _
    obtain rfl := Option.some.inj place
    refine complete_since e id result ⟨trivial, fun x encloses inside _ => ?_⟩
    rw [encloses.eq_root] at inside
    exact absurd rfl inside
  | list p combinator value onward ih =>
    rintro w ⟨o, found, same⟩ place below result e asks
    obtain rfl : p = w := Option.some.inj place
    obtain ⟨rfl, rfl, rfl⟩ : o.combinator = combinator ∧ o.value = value ∧ o.onward = onward := by
      simpa [Opening.route] using same
    have carried := h.carries_onward found
    refine takeIn_since e p _ _ _ fun decision e' unsettled => ?_
    rw [← unsettled] at asks ⊢
    obtain ⟨w, next, -, rfl | ⟨k, rfl, unasked⟩⟩ := h.place_onward below found
    · exact ih carried next below decision e' asks
    · refine (ih carried next below decision e' asks).mono fun event rises =>
        rises.of_member (fun _ => id) fun mem => ?_
      obtain ⟨handle, handed⟩ := asks _ mem (by simp [Place.member])
      rw [unasked] at handed
      cases handed
  | detached p =>
    intro w _ place
    cases place
  | answer p question onward ih =>
    intro w handed place below result e asks
    obtain rfl : p = w := Option.some.inj place
    have handed : layout.handle? p = some (.asked p question onward) := handed
    rw [Engine.deliver, Engine.answer, Engine.once]
    split
    · refine .note ⟨.refl _, fun x encloses _ _ other => ⟨encloses, ?_⟩⟩ e
      rintro rfl
      exact other rfl
    next fresh =>
      have first : p ∉ e.settled := by simpa [Engine.isSettled] using fresh
      have marked : ∀ answer result, Since (Event.Rises e.settled p) e
          ((e.markSettled p).note (.judged p answer result)) := fun answer result =>
        .note (.of_fresh first (.refl _) fun _ encloses => encloses) (e.markSettled p)
      have told : ∀ report, (Event.told p report).Rises e.settled p := fun _ =>
        .of_fresh first (.refl _) fun _ encloses => encloses
      obtain ⟨w, k, outer, rfl, above, asked⟩ := Layout.handle?_eq_some handed
      obtain ⟨_, _, _, _, _, -, equal⟩ := Opening.handle?_eq_some asked
      obtain ⟨-, rfl⟩ : _ ∧ onward = outer.route w := by simpa using equal
      have further := fun result => ih (Layout.carries_onward_of_handle? handed) rfl below result
      refine ((marked _ _).trans ((further _ _ ?_).mono fun event rises =>
        rises.of_member (fun x mem => List.mem_cons_of_mem _ mem) first)).trans (.note (told _) _)
      intro x mem inside
      rcases List.mem_cons.1 mem with rfl | mem
      · exact ⟨_, handed⟩
      · exact asks x mem inside

/-! ## What is told -/

section

variable {call : Nat} {first : Opening} {earlier : Journal} {result : Result} {p q : Place}
  {answer : Answer} {judgement : Result} {o : Opening} {i : Nat}

/-- The lists above have the same clauses as before if the check that the list belongs to has come to
the same. -/
theorem Lagging.agree (h : Lagging layout e earlier p result) (root : layout p.root = some first)
    (found : layout.opening? p = some o)
    (same : layout.outcome? p e.journal = layout.outcome? p earlier) :
    first.Agree p.root p.path earlier e.journal := by
  intro k path behind outer here
  obtain ⟨q, answer, judgement, i, latest, below⟩ := h.latest
  have opened : layout.opening? ⟨p.root, path⟩ = some outer :=
    (Layout.below_eq_at? root path).trans here
  have touches : (Event.judged q answer judgement).Touches (Place.member ⟨p.root, path⟩ k) := by
    have inside : (Place.member ⟨p.root, path⟩ k).Encloses p := ⟨rfl, behind⟩
    exact inside.trans ((p.encloses_member i).trans below)
  have other : (⟨p.root, path⟩ : Place) ≠ p := by
    intro equal
    have same : path = p.path := congrArg Place.path equal
    have longer := behind.length_le
    rw [← same, List.length_cons] at longer
    omega
  have encloses : Place.Encloses ⟨p.root, path⟩ p := ⟨rfl, (List.suffix_cons k path).trans behind⟩
  have results := h.results_above found same encloses other opened
  rw [latest] at results ⊢
  exact (Opening.clause?_of_no_arrival touches results).symm

/-- A clause of a list on the way has newly come to the result that the list takes in. -/
theorem Lagging.clause? (h : Lagging layout e earlier p result) (found : layout.opening? p = some o)
    (judged : e.journal = .judged q answer judgement :: earlier) (below : (p.member i).Encloses q) :
    o.clause? p i earlier = none ∧ o.clause? p i e.journal = some result := by
  have news := h.news o found
  have touches : (Event.judged q answer judgement).Touches (p.member i) := below
  rw [judged] at news ⊢
  exact Opening.clause?_of_arrival touches news

/-- What a list tells of the result of one of its clauses itself: a conjunction tells of a failure. -/
def Combinator.tells : Combinator → Result → Report
  | .all, result => result.map fun _ => ()
  | .any, _ => .ok ()

theorem Opening.toldAt_new {root : Root} {path : List Nat} {begun last : Journal}
    (here : first.at? root path = some o) (before : o.clause? ⟨root, path⟩ i begun = none)
    (after : o.clause? ⟨root, path⟩ i last = some result) :
    first.toldAt root begun last path i = o.combinator.tells result := by
  rw [Opening.toldAt, here]
  dsimp only
  rw [before, after, toldOf_new]
  cases o.combinator <;> rfl

/-- A list that keeps its result tells of it itself. -/
theorem Combinator.ownReport_of_kept {combinator : Combinator} {size : Nat} {value : Json}
    {results : List Result} (room : results.length < size)
    (kept : combinator.passesOn size value results result = none) :
    combinator.ownReport size value results result = combinator.tells result := by
  cases combinator with
  | all => rfl
  | any => exact ownReport_any_of_kept room kept

/-- What comes of passing a decision on is told first, and then what the list tells itself. -/
theorem Combinator.tell_passed (combinator : Combinator) (size : Nat) (value : Json)
    (results : List Result) (result : Result) (raised : Report) :
    combinator.tell (combinator.ownReport size value results result) raised =
      Combinator.all.tell (combinator.tells result) raised := by
  cases combinator with
  | all => rfl
  | any => cases raised <;> rfl

/-- Whether a result goes along a route of a call whose lists have come to nothing new on the way down
since the journal at the beginning, but for what the result says. -/
def Telling (first : Opening) (call : Nat) (begun : Journal) (e : Engine) (way : List Nat) :
    Route → Prop
  | .list p _ _ _ => p.root = .call call ∧ ∃ i q answer judgement earlier, way = i :: p.path ∧
      e.journal = .judged q answer judgement :: earlier ∧ (p.member i).Encloses q ∧
      first.Agree (.call call) way begun earlier
  | .answer p _ _ => p.root = .call call ∧ way = p.path ∧ first.Agree (.call call) way begun e.journal
  | _ => False

/-- The clause on the way has its result in every later journal in which no more is judged below it. -/
theorem Opening.clause?_later {news journal : Journal} (rises : ∀ event ∈ news, event.Above p)
    (o : Opening) (i : Nat) : o.clause? p i (news ++ journal) = o.clause? p i journal := by
  induction news with
  | nil => rfl
  | cons event news ih =>
    rw [← ih fun event mem => rises event (List.mem_cons_of_mem _ mem), List.cons_append,
      Opening.clause?, Opening.clause?]
    refine Option.bind_congr fun check _ => Check.outcome?_cons_of_untouched _ _ ?_ check
    have above := rises event List.mem_cons_self
    intro touches
    cases event with
    | judged q answer result => exact Place.not_member_encloses p i (touches.trans above)
    | _ => exact touches

/-- What a list passes on is noted of places that enclose it. -/
theorem Lagging.passed_above (h : Lagging layout e earlier p result) (below : p.root = .call call)
    (found : layout.opening? p = some o) (decision : Result) :
    Since (Event.Above · p) e (Engine.deliver o.onward decision (Lagging.taken e p o)).2 := by
  have carried := h.carries_onward found
  have asks : ∀ x ∈ e.settled, x.path ≠ [] → ∃ handle, layout.handle? x = some handle := h.asks
  obtain ⟨w, place, encloses, -⟩ := h.place_onward below found
  exact (deliver_rises h.toPlaced o.onward carried place (encloses.1.trans below) decision
    (Lagging.taken e p o) asks).mono fun event rises => rises.1.inside encloses

/-! ### A list on the way

A clause of the list has newly come to a result, and the clauses further up have come to nothing new
since the journal at the beginning. -/

section

variable {begun : Journal} {decision : Result} (h : Lagging layout e earlier p result)
  (root : layout (.call call) = some first) (below : p.root = .call call)
  (found : layout.opening? p = some o) (judged : e.journal = .judged q answer judgement :: earlier)
  (inside : (p.member i).Encloses q) (agree : first.Agree (.call call) (i :: p.path) begun earlier)

include h root below found judged inside agree

/-- What the list tells itself, as long as nothing more is judged below it. -/
theorem Lagging.toldAt_later (news : Journal) (rises : ∀ event ∈ news, event.Above p) :
    first.toldAt (.call call) begun (news ++ e.journal) p.path i = o.combinator.tells result := by
  obtain ⟨before, after⟩ := h.clause? found judged inside
  have place : p = ⟨.call call, p.path⟩ := by rw [← below]
  have here : first.at? (.call call) p.path = some o := by
    rw [← Layout.below_eq_at? root, ← below]
    exact found
  refine Opening.toldAt_new here ?_ ?_
  · rw [agree i p.path (List.suffix_refl _) _ here, ← place]
    exact before
  · rw [← place, Opening.clause?_later rises]
    exact after

/-- If the list keeps the result, it tells of it itself and nothing is told further up. -/
theorem Lagging.told_kept
    (kept : o.combinator.passesOn o.checks.length o.value (o.results p earlier) result = none) :
    o.combinator.ownReport o.checks.length o.value (o.results p earlier) result =
      first.told (.call call) begun e.journal (i :: p.path) := by
  obtain ⟨-, room⟩ := h.list found
  have start : layout p.root = some first := below ▸ root
  have unchanged := h.outcome?_same found (h.decision?_kept found kept)
  have outside := agree.mono (List.suffix_cons i p.path)
  have above : first.Agree (.call call) p.path begun e.journal :=
    outside.trans (below ▸ h.agree start found unchanged)
  have itself := h.toldAt_later root below found judged inside agree [] fun _ mem => by cases mem
  rw [List.nil_append] at itself
  rw [Opening.told, itself, Opening.told_of_agree above]
  exact Combinator.ownReport_of_kept room kept

/-- The list of the call hands its decision to the call, which has no more to tell than the result. -/
theorem Lagging.told_root (top : p = .ofCall call)
    (passes : o.combinator.passesOn o.checks.length o.value (o.results p earlier) result =
      some decision) :
    o.combinator.tell (o.combinator.ownReport o.checks.length o.value (o.results p earlier) result)
        (Engine.deliver o.onward decision (taken e p o)).1 =
      first.told (.call call) begun (Engine.deliver o.onward decision (taken e p o)).2.journal
        (i :: p.path) := by
  obtain ⟨news, grows, rises⟩ := h.passed_above below found decision
  have itself := h.toldAt_later root below found judged inside agree news rises
  subst top
  obtain rfl : first = o := Option.some.inj (root.symm.trans found)
  obtain ⟨conjunction, onward, -⟩ := h.calls call first root
  obtain ⟨c, recorded, -⟩ := (h.reported call first root).record
  have completes := complete_eq (e := taken e (.ofCall call) first) recorded decision
  rw [← grows] at itself
  rw [Opening.told, itself]
  rw [conjunction] at passes ⊢
  rw [onward]
  exact (congrArg _ completes.1).trans (tell_all passes)

/-- Any other list hands its decision on to the list above, or to the clause that it answers for. -/
theorem Lagging.told_member {w : Place} {k : Nat} (member : p = w.member k)
    (passes : o.combinator.passesOn o.checks.length o.value (o.results p earlier) result =
      some decision)
    (further : Telling first call begun (taken e p o) p.path o.onward →
      (Engine.deliver o.onward decision (taken e p o)).1 = first.told (.call call) begun
        (Engine.deliver o.onward decision (taken e p o)).2.journal p.path) :
    o.combinator.tell (o.combinator.ownReport o.checks.length o.value (o.results p earlier) result)
        (Engine.deliver o.onward decision (taken e p o)).1 =
      first.told (.call call) begun (Engine.deliver o.onward decision (taken e p o)).2.journal
        (i :: p.path) := by
  obtain ⟨news, grows, rises⟩ := h.passed_above below found decision
  have itself := h.toldAt_later root below found judged inside agree news rises
  have start : layout p.root = some first := below ▸ root
  have outside := agree.mono (List.suffix_cons i p.path)
  subst member
  rw [← grows] at itself
  rw [Opening.told, itself, Combinator.tell_passed]
  refine congrArg _ (further ?_)
  obtain ⟨outer, above, member⟩ := Layout.opening?_member_eq_some found
  obtain ⟨members, group, rfl⟩ | ⟨_, _, _, _, _, _, rule, -, rfl⟩ := Opening.member?_eq_some member
  · exact ⟨below, k, q, answer, judgement, earlier, rfl, judged,
      ((w.member k).encloses_member i).trans inside, outside⟩
  · exact ⟨below, rfl, outside.trans
      (below ▸ h.agree start found (h.outcome?_rule rfl above rule))⟩

end

/-- **What is told of a result** that goes along a route of a call. -/
theorem deliver_told (root : layout (.call call) = some first) (route : Route) :
    ∀ {e : Engine} {result : Result} {way : List Nat} {begun : Journal}, Ready layout e route result →
      Telling first call begun e way route →
      (Engine.deliver route result e).1 =
        first.told (.call call) begun (Engine.deliver route result e).2.journal way := by
  induction route with
  | list p combinator value onward ih =>
    rintro e result _ begun ⟨earlier, checks, h, found⟩
      ⟨below, i, q, answer, judgement, same, rfl, judged, inside, agree⟩
    obtain ⟨held, room⟩ := h.list found
    obtain ⟨_, _, _, _, latest, -⟩ := h.latest
    rw [judged] at latest
    obtain ⟨-, rfl⟩ := List.cons.inj latest
    rw [Engine.deliver]
    cases passes : combinator.passesOn checks.length value
        (Opening.results ⟨combinator, checks, value, onward⟩ p same) result with
    | none =>
      rw [Engine.takeIn_kept held room passes]
      exact h.told_kept root below found judged inside agree passes
    | some decision =>
      rw [Engine.takeIn_passed held room passes, ← h.taken_eq found]
      obtain ⟨undecided, decided⟩ := h.decision?_passed found passes
      obtain top | ⟨w, k, member⟩ := p.root_or_member
      · exact h.told_root root below found judged inside agree (by rw [top, below]) passes
      · exact h.told_member root below found judged inside agree member passes
          (ih (h.ready_passed found undecided decided))
  | answer p question onward ih =>
    rintro e result _ begun ⟨sound, owns⟩ ⟨below, rfl, agree⟩
    obtain ⟨w, i, outer, rfl, found, asked⟩ := Layout.handle?_eq_some owns.1
    obtain ⟨_, _, _, _, _, -, equal⟩ := Opening.handle?_eq_some asked
    obtain ⟨-, rfl⟩ : _ ∧ onward = outer.route w := by simpa using equal
    have unchanged : ∀ (event : Event) (journal : Journal), event.Plain →
        first.Agree (.call call) (w.member i).path journal (event :: journal) :=
      fun event journal plain => Opening.Agree.cons journal plain.untouched
    rw [Engine.deliver, Engine.answer, Engine.once]
    split
    · exact (Opening.told_of_agree (agree.trans (unchanged (.repeated _) _ trivial))).symm
    next fresh =>
      have first : w.member i ∉ e.settled := by simpa [Engine.isSettled] using fresh
      exact (ih (sound.judge owns first _ _) ⟨below, i, _, _, _, _, rfl, rfl, .refl _, agree⟩).trans
        (Opening.told_congr (unchanged (.told _ _) _ trivial))
  | call | detached =>
    intro e result way begun _ telling
    exact telling.elim

end

/-! ## Accounts -/

/-- What the journal notes of a first settlement in any call: the settler is told of the outermost
clause that has newly failed on the way, all else is judged at places that enclose the handle, and what
was judged before shields all that encloses it, unless it is settled again. -/
def Opening.Recounted (first : Opening) (call : Nat) : Account := fun p answer result before whole =>
  ∃ report during, whole = .told p report :: (during ++ .judged p answer result :: before) ∧
    report = first.told (.call call) before (during ++ .judged p answer result :: before) p.path ∧
    (∀ event ∈ during, event.Above p) ∧
    ∀ x, x.Encloses p → x ≠ p → (judgement? x before).isSome = true → ∀ event ∈ during,
      event ≠ .repeated x → event.Inside x

/-- What was judged is settled. -/
theorem Placed.settled_of_judged (h : Placed layout e) {x : Place}
    (judged : (judgement? x e.journal).isSome = true) : x ∈ e.settled ∧ x.path ≠ [] := by
  obtain ⟨result, found⟩ := Option.isSome_iff_exists.1 judged
  obtain ⟨answer, mem⟩ := mem_of_judgement? found
  obtain ⟨-, question, onward, templates, handed, -⟩ := h.judged x answer result mem
  refine ⟨(h.settled x _ handed).2 judged, fun top => ?_⟩
  rw [Layout.handle?, top] at handed
  cases handed

/-- **The first settlement of a handle of a call** is noted as the account says. -/
theorem accounts_recounted (first : Opening) (call : Nat) :
    Accounts (first.Recounted call) call first := by
  intro layout e root h p question onward owns below unsettled templates answer result after
  obtain ⟨w, i, outer, rfl, found, asked⟩ := Layout.handle?_eq_some owns.1
  obtain ⟨_, _, _, _, _, -, equal⟩ := Opening.handle?_eq_some asked
  obtain ⟨-, rfl⟩ : _ ∧ onward = outer.route w := by simpa using equal
  have asks : ∀ x ∈ ((e.markSettled (w.member i)).note (.judged (w.member i) answer result)).settled,
      x.path ≠ [] → ∃ handle, layout.handle? x = some handle := by
    intro x mem inside
    rcases List.mem_cons.1 mem with rfl | mem
    · exact ⟨_, owns.1⟩
    · exact h.asks x mem inside
  obtain ⟨during, grows, rises⟩ := deliver_rises h.toPlaced (outer.route w)
    (Layout.carries_onward_of_handle? owns.1) rfl below result _ asks
  have told : after.1 = first.told (.call call) e.journal after.2.journal (w.member i).path :=
    deliver_told root (outer.route w) (h.judge owns unsettled templates answer)
      ⟨below, i, _, _, _, _, rfl, rfl, .refl _, fun _ _ _ _ _ => rfl⟩
  refine ⟨after.1, during, congrArg _ grows, ?_, fun event mem =>
    (rises event mem).1.inside (w.encloses_member i), fun x encloses other judged event mem first => ?_⟩
  · rw [told]
    exact congrArg (first.told _ _ · _) grows
  · obtain ⟨settled, inside⟩ := h.toPlaced.settled_of_judged judged
    exact (rises event mem).2 x ((Place.encloses_member_iff.1 encloses).resolve_left other) inside
      (List.mem_cons_of_mem _ settled) first

end Criteria
