import Criteria.Proofs.Isolation.Route
import Criteria.Proofs.Mirror.Evaluation
import Criteria.Proofs.Run.Move

/-!
# Settlements of one's own handles

A result that travels among others enters a region only by a handle that the region has handed out. So
what happens in the region can be had from the settlements of these handles alone: `settlementsOf` reads
them off a journal, and `Shadowed` says that an engine in which they are made again, one after the
other, mirrors the engine in which they were made among others. Delivery keeps this so
(`deliver_shadowed`): a result that enters the region is one more settlement there.
-/

namespace Criteria
set_option autoImplicit false

/-! ## Settlements in a journal -/

namespace Move

/-- The settlement that an event tells of, if it is that of a handle in one of the given slots. -/
def settlement? (slots : List (Option Handle)) : Event → Option Move
  | .judged p answer _ =>
    (slots.findIdx? fun slot => slot.any fun handle => handle.place == p).map fun index =>
      .settle index answer
  | _ => none

/-- The settlements of handles in the given slots that a journal tells of, in order. -/
def settlementsOf (slots : List (Option Handle)) (news : Journal) : List Move :=
  news.reverse.filterMap (settlement? slots)

variable {slots : List (Option Handle)}

theorem settlementsOf_append (later earlier : Journal) :
    settlementsOf slots (later ++ earlier) =
      settlementsOf slots earlier ++ settlementsOf slots later := by
  rw [settlementsOf, List.reverse_append, List.filterMap_append]
  rfl

theorem settlementsOf_eq_nil {news : Journal}
    (silent : ∀ event ∈ news, settlement? slots event = none) : settlementsOf slots news = [] :=
  List.filterMap_eq_nil_iff.2 fun event mem => silent event (List.mem_reverse.1 mem)

/-- A judgement that settles nothing else on its way. -/
theorem settlementsOf_judgement {p : Place} {answer : Answer} {result : Result} {report : Report}
    {more news : Journal} (silent : ∀ event ∈ more, settlement? slots event = none) :
    settlementsOf slots (.told p report :: (more ++ .judged p answer result :: news)) =
      settlementsOf slots news ++ (settlement? slots (.judged p answer result)).toList := by
  have split : Event.told p report :: (more ++ .judged p answer result :: news) =
      [.told p report] ++ (more ++ ([.judged p answer result] ++ news)) := by simp
  have told : settlementsOf slots [.told p report] = [] := rfl
  rw [split, settlementsOf_append, settlementsOf_append, settlementsOf_append, told,
    settlementsOf_eq_nil silent, List.append_nil, List.append_nil]
  rfl

theorem settlement?_eq_none {p : Place} (elsewhere : ∀ handle, some handle ∈ slots → handle.place ≠ p)
    (answer : Answer) (result : Result) : settlement? slots (.judged p answer result) = none := by
  rw [settlement?, Option.map_eq_none_iff, List.findIdx?_eq_none_iff]
  intro slot mem
  cases slot with
  | none => rfl
  | some handle => simpa using elsewhere handle mem

theorem settlement?_eq_some {handle : Handle} (mem : some handle ∈ slots)
    (unique : ∀ other, some other ∈ slots → other.place = handle.place → other = handle)
    (answer : Answer) (result : Result) : ∃ index, slots[index]? = some (some handle) ∧
      settlement? slots (.judged handle.place answer result) = some (.settle index answer) := by
  cases found : slots.findIdx? fun slot => slot.any fun other => other.place == handle.place with
  | none =>
    have here := List.findIdx?_eq_none_iff.1 found (some handle) mem
    simp at here
  | some index =>
    obtain ⟨inside, here, -⟩ := List.findIdx?_eq_some_iff_getElem.1 found
    have at_index : slots[index]? = some slots[index] := List.getElem?_eq_getElem inside
    cases slot : slots[index] with
    | none => simp [slot] at here
    | some other =>
      rw [slot] at at_index here
      have same : other.place = handle.place := by simpa using here
      obtain rfl := unique other (List.mem_of_getElem? at_index) same
      exact ⟨index, at_index, by rw [settlement?, found]; rfl⟩

end Move

/-! ## Entrances -/

variable {view : View} {region : Root → Bool} {slots : List (Option Handle)}

/-- The handles by which results enter a region: what is judged there is passed on inside the region,
and past no other of these handles. -/
structure Entrances (region : Root → Bool) (slots : List (Option Handle)) : Prop where
  within : ∀ handle, some handle ∈ slots → handle.route.Within region
  unique : ∀ handle other, some handle ∈ slots → some other ∈ slots →
    other.place = handle.place → other = handle
  quiet : ∀ p question onward, some (.asked p question onward) ∈ slots → ∀ x, onward.Passes x →
    ∀ handle, some handle ∈ slots → handle.place ≠ x

/-- Whether a route stays outside a region or enters it by one of the given handles. -/
def Route.Enters (region : Root → Bool) (slots : List (Option Handle)) : Route → Prop
  | .call id => region (.call id) = false
  | .list p _ _ onward => region p.root = false ∧ onward.Enters region slots
  | .detached p => p.path = []
  | .answer p question onward => some (.asked p question onward) ∈ slots ∨
      region p.root = false ∧ p.path ≠ [] ∧ onward.Enters region slots

theorem Route.Within.enters : (route : Route) → (route.Within fun root => !region root) →
    route.Enters region slots
  | .call _, other => by simpa [Route.Within, Route.Enters] using other
  | .detached _, root => root
  | .list _ _ _ onward, ⟨other, within⟩ => ⟨by simpa using other, enters onward within⟩
  | .answer _ _ onward, ⟨other, inner, within⟩ =>
    .inr ⟨by simpa using other, inner, enters onward within⟩

/-- A place outside the region is that of no entrance. -/
theorem Entrances.elsewhere (entrances : Entrances region slots) {p : Place}
    (other : region p.root = false) (inner : p.path ≠ []) :
    ∀ handle, some handle ∈ slots → handle.place ≠ p := by
  rintro handle mem rfl
  have within := entrances.within handle mem
  cases handle with
  | detached p => exact inner within
  | asked p question onward =>
    have mine : region p.root = true := within.1
    have other : region p.root = false := other
    rw [mine] at other
    cases other

/-! ## Engines in the shadow of others -/

/-- The engine mirrors one that has started from `base` with the settlements of the handles in the slots
alone, as the journal since `start` tells of them. -/
def Shadowed (view : View) (region : Root → Bool) (slots : List (Option Handle))
    (start base e : Engine) : Prop :=
  ∃ news, e.journal = news ++ start.journal ∧
    Mirrors view region e (base.run (Move.settlementsOf slots news)) ∧
    (base.run (Move.settlementsOf slots news)).parked = slots

namespace Shadowed

variable {start base e e' : Engine}

/-- What is mirrored as before and settles no handle in the slots. -/
theorem onward (h : Shadowed view region slots start base e)
    (mirrored : ∀ s, Mirrors view region e s → Mirrors view region e' s) {events : Journal}
    (grows : e'.journal = events ++ e.journal)
    (silent : ∀ event ∈ events, Move.settlement? slots event = none) :
    Shadowed view region slots start base e' := by
  obtain ⟨news, since, mirrors, parked⟩ := h
  have same : Move.settlementsOf slots (events ++ news) = Move.settlementsOf slots news := by
    rw [Move.settlementsOf_append, Move.settlementsOf_eq_nil silent, List.append_nil]
  refine ⟨events ++ news, by rw [grows, since, List.append_assoc], ?_, ?_⟩
  · rw [same]
    exact mirrored _ mirrors
  · rw [same]
    exact parked

/-- What spares the region and is not noted. -/
theorem silent (h : Shadowed view region slots start base e) (spared : Spares region e e')
    (same : e'.journal = e.journal) : Shadowed view region slots start base e' :=
  h.onward (fun _ mirrors => mirrors.spares spared (.refl region _))
    (show e'.journal = [] ++ e.journal from same) fun _ impossible => by cases impossible

/-- An event that belongs to no place in the region. -/
theorem note (h : Shadowed view region slots start base e) {event : Event}
    (other : event.root?.any region = false) (silent : Move.settlement? slots event = none) :
    Shadowed view region slots start base (e.note event) :=
  h.onward (fun _ mirrors => mirrors.spares (.note other) (.refl region _))
    (show (e.note event).journal = [event] ++ e.journal from rfl)
    fun _ mem => List.mem_singleton.1 mem ▸ silent

theorem complete (h : Shadowed view region slots start base e) {call : Nat}
    (other : region (.call call) = false) (result : Result) :
    Shadowed view region slots start base (e.complete call result).2 := by
  unfold Engine.complete
  split
  · exact h
  · exact h.silent (.updateCall other _) rfl
  · exact (h.silent (.updateCall other _) rfl).note other rfl

theorem takeIn (h : Shadowed view region slots start base e) {p : Place}
    (other : region p.root = false) (combinator : Combinator) (value : Json) (result : Result)
    {next : Result → Engine → Report × Engine}
    (further : ∀ {e : Engine} (result : Result), Shadowed view region slots start base e →
      Shadowed view region slots start base (next result e).2) :
    Shadowed view region slots start base (e.takeIn p combinator value result next).2 := by
  have put : ∀ progress, Shadowed view region slots start base (e.putList p progress) :=
    fun progress => h.silent (.putList other progress) rfl
  unfold Engine.takeIn
  split
  · exact h
  · dsimp only
    split
    · split
      · exact further _ (put _)
      · exact put _
    · exact put _

/-- A question outside the region. -/
theorem answer (h : Shadowed view region slots start base e) (entrances : Entrances region slots)
    {p : Place} (other : region p.root = false) (inner : p.path ≠ []) (question : Question)
    (given : Answer) {next : Result → Engine → Report × Engine}
    (further : ∀ {e : Engine} (result : Result), Shadowed view region slots start base e →
      Shadowed view region slots start base (next result e).2) :
    Shadowed view region slots start base (e.answer p question given next).2 := by
  have judged : ∀ result, Move.settlement? slots (.judged p given result) = none :=
    Move.settlement?_eq_none (entrances.elsewhere other inner) given
  unfold Engine.answer Engine.once
  split
  · exact h.note rfl rfl
  · have noted : ∀ result, Shadowed view region slots start base
        ((e.markSettled p).note (.judged p given result)) := fun result =>
      (h.silent (.markSettled (.inl other)) rfl).note other (judged result)
    have told : ∀ {e : Engine} {report : Report}, Shadowed view region slots start base e →
        Shadowed view region slots start base (e.note (.told p report)) := fun h => h.note other rfl
    exact told (further _ (noted _))

theorem detached (h : Shadowed view region slots start base e) {p : Place} (root : p.path = []) :
    Shadowed view region slots start base (e.once p fun e => (.ok (), e)).2 := by
  unfold Engine.once
  split
  · exact h.note rfl rfl
  · exact h.silent (.markSettled (.inr root)) rfl

/-- **A result that enters the region is a settlement there.** -/
theorem enter (h : Shadowed view region slots start base e) (entrances : Entrances region slots)
    {p : Place} {question : Question} {onward : Route}
    (mem : some (.asked p question onward) ∈ slots) (given : Answer) :
    Shadowed view region slots start base
      (e.answer p question given (Engine.deliver onward)).2 := by
  have within := entrances.within _ mem
  by_cases settled : e.isSettled p = true
  · rw [Engine.answer, Engine.once, if_pos settled]
    exact h.note rfl rfl
  · obtain ⟨news, since, mirrors, parked⟩ := h
    obtain ⟨result, report, more, journal, asked⟩ := answer_journal question onward given settled
    obtain ⟨index, here, settles⟩ := Move.settlement?_eq_some mem
      (fun other there => entrances.unique _ other mem there) given result
    -- Past the entrance only validators answer, so nothing else settles a handle in the slots.
    have silent : ∀ event ∈ more, Move.settlement? slots event = none := by
      intro event among
      cases event with
      | judged x answer judgement =>
        exact Move.settlement?_eq_none
          (entrances.quiet p question onward mem x (asked x answer judgement among)) answer judgement
      | _ => rfl
    have whole : Move.settlementsOf slots (.told p report :: (more ++ .judged p given result :: news)) =
        Move.settlementsOf slots news ++ [.settle index given] := by
      rw [Move.settlementsOf_judgement silent]
      exact congrArg _ (congrArg Option.toList settles)
    have moved : base.run (Move.settlementsOf slots news ++ [.settle index given]) =
        (Engine.settle (.asked p question onward) given
          (base.run (Move.settlementsOf slots news))).2 := by
      have kept : (base.run (Move.settlementsOf slots news)).parked? index =
          some (.asked p question onward) := by
        rw [Engine.parked?, parked, here]
        rfl
      rw [Engine.run_append]
      generalize base.run (Move.settlementsOf slots news) = shadow at kept ⊢
      simp only [Engine.run, List.foldl_cons, List.foldl_nil, Engine.move, kept]
    refine ⟨.told p report :: (more ++ .judged p given result :: news), ?_, ?_, ?_⟩
    · rw [journal, since]
      simp
    · rw [whole, moved]
      exact (settle_mirrors within given mirrors).engine
    · rw [whole, moved, settle_parked within given _, parked]

end Shadowed

/-- **Delivery among others is a settlement or nothing.** -/
theorem deliver_shadowed (entrances : Entrances region slots) {start base : Engine}
    (route : Route) : route.Enters region slots → ∀ {e : Engine} (result : Result),
      Shadowed view region slots start base e →
        Shadowed view region slots start base (Engine.deliver route result e).2 := by
  induction route with
  | call call => exact fun other _ result h => h.complete other result
  | list p combinator value onward ih =>
    exact fun ⟨other, enters⟩ _ result h => h.takeIn other combinator value result (ih enters)
  | detached p => exact fun root _ _ h => h.detached root
  | answer p question onward ih =>
    rintro (mem | ⟨other, inner, enters⟩) e result h
    · exact h.enter entrances mem _
    · exact h.answer entrances other inner question _ (ih enters)

theorem settle_shadowed (entrances : Entrances region slots) {start base e : Engine}
    {handle : Handle} (enters : handle.route.Enters region slots) (answer : Answer)
    (h : Shadowed view region slots start base e) :
    Shadowed view region slots start base (Engine.settle handle answer e).2 := by
  cases handle with
  | detached p => exact h.detached enters
  | asked p question onward =>
    obtain mem | ⟨other, inner, enters⟩ := enters
    · exact h.enter entrances mem answer
    · exact h.answer entrances other inner question answer (deliver_shadowed entrances onward enters)

end Criteria
