import Mathlib.Data.List.Nodup
import Criteria.Proofs.Progress.Submission

/-!
# Submissions come in time

A member submits its result when it has just come to it, and the list has heard of everything but this
(`Submission.Timely`). `Submits` says of a stretch of a run that all its submissions are such ones, that no member
submits twice, and that a list has been submitted just the results that its members have come to. Stretches are put
together by `Submits.trans`: what is submitted in a later one was undecided before it.
-/

namespace Criteria
set_option autoImplicit false

variable {layout later : Layout} {e : Engine}

/-- A member submits the result that it comes to when the journal becomes `now`, from `earlier`. -/
structure Submission.Fits (layout : Layout) (s : Submission) (o : Opening) (i : Nat) (check : Check)
    (earlier now : Journal) : Prop where
  opened : layout.opening? s.list = some o
  place : s.member = s.list.member i
  here : o.checks[i]? = some check
  before : check.outcome? o.value s.member earlier = none
  after : check.outcome? o.value s.member now = some s.result
  /-- The list has heard of all the results that were there before, and of no more. -/
  record : s.record = o.combinator.progress o.checks.length o.value (o.results s.list earlier)
  room : (o.results s.list earlier).length < o.checks.length

/-- Whether a submission between two moments comes with an event there. -/
def Submission.Timely (layout : Layout) (first last : Journal) (s : Submission) : Prop :=
  ∃ o i check event earlier, s.Fits layout o i check earlier (event :: earlier) ∧
    first <:+ earlier ∧ event :: earlier <:+ last

namespace Submission

variable {s : Submission} {first last : Journal}

theorem Timely.mono (h : s.Timely layout first last) {start finish : Journal} (ahead : start <:+ first)
    (behind : last <:+ finish) : s.Timely layout start finish := by
  obtain ⟨o, i, check, event, earlier, fits, begun, ended⟩ := h
  exact ⟨o, i, check, event, earlier, fits, ahead.trans begun, ended.trans behind⟩

theorem Timely.extend (h : s.Timely layout first last) (ext : layout.Extends later) :
    s.Timely later first last := by
  obtain ⟨o, i, check, event, earlier, fits, begun, ended⟩ := h
  exact ⟨o, i, check, event, earlier, { fits with opened := ext.opening? fits.opened }, begun, ended⟩

theorem Fits.outcome? {o : Opening} {i : Nat} {check : Check} {earlier now : Journal}
    (h : s.Fits layout o i check earlier now) (journal : Journal) :
    layout.outcome? s.member journal = check.outcome? o.value s.member journal := by
  obtain ⟨opened, place, here, -⟩ := h
  rw [place, Layout.outcome?_member, opened, Option.bind_some, here, Option.bind_some]

/-- Before the submission the member has come to nothing. -/
theorem Timely.undecided (h : s.Timely layout first last) : layout.outcome? s.member first = none := by
  obtain ⟨o, i, check, event, earlier, fits, begun, -⟩ := h
  rw [fits.outcome?]
  cases decided : check.outcome? o.value s.member first with
  | none => rfl
  | some result => cases fits.before.symm.trans ((Check.lasting_outcome _ _ check).mono begun decided)

/-- After the submission the member has come to what it has submitted. -/
theorem Timely.decided (h : s.Timely layout first last) :
    layout.outcome? s.member last = some s.result := by
  obtain ⟨o, i, check, event, earlier, fits, -, ended⟩ := h
  rw [fits.outcome?]
  exact (Check.lasting_outcome _ _ check).mono ended fits.after

end Submission

/-- The results that are submitted to the list at a place. -/
def submittedTo (p : Place) (log : List Submission) : List Result :=
  (log.filter fun s => s.list = p).map (·.result)

theorem submittedTo_append (p : Place) (log more : List Submission) :
    submittedTo p (log ++ more) = submittedTo p log ++ submittedTo p more := by
  rw [submittedTo, List.filter_append, List.map_append, submittedTo, submittedTo]

theorem submittedTo_cons (p : Place) (s : Submission) (log : List Submission) :
    submittedTo p (s :: log) = (if s.list = p then [s.result] else []) ++ submittedTo p log := by
  by_cases here : s.list = p <;> simp [submittedTo, here]

/-- What is submitted in a stretch of a run, where `view` says for each list of what it has heard before. -/
structure Submits (layout : Layout) (view : Place → Journal) (first last : Journal) (log : List Submission) :
    Prop where
  suffix : first <:+ last
  timely : ∀ s ∈ log, s.Timely layout first last
  distinct : (log.map (·.member)).Nodup
  counted : ∀ p o, layout.opening? p = some o →
    o.results p last = o.results p (view p) ++ submittedTo p log

/-- A stretch between two moments at which every list has heard of everything. -/
abbrev Hands (layout : Layout) (first last : Journal) : List Submission → Prop :=
  Submits layout (fun _ => first) first last

namespace Submits

variable {view : Place → Journal} {first middle last : Journal} {log more : List Submission}

/-- Nothing is submitted where no member comes to a result. -/
theorem nothing (suffix : first <:+ last)
    (same : ∀ p o, layout.opening? p = some o → o.results p last = o.results p first) :
    Hands layout first last [] :=
  ⟨suffix, nofun, List.nodup_nil, fun p o found => (same p o found).trans (List.append_nil _).symm⟩

theorem refl (layout : Layout) (journal : Journal) : Hands layout journal journal [] :=
  nothing List.suffix_rfl fun _ _ _ => rfl

/-- An event that judges nothing. -/
theorem note {event : Event} (untouched : ∀ p, ¬ event.Touches p) (journal : Journal) :
    Hands layout journal (event :: journal) [] :=
  nothing (List.suffix_cons _ _) fun p _ _ => Opening.results_cons_of_untouched (untouched p)

/-- **One stretch after another.** What is submitted in the second is decided in it, so it is not by a member that
has submitted in the first. -/
theorem trans (before : Submits layout view first middle log) (after : Hands layout middle last more) :
    Submits layout view first last (log ++ more) where
  suffix := before.suffix.trans after.suffix
  timely s mem := by
    rcases List.mem_append.1 mem with mem | mem
    · exact (before.timely s mem).mono List.suffix_rfl after.suffix
    · exact (after.timely s mem).mono before.suffix List.suffix_rfl
  distinct := by
    rw [List.map_append]
    refine List.nodup_append'.2 ⟨before.distinct, after.distinct, fun p mem other => ?_⟩
    obtain ⟨s, here, rfl⟩ := List.mem_map.1 mem
    obtain ⟨t, there, same⟩ := List.mem_map.1 other
    have decided := (before.timely s here).decided
    rw [← same, (after.timely t there).undecided] at decided
    cases decided
  counted p o found := by
    rw [after.counted p o found, before.counted p o found, submittedTo_append, List.append_assoc]

/-- A stretch with one more event, which judges nothing. -/
theorem noted (h : Submits layout view first last log) {event : Event} (untouched : ∀ p, ¬ event.Touches p) :
    Submits layout view first (event :: last) log := by
  have both := h.trans (note untouched last)
  rwa [List.append_nil] at both

/-- A stretch up to a moment is one by another view in which every list has the same results. -/
theorem congr {view' : Place → Journal} {first' : Journal} (h : Submits layout view first last log)
    (suffix : first' <:+ first)
    (same : ∀ p o, layout.opening? p = some o → o.results p (view p) = o.results p (view' p)) :
    Submits layout view' first' last log where
  suffix := suffix.trans h.suffix
  timely s mem := (h.timely s mem).mono suffix List.suffix_rfl
  distinct := h.distinct
  counted p o found := (h.counted p o found).trans (by rw [same p o found])

/-- Lists of which nothing has come change nothing. -/
theorem extend (h : Submits layout view first last log) (ext : layout.Extends later)
    (new : ∀ p o, later.opening? p = some o → layout.opening? p = none →
      o.results p last = o.results p (view p)) : Submits later view first last log where
  suffix := h.suffix
  timely s mem := (h.timely s mem).extend ext
  distinct := h.distinct
  counted p o found := by
    cases known : layout.opening? p with
    | some own =>
      obtain rfl := Option.some.inj (found.symm.trans (ext.opening? known))
      exact h.counted p o known
    | none =>
      have unsubmitted : submittedTo p log = [] := by
        rw [submittedTo, List.map_eq_nil_iff, List.filter_eq_nil_iff]
        intro s mem here
        obtain ⟨own, _, _, _, _, fits, -⟩ := h.timely s mem
        rw [← of_decide_eq_true here, fits.opened] at known
        cases known
      rw [new p o found known, unsubmitted, List.append_nil]

end Submits

end Criteria
