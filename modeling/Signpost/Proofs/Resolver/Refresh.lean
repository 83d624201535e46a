import Signpost.Proofs.Resolver.Attempt

/-!
# Refreshes of a resolver

A refresh calls the sources of a resolver one after another.  What becomes of a call, whether the
source is reconciled, fails, or runs out of time, is seen from the first failure that the refresh
gives and from the sources that it leaves, but decides nothing about the calls that follow: they are
written down as a list of turns, one for each source, each of which begins when the one before it is
over.

## Main definitions

* `Resolver.Turn`: one call of a refresh, and `Resolver.Turn.Goes`: how it goes.
* `Resolver.InSeries`: turns follow each other without a gap.
* `Resolver.firstFailure`: the failure that a refresh gives, of all that it has met.

## Main results

* `Resolver.exists_turns`: the sources take their turns, if every call is over at some time.
* `Resolver.refreshFrom_of_turns`: a refresh is the turns that its sources take.
-/

namespace Signpost

/-- A call that would take longer than its limit runs out of time. -/
theorem Course.within_of_late {β : Type} {c : Course β} {l : Nat}
    (hlate : ∀ d, c.delay = some d → l < d) :
    c.within (some l) = (.error (.timedOut l), some l) := by
  cases hdelay : c.delay with
  | none => simp [within, hdelay]
  | some d => simp [within, hdelay, Nat.not_le_of_gt (hlate d hdelay)]

namespace Resolver

variable {σ α : Type} [Source σ α] {limit : Option Nat} {start middle ends : Nat}

/-! ## Turns -/

/-- One call of a refresh. -/
structure Turn (σ : Type) where
  source : σ
  begins : Nat
  ends : Nat
  outcome : Except CallError Unit
  /-- The source after the call. -/
  left : σ

namespace Turn

/-- When a turn begins and when it is over. -/
def span (t : Turn σ) : Nat × Nat := (t.begins, t.ends)

/-- How a turn goes: the source is called once, and left as its own reply leaves it, unless the call
runs out of time. -/
inductive Goes (limit : Option Nat) : Turn σ → Prop
  | succeeds {s : σ} {begins d : Nat} (h : (Source.refresh s).course.Answers limit d ()) :
      Goes limit ⟨s, begins, begins + d, .ok (), (Source.refresh s).after⟩
  | fails {s : σ} {begins d : Nat} {f : Failure} (hin : (Source.refresh s).course.InTime limit d)
      (hresult : (Source.refresh s).course.result = .error f) :
      Goes limit ⟨s, begins, begins + d, .error (.failed f), (Source.refresh s).after⟩
  | timesOut {s : σ} {begins l : Nat} (hlimit : limit = some l)
      (hlate : ∀ d, (Source.refresh s).course.delay = some d → l < d) :
      Goes limit ⟨s, begins, begins + l, .error (.timedOut l), s⟩

/-- The failure of a turn, which names the source. -/
def failure? (t : Turn σ) : Option Failure :=
  match t.outcome with
  | .ok () => none
  | .error e => some (refreshFailure (Source.name t.source) e)

end Turn

/-- Spans of time follow each other without a gap, from one moment to another. -/
def InSeries : Nat → List (Nat × Nat) → Nat → Prop
  | start, [], ends => start = ends
  | start, span :: rest, ends => span.1 = start ∧ InSeries span.2 rest ends

/-- What is told of the failures that a refresh has met: the first one, if there are any. -/
def firstFailure : List Failure → Except Failure Unit
  | [] => .ok ()
  | f :: _ => .error f

theorem inSeries_append_iff {spans spans' : List (Nat × Nat)} :
    InSeries start (spans ++ spans') ends ↔
      ∃ middle, InSeries start spans middle ∧ InSeries middle spans' ends := by
  induction spans generalizing start with
  | nil => simp [InSeries]
  | cons span rest ih => simp [InSeries, ih, and_assoc]

theorem firstFailure_append_of_ok {failures : List Failure} (h : firstFailure failures = .ok ())
    (others : List Failure) : firstFailure (failures ++ others) = firstFailure others := by
  cases failures with
  | nil => rfl
  | cons f rest => cases h

theorem firstFailure_append_of_error {failures : List Failure} {f : Failure}
    (h : firstFailure failures = .error f) (others : List Failure) :
    firstFailure (failures ++ others) = .error f := by
  cases failures with
  | nil => cases h
  | cons f' rest => exact h

theorem firstFailure_eq_ok_iff {failures : List Failure} :
    firstFailure failures = .ok () ↔ failures = [] := by
  cases failures <;> simp [firstFailure]

namespace Turn.Goes

variable {t : Turn σ}

/-- A turn is one call of its source. -/
theorem attempt_eq (h : t.Goes limit) :
    attempt limit .never t.begins t.source Source.refresh = (⟨t.outcome, some t.ends⟩, t.left) := by
  cases h with
  | succeeds h => exact attempt_of_answers h rfl
  | @fails s begins d f hin hresult =>
    have hwithin : (Source.refresh s).course.within limit = (.error (.failed f), some d) := by
      rw [hin.within, hresult]
      rfl
    simp [attempt, guard, hwithin]
  | timesOut hlimit hlate => simp [attempt, guard, hlimit, Course.within_of_late hlate]

theorem outcome_ne_cancelled (h : t.Goes limit) : t.outcome ≠ .error .cancelled := by
  cases h <;> nofun

/-- A turn goes well just if the source answers in time. -/
theorem failure?_eq_none_iff (h : t.Goes limit) :
    t.failure? = none ↔ ∃ d, (Source.refresh t.source).course.Answers limit d () := by
  cases h with
  | succeeds h => exact iff_of_true rfl ⟨_, h⟩
  | fails hin hresult =>
    exact iff_of_false nofun fun ⟨d, h⟩ => Course.Fails.not_answers (.inl ⟨hin, _, hresult⟩) h
  | timesOut hlimit hlate =>
    exact iff_of_false nofun fun ⟨d, h⟩ => Course.Fails.not_answers (.inr ⟨hlimit, hlate⟩) h

/-- A source whose call is over in time is left as its own reply leaves it. -/
theorem left_eq (h : t.Goes limit) {d : Nat}
    (hin : (Source.refresh t.source).course.InTime limit d) :
    t.left = (Source.refresh t.source).after := by
  cases h with
  | succeeds | fails => rfl
  | timesOut hlimit hlate =>
    exact absurd (hin.2 _ hlimit) (Nat.not_le_of_gt (hlate d hin.1))

end Turn.Goes

/-- A source whose call is over at some time takes a turn at any moment. -/
theorem exists_goes {s : σ} (h : ∃ d, (Source.refresh s).course.EndsAt limit d) (begins : Nat) :
    ∃ t : Turn σ, t.source = s ∧ t.begins = begins ∧ t.Goes limit := by
  obtain ⟨d, ⟨⟨⟩, hanswers⟩ | ⟨hin, f, hresult⟩ | ⟨hlimit, hlate⟩⟩ := h
  · exact ⟨_, rfl, rfl, .succeeds hanswers⟩
  · exact ⟨_, rfl, rfl, .fails hin hresult⟩
  · exact ⟨_, rfl, rfl, .timesOut hlimit hlate⟩

/-- **Every source takes its turn**, if every call is over at some time. -/
theorem exists_turns {sources : List σ}
    (h : ∀ s ∈ sources, ∃ d, (Source.refresh s).course.EndsAt limit d) (start : Nat) :
    ∃ (turns : List (Turn σ)) (ends : Nat), turns.map Turn.source = sources ∧
      (∀ t ∈ turns, t.Goes limit) ∧ InSeries start (turns.map Turn.span) ends := by
  induction sources generalizing start with
  | nil => exact ⟨[], start, rfl, nofun, rfl⟩
  | cons s rest ih =>
    obtain ⟨hfirst, hrest⟩ := List.forall_mem_cons.mp h
    obtain ⟨t, rfl, rfl, hgoes⟩ := exists_goes hfirst start
    obtain ⟨turns, ends, rfl, hothers, hseries⟩ := ih hrest t.ends
    exact ⟨t :: turns, ends, rfl, List.forall_mem_cons.mpr ⟨hgoes, hothers⟩, rfl, hseries⟩

/-- **A refresh is the turns that its sources take**: it is over with the last one, gives the first
failure, and leaves each source as its turn does. -/
theorem refreshFrom_of_turns {turns : List (Turn σ)} (hgoes : ∀ t ∈ turns, t.Goes limit)
    (hseries : InSeries start (turns.map Turn.span) ends) :
    refreshFrom limit .never start (turns.map Turn.source) =
      (⟨firstFailure (turns.filterMap Turn.failure?), some ends⟩, turns.map Turn.left) := by
  induction turns generalizing start with
  | nil =>
    obtain rfl : start = ends := hseries
    rfl
  | cons t rest ih =>
    obtain ⟨hfirst, hothers⟩ := List.forall_mem_cons.mp hgoes
    obtain ⟨rfl, hseries⟩ : t.begins = start ∧ InSeries t.ends (rest.map Turn.span) ends := hseries
    rw [List.map_cons, refreshFrom, hfirst.attempt_eq]
    have hne := hfirst.outcome_ne_cancelled
    cases houtcome : t.outcome with
    | ok =>
      have hfailure : t.failure? = none := by simp [Turn.failure?, houtcome]
      simp [Cancel.afterGivingUp, ih hothers hseries, hfailure]
    | error e =>
      have hfailure : t.failure? = some (refreshFailure (Source.name t.source) e) := by
        simp [Turn.failure?, houtcome]
      cases e with
      | cancelled => exact absurd houtcome hne
      | timedOut | failed => simp [Cancel.afterGivingUp, ih hothers hseries, hfailure, firstFailure]

end Resolver

end Signpost
