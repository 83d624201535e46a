import Signpost.Proofs.Timing
import Signpost.Resolver

/-!
# Calls to a source

How a call to a source goes for a caller who is told to give up is said by when it ends: if the
caller gives up before, nothing comes of it.

## Main results

* `Resolver.attempt_cases`: how a call to a source goes.
* `Resolver.attempt_of_answers`, `Resolver.attempt_of_fails`, `Resolver.attempt_of_givenUp`
-/

namespace Signpost

namespace Resolver

variable {σ β : Type} {limit : Option Nat} {cancel : Cancel} {start d : Nat} {s : σ}
  {ask : σ → Reply σ β} {b : β}

/-- A call goes well, or badly, or its caller gives up before it is over. -/
theorem attempt_cases (limit : Option Nat) (cancel : Cancel) (start : Nat) (s : σ)
    (ask : σ → Reply σ β) :
    (∃ d b, (ask s).course.Answers limit d b ∧ cancel.before (start + d) = false) ∨
    (∃ d, (ask s).course.Fails limit d ∧ cancel.before (start + d) = false) ∨
    ∀ d, (ask s).course.EndsAt limit d → cancel.before (start + d) = true := by
  by_cases h : ∃ d, (ask s).course.EndsAt limit d ∧ cancel.before (start + d) = false
  · obtain ⟨d, ⟨b, hanswers⟩ | hfails, hcancel⟩ := h
    · exact .inl ⟨d, b, hanswers, hcancel⟩
    · exact .inr (.inl ⟨d, hfails, hcancel⟩)
  · refine .inr (.inr fun d hd => ?_)
    rw [← Bool.not_eq_false]
    exact fun hcancel => h ⟨d, hd, hcancel⟩

theorem attempt_of_answers (h : (ask s).course.Answers limit d b)
    (hcancel : cancel.before (start + d) = false) :
    attempt limit cancel start s ask = (⟨.ok b, some (start + d)⟩, (ask s).after) := by
  have hstart := Cancel.before_eq_false_of_le (Nat.le_add_right start d) hcancel
  simp [attempt, guard, hstart, h.within, hcancel]

theorem attempt_of_fails (h : (ask s).course.Fails limit d)
    (hcancel : cancel.before (start + d) = false) :
    ∃ e after, e ≠ .cancelled ∧
      attempt limit cancel start s ask = (⟨.error e, some (start + d)⟩, after) := by
  have hstart := Cancel.before_eq_false_of_le (Nat.le_add_right start d) hcancel
  obtain ⟨e, hne, hwithin⟩ := h.within
  cases e with
  | cancelled => exact absurd rfl hne
  | timedOut l => exact ⟨_, s, hne, by simp [attempt, guard, hstart, hwithin, hcancel]⟩
  | failed f => exact ⟨_, (ask s).after, hne, by simp [attempt, guard, hstart, hwithin, hcancel]⟩

/-- A call that is given up leaves the source as it was. -/
theorem attempt_of_givenUp
    (h : ∀ d, (ask s).course.EndsAt limit d → cancel.before (start + d) = true) :
    attempt limit cancel start s ask = (⟨.error .cancelled, cancel.moment start⟩, s) := by
  unfold attempt
  split
  -- the caller was told to give up before the call began
  · next hstart => rw [Cancel.moment_of_before hstart]
  · have hguard : guard limit cancel start (ask s).course =
        ⟨.error .cancelled, cancel.moment start⟩ := by
      cases hlasts : ((ask s).course.within limit).2 with
      | none => simp [guard, hlasts]
      | some d => simp [guard, hlasts, h d (Course.within_snd_eq_some_iff.mp hlasts)]
    simp only [hguard]

/-- Whoever waits no longer for a call that would have been over gives it up at some moment. -/
theorem exists_moment (h : cancel ≠ .never ∨ ∃ d, (ask s).course.EndsAt limit d)
    (hpending : ∀ d, (ask s).course.EndsAt limit d → cancel.before (start + d) = true) :
    ∃ t, cancel.moment start = some t := by
  refine Option.isSome_iff_exists.mp (Cancel.isSome_moment (fun hnever => ?_) start)
  -- a caller who never gives up waits for a call that is over at some time
  obtain ⟨d, hd⟩ := h.resolve_left (not_not_intro hnever)
  have hbefore := hpending d hd
  rw [hnever] at hbefore
  cases hbefore

/-- A call ends if its caller gives up at some time, or if it is over at some time. -/
theorem exists_ends_attempt (h : cancel ≠ .never ∨ ∃ d, (ask s).course.EndsAt limit d) :
    ∃ t, (attempt limit cancel start s ask).1.ends = some t := by
  rcases attempt_cases limit cancel start s ask with
    ⟨d, b, hanswers, hcancel⟩ | ⟨d, hfails, hcancel⟩ | hgivenUp
  · exact ⟨start + d, by rw [attempt_of_answers hanswers hcancel]⟩
  · obtain ⟨e, after, -, hattempt⟩ := attempt_of_fails hfails hcancel
    exact ⟨start + d, by rw [hattempt]⟩
  · rw [attempt_of_givenUp hgivenUp]
    exact exists_moment h hgivenUp

end Resolver

end Signpost
