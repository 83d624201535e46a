import Signpost.Proofs.Admin.Enrollment

/-!
# Subscriptions after a failed save

A change that cannot be saved is taken back.  The rules are those from before again, and a new
subscription is gone without a trace; but the roster that a removed subscription comes back to is
made anew, with that subscription at the end.  From then on it is told last.

## Main results

* `Desk.perform_of_failed`: a command that could not be saved has made a change that is taken back.
* `Desk.Enrolled.roster_of_failed`: what becomes of the roster.
* `Worker.Drawing.roster_after_failed_save`
* `Worker.failed_removal_reorders_subscribers`: the order is not the one from before.
-/

namespace Signpost.Admin

namespace Desk

variable {d last : Desk} {ids : List Uuid} {command : Command} {failure : Option Failure}
  {applied : Applied} {e : StoreError}

/-- A command that could not be saved has made a change in memory, which is taken back. -/
theorem perform_of_failed (h : d.perform failure command = (applied, last))
    (hfailed : applied.answer = .error (.persistence e)) :
    ∃ draft d', d.amend command = (.pending draft, d') ∧
      last.registry = (d'.undo draft).registry := by
  have hamend := d.amend_underFailure failure command
  unfold perform at h
  rcases hmemory : d.amend command with ⟨outcome | draft, d'⟩ <;> rw [hmemory] at hamend
  -- what is answered at once is not answered that something could not be saved
  · rw [apply_of_answered hamend] at h
    cases h
    rcases outcome_of_amend hmemory with rfl | ⟨refusal, rfl⟩ <;> cases hfailed
  · refine ⟨draft, d', rfl, ?_⟩
    rcases (d'.underFailure failure).save_cases draft with ⟨e', -, hsave⟩ | ⟨store, -, hsave⟩
    · rw [apply_of_saved hamend hsave] at h
      cases h
      cases draft <;> rfl
    · cases draft with
      | routes before =>
        rw [apply_of_pending hamend hsave] at h
        cases h
        cases hfailed
      | subscription id | removal subscription =>
        rw [apply_of_saved hamend hsave] at h
        cases h
        cases hfailed

/-- The roster after a command that could not be saved. -/
theorem Enrolled.roster_of_failed (h : d.Enrolled ids)
    (hfresh : ((d.drawn command).ids ++ ids).Nodup)
    (hperform : d.perform failure command = (applied, last))
    (hfailed : applied.answer = .error (.persistence e)) :
    last.registry.roster.timeout = d.registry.roster.timeout ∧
    ((∀ id, command ≠ .unsubscribe id) → last.registry.roster.all = d.registry.roster.all) ∧
    ∀ id, command = .unsubscribe id → ∃ subscription,
      d.registry.roster.get? id = some subscription ∧
        last.registry.roster.all =
          (d.registry.roster.all.filter fun s => decide (s.id ≠ id)) ++ [subscription] := by
  obtain ⟨draft, d', hamend, hregistry⟩ := perform_of_failed hperform hfailed
  rw [hregistry]
  have hamends := d.amends command
  rw [hamend] at hamends
  generalize d.drawn command = drawn at hamends hfresh
  cases hamends with
  | rules hattempt hchanged =>
    refine ⟨rfl, fun _ => rfl, ?_⟩
    rintro id rfl
    cases hattempt
  | subscribed target =>
    have hnew : d.registry.roster.get? d.mint.fresh.1 = none :=
      h.get?_eq_none (List.nodup_cons.mp hfresh).1
    have hundone := h.wellFormed.all_insert_unsubscribe
      (s := ⟨d.mint.fresh.1, .routeChange, target⟩) hnew
    exact ⟨Roster.timeout_unsubscribe _ _, fun _ => hundone, nofun⟩
  | @unsubscribed id subscription hget =>
    obtain ⟨-, hall⟩ :=
      h.wellFormed.restore_unsubscribe hget (d.registry.roster.unsubscribe id).1.timeout
    refine ⟨?_, fun hother => absurd rfl (hother id), ?_⟩
    · exact (Roster.timeout_restore _ _).trans (Roster.timeout_unsubscribe _ _)
    · rintro _ ⟨⟩
      exact ⟨subscription, hget, hall⟩

end Desk

namespace Worker

variable {key : String} {s : System} {past : List System} {drawn : Drawn} {command : Command}
  {failure : Option Failure} {applied : Applied} {last : Desk} {e : StoreError}

/-- **What becomes of the subscriptions when a command cannot be saved**, in every run from an empty
store in which no identifier is drawn twice.  A command that removes no subscription leaves them as
they were, and the next event is told to the same targets in the same order.  A subscription that
was to be removed is there again with all others, but it comes last, so that the order is the one
from before only if it was the last one anyway. -/
theorem Drawing.roster_after_failed_save (h : Drawing key .empty s past drawn)
    (hsettled : s.phase.isSettled = true)
    (hfresh : ((s.desk.drawn command).ids ++ drawn.ids).Nodup)
    (hperform : s.desk.perform failure command = (applied, last))
    (hfailed : applied.answer = .error (.persistence e)) :
    ((∀ id, command ≠ .unsubscribe id) →
      last.registry.roster.all = s.desk.registry.roster.all ∧
      ∀ directory published event cancel,
        last.registry.roster.notify directory published event cancel =
          s.desk.registry.roster.notify directory published event cancel) ∧
    ∀ id, command = .unsubscribe id → ∃ subscription,
      s.desk.registry.roster.get? id = some subscription ∧
      last.registry.roster.all.Perm s.desk.registry.roster.all ∧
      ∀ c, last.registry.roster.subscribers c =
          ((s.desk.registry.roster.subscribers c).filter fun s => decide (s.id ≠ id)) ++
            [subscription] ∧
        (last.registry.roster.subscribers c = s.desk.registry.roster.subscribers c ↔
          ∃ others, s.desk.registry.roster.subscribers c = others ++ [subscription]) := by
  have henrolled : s.desk.Enrolled drawn.ids :=
    enrolled_of_settled (h.enrolled (List.nodup_append.mp hfresh).2.1) hsettled
  have hwell := henrolled.wellFormed
  obtain ⟨htimeout, hother, hremoval⟩ := henrolled.roster_of_failed hfresh hperform hfailed
  constructor
  · intro hcommand
    refine ⟨hother hcommand, fun directory published event cancel => ?_⟩
    rw [Roster.notify, Roster.notify, htimeout, ← Roster.all_eq_subscribers,
      ← Roster.all_eq_subscribers, hother hcommand]
  · intro id hcommand
    obtain ⟨subscription, hget, hall⟩ := hremoval id hcommand
    refine ⟨subscription, hget, ?_, fun c => ?_⟩
    · rw [hall]
      exact hwell.perm_restore_unsubscribe hget
    · rw [← Roster.all_eq_subscribers, ← Roster.all_eq_subscribers, hall]
      exact ⟨rfl, hwell.restore_unsubscribe_eq_iff hget⟩

/-- Two services subscribe. -/
def twoSubscribers : List Move :=
  [.call 0 (.subscribe (.service "mirror")), .take, .save,
    .call 1 (.subscribe (.service "audit")), .take, .save]

/-- The system with the two subscribers. -/
def withTwoSubscribers : System :=
  (replay (start Desk.opened .empty 4) twoSubscribers).getD (start Desk.opened .empty 4)

/-- The first service wants to leave, and the store fails. -/
def failedLeave : Applied × Desk :=
  withTwoSubscribers.desk.perform (some (.root "disk full")) (.unsubscribe (Mint.nth default 1))

/-- The services are told in the opposite order from then on. -/
theorem roster_after_failed_save_failedLeave :
    failedLeave.1.answer = .error (.persistence (.failed (.root "disk full"))) ∧
      failedLeave.2.registry.roster.all.Perm withTwoSubscribers.desk.registry.roster.all ∧
      (failedLeave.2.registry.roster.subscribers .routeChange).map Subscription.target =
        [.service "audit", .service "mirror"] := by
  have hload : Desk.load "node" .empty 2000 default = .ok Desk.opened := rfl
  have hstart : Drawing "node" .empty (start Desk.opened .empty 4) [] _ := .start .empty 4 hload
  have hmoves : replay (start Desk.opened .empty 4) twoSubscribers = some withTwoSubscribers := rfl
  obtain ⟨past, hrun, -⟩ := hstart.replay twoSubscribers hmoves
  have hfresh : ((withTwoSubscribers.desk.drawn (.unsubscribe (Mint.nth default 1))).ids ++
      (drawnIn (start Desk.opened .empty 4) twoSubscribers ++
        Desk.drawnByLoad "node" .empty default).ids).Nodup := by decide
  have hfailed : failedLeave.1.answer = .error (.persistence (.failed (.root "disk full"))) := rfl
  have hperform : withTwoSubscribers.desk.perform (some (.root "disk full"))
      (.unsubscribe (Mint.nth default 1)) = (failedLeave.1, failedLeave.2) := rfl
  obtain ⟨-, hremoval⟩ := hrun.roster_after_failed_save rfl hfresh hperform hfailed
  obtain ⟨subscription, hget, hperm, horder⟩ := hremoval _ rfl
  refine ⟨hfailed, hperm, ?_⟩
  rw [(horder .routeChange).1]
  cases hget
  decide

/-- **The removal of a subscription that cannot be saved changes the order** in which the
subscribers are told. -/
theorem failed_removal_reorders_subscribers :
    ∃ s past, Run "node" s past ∧ s.phase.isSettled = true ∧ ∃ failure id e,
      (s.desk.perform (some failure) (.unsubscribe id)).1.answer = .error (.persistence e) ∧
      (s.desk.perform (some failure) (.unsubscribe id)).2.registry.roster.subscribers .routeChange ≠
        s.desk.registry.roster.subscribers .routeChange := by
  have hload : Desk.load "node" .empty 2000 default = .ok Desk.opened := rfl
  have hstart : Run "node" (start Desk.opened .empty 4) [] := .start .empty 4 hload
  have hmoves : replay (start Desk.opened .empty 4) twoSubscribers = some withTwoSubscribers := rfl
  obtain ⟨past, hrun⟩ := hstart.replay twoSubscribers hmoves
  exact ⟨_, past, hrun, rfl, .root "disk full", Mint.nth default 1, _, rfl, by decide⟩

end Worker

end Signpost.Admin
