import Signpost.Admin.Worker
import Signpost.Proofs.Admin.Commit

/-!
# What a step does

A command goes through memory and the store in parts, and the worker does one part in every move.
The parts are taken apart here once and for all: what a command comes to in memory, what saving it
comes to, and which moves leave the worker alone.

## Main definitions

* `Draft.before?`: the rules that come back when a change cannot be saved.
* `Worker.Move.sparesWorker`: moves of callers and of the surroundings.

## Main results

* `Desk.amend_cases`, `Desk.save_cases`: all that the parts of a command can come to.
* `Worker.step_of_sparesWorker`: what callers and the surroundings leave alone.
* `Worker.published_of_step`: one move alone changes what everybody may read.
-/

namespace Signpost.Admin

/-! ## Parts of a command -/

/-- The rules that come back if the change cannot be saved, if they are others than now. -/
def Draft.before? : Draft → Option Redirection.Registry
  | .routes before => some before
  | .subscription _ | .removal _ => none

/-- Only changed rules are yet to be published when they have been saved. -/
theorem Draft.saved_cases (draft : Draft) :
    (draft.saved = .pending () ∧ draft.before?.isSome = true) ∨
    ((∃ answer, draft.saved = .answered answer) ∧ draft.before? = none) := by
  cases draft with
  | routes before => exact .inl ⟨rfl, rfl⟩
  | subscription id => exact .inr ⟨⟨_, rfl⟩, rfl⟩
  | removal s => exact .inr ⟨⟨_, rfl⟩, rfl⟩

namespace Desk

/-- In memory a command is answered, changes the rules, or changes the roster. -/
theorem amend_cases (d : Desk) (command : Command) :
    (∃ answer, d.amend command = (.answered answer, d)) ∨
    (∃ a, d.attempt? command = some a ∧ a.verdict = .ok true ∧
      d.amend command = (.pending (.routes d.registry.routes), d.made a)) ∨
    ∃ roster mint draft, draft.before? = none ∧
      d.amend command = (.pending draft, { d.withRoster roster with mint }) := by
  cases hattempt : d.attempt? command with
  | some a =>
    by_cases hchanged : a.verdict = .ok true
    · exact .inr (.inl ⟨a, rfl, hchanged, amend_of_changed hattempt hchanged⟩)
    · exact .inl ⟨_, amend_of_unchanged hattempt hchanged⟩
  | none =>
    cases command with
    | append rules => cases hattempt
    | pop ids => cases hattempt
    | subscribe target => exact .inr (.inr ⟨_, _, _, rfl, rfl⟩)
    | unsubscribe id =>
      cases hget : d.registry.roster.get? id with
      | none => exact .inl ⟨_, by rw [amend, hget]⟩
      | some s => exact .inr (.inr ⟨_, d.mint, .removal s, rfl, by rw [amend, hget]; rfl⟩)

/-- A change is saved with everything else that is in memory, or taken back. -/
theorem save_cases (d : Desk) (draft : Draft) :
    (∃ e, d.store.save d.registry.key d.registry.state = .error e ∧
      d.save draft = (.answered (.error (.persistence e)), d.undo draft)) ∨
    ∃ store, d.store.save d.registry.key d.registry.state = .ok store ∧
      d.save draft = (draft.saved, { d with store }) := by
  cases h : d.store.save d.registry.key d.registry.state with
  | error e => exact .inl ⟨e, rfl, by rw [save, h]⟩
  | ok store => exact .inr ⟨store, rfl, by rw [save, h]⟩

theorem agrees_undo (d : Desk) (draft : Draft) : d.Agrees (d.undo draft) := by
  cases draft <;> exact ⟨rfl, rfl, rfl⟩

/-- What has been taken back leaves the rules from before. -/
theorem routes_undo (d : Desk) (draft : Draft) :
    (d.undo draft).registry.routes = draft.before?.getD d.registry.routes := by
  cases draft <;> rfl

end Desk

/-! ## Moves that leave the worker alone -/

namespace Worker

/-- A move of a caller or of the surroundings that leaves the worker and its registry alone. -/
def Move.sparesWorker : Move → Bool
  | .call _ _ | .enter _ | .cancel _ | .collect _ | .shutDown | .abandon | .register _ _
  | .unregister _ | .refreshRoutes => true
  | .take | .save | .publish | .contact | .finish | .interrupt | .reply | .stop
  | .setFailure _ => false

theorem offer_spares (s : System) (ticket : Ticket) (command : Command) :
    (s.offer ticket command).phase = s.phase ∧ (s.offer ticket command).desk = s.desk ∧
      (s.offer ticket command).notes = s.notes := by
  rw [System.offer]
  split
  · exact ⟨rfl, rfl, rfl⟩
  · split <;> exact ⟨rfl, rfl, rfl⟩

/-- Callers and the surroundings leave the worker, its registry and the notes as they are. -/
theorem step_of_sparesWorker {s s' : System} {m : Move} (hm : m.sparesWorker = true)
    (h : step s m = some s') : s'.phase = s.phase ∧ s'.desk = s.desk ∧ s'.notes = s.notes := by
  cases m <;> simp only [Move.sparesWorker, Bool.false_eq_true] at hm <;> simp only [step] at h
  case call ticket command =>
    split at h <;> cases h
    exact offer_spares s ticket command
  case enter ticket =>
    split at h
    · split at h <;> cases h
      exact offer_spares s ticket _
    · cases h
  case cancel ticket =>
    split at h <;> cases h
    exact ⟨rfl, rfl, rfl⟩
  case collect ticket =>
    split at h
    · split at h
      · cases h; exact ⟨rfl, rfl, rfl⟩
      · split at h <;> cases h
        exact ⟨rfl, rfl, rfl⟩
    · cases h
  all_goals
    cases h
    exact ⟨rfl, rfl, rfl⟩

/-- Only the move that publishes changes what everybody may read. -/
theorem published_of_step {s s' : System} {m : Move} (hm : m ≠ .publish) (h : step s m = some s') :
    s'.published = s.published := by
  by_cases hspares : m.sparesWorker = true
  · obtain ⟨-, hdesk, -⟩ := step_of_sparesWorker hspares h
    rw [System.published, hdesk, System.published]
  cases m <;> try exact absurd rfl hspares
  all_goals simp only [step] at h
  case take =>
    split at h
    · next ticket command rest _ _ =>
      cases h
      rcases s.desk.amend_cases command with ⟨_, heq⟩ | ⟨_, _, _, heq⟩ | ⟨_, _, _, _, heq⟩ <;>
        simp only [System.serve, heq] <;> rfl
    · cases h
  case save =>
    split at h
    · next ticket draft _ =>
      cases h
      rcases s.desk.save_cases draft with ⟨e, -, heq⟩ | ⟨store, -, heq⟩ <;>
        simp only [System.save, heq]
      · exact (s.desk.agrees_undo draft).published
      · cases draft <;> rfl
    · cases h
  case publish => exact absurd rfl hm
  case contact =>
    split at h
    · cases h
      rw [System.turnTo]
      split
      · rfl
      · split <;> rfl
    · cases h
  all_goals
    repeat' split at h
    all_goals cases h
    all_goals rfl

end Worker

end Signpost.Admin
