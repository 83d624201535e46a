import Signpost.Proofs.Admin.Step

/-!
# Stages of a command

The worker has at most one command in hand, and how far it has come with it is a stage.  A stage is
coarser than a phase: whether the worker waits for a receiver or not, the change is made and its
subscribers are being told.  Most moves leave both the registry and the stage alone; the others are
the parts of a command, and a store that fails or works again.

## Main definitions

* `Desk.underFailure`: the desk with a store that fails or works.
* `Desk.perform`: a command by itself, while the store fails or works.
* `Worker.Stage`, `Worker.Phase.stage`
* `Worker.Advance`: what a move means to the registry and the stage.

## Main results

* `Worker.advance_of_step`: every move is one of those.
* `Worker.System.serve_cases`, `Worker.System.save_cases`: what the parts of a command lead to.
-/

namespace Signpost.Admin

/-! ## A store that fails -/

namespace Desk

/-- The desk with a store that fails from now on, or works again. -/
def underFailure (d : Desk) (failure : Option Failure) : Desk :=
  { d with store := { d.store with failure } }

variable (d : Desk) (failure : Option Failure)

@[simp] theorem registry_underFailure : (d.underFailure failure).registry = d.registry := rfl

@[simp] theorem underFailure_self : d.underFailure d.store.failure = d := rfl

/-- What a command does in memory does not depend on the store. -/
theorem amend_underFailure (command : Command) :
    (d.underFailure failure).amend command =
      ((d.amend command).1, (d.amend command).2.underFailure failure) := by
  have hadopt : ∀ a, (d.underFailure failure).adopt a =
      ((d.adopt a).1, (d.adopt a).2.underFailure failure) := by
    intro a
    unfold adopt
    rcases a.verdict with e | (_ | _) <;> rfl
  cases command with
  | append rules => exact hadopt _
  | pop ids => exact hadopt _
  | subscribe target => rfl
  | unsubscribe id =>
    simp only [amend, registry_underFailure]
    cases d.registry.roster.get? id <;> rfl

/-- What a command does in memory leaves the store and what is published alone. -/
theorem agrees_amend (command : Command) : d.Agrees (d.amend command).2 := by
  rcases d.amend_cases command with ⟨_, heq⟩ | ⟨a, -, -, heq⟩ | ⟨_, _, _, -, heq⟩ <;> rw [heq]
  · exact ⟨rfl, rfl, rfl⟩
  · exact d.agrees_made a
  · exact ⟨rfl, rfl, rfl⟩

/-- A command by itself, while the store fails or works. -/
def perform (d : Desk) (failure : Option Failure) (command : Command) : Applied × Desk :=
  (d.underFailure failure).apply command

section Parts

variable {d d' d'' : Desk} {command : Command} {outcome : Except Error Answer} {draft : Draft}

/-- What a command is answered in memory alone is that it changes nothing, or is refused. -/
theorem outcome_of_amend (h : d.amend command = (.answered outcome, d')) :
    outcome = .ok (.changed false) ∨ ∃ e, outcome = .error (.redirection e) := by
  cases hattempt : d.attempt? command with
  | some a =>
    by_cases hchanged : a.verdict = .ok true
    · rw [amend_of_changed hattempt hchanged] at h
      cases h
    · rw [amend_of_unchanged hattempt hchanged] at h
      cases h
      unfold answerTo
      rcases hverdict : a.verdict with e | (_ | _)
      · exact .inr ⟨e, rfl⟩
      · exact .inl rfl
      · exact absurd hverdict hchanged
  | none =>
    cases command with
    | append rules | pop ids => cases hattempt
    | subscribe target => cases h
    | unsubscribe id =>
      simp only [amend] at h
      split at h <;> cases h
      exact .inl rfl

theorem apply_of_answered (h : d.amend command = (.answered outcome, d')) :
    d.apply command = (⟨outcome, none⟩, d') := by
  rw [apply, h]

theorem apply_of_saved (hamend : d.amend command = (.pending draft, d'))
    (hsave : d'.save draft = (.answered outcome, d'')) :
    d.apply command = (⟨outcome, none⟩, d'') := by
  simp only [apply, hamend, hsave]

theorem apply_of_pending (hamend : d.amend command = (.pending draft, d'))
    (hsave : d'.save draft = (.pending (), d'')) :
    d.apply command = (⟨.ok (.changed true), some d''.event⟩, d''.publish) := by
  simp only [apply, hamend, hsave]

/-- A registry that publishes its rules does so again when a command has come to its end. -/
theorem published_apply (h : d.registry.published = d.registry.routes.snapshot)
    (command : Command) :
    (d.apply command).2.registry.published = (d.apply command).2.registry.routes.snapshot := by
  rcases d.amend_cases command with
    ⟨answer, hamend⟩ | ⟨a, -, -, hamend⟩ | ⟨roster, mint, draft, hdraft, hamend⟩
  · rw [apply_of_answered hamend]
    exact h
  · rcases (d.made a).save_cases (.routes d.registry.routes) with
      ⟨e, -, hsave⟩ | ⟨store, -, hsave⟩
    · rw [apply_of_saved hamend hsave]
      exact h
    · rw [apply_of_pending hamend hsave]
      rfl
  · rcases { d.withRoster roster with mint }.save_cases draft with ⟨e, -, hsave⟩ | ⟨store, -, hsave⟩
    · rw [apply_of_saved hamend hsave, routes_undo, hdraft, (agrees_undo _ draft).published]
      exact h
    · rcases draft.saved_cases with ⟨-, hroutes⟩ | ⟨⟨outcome, hsaved⟩, -⟩
      · rw [hdraft] at hroutes
        cases hroutes
      · rw [hsaved] at hsave
        rw [apply_of_saved hamend hsave]
        exact h

theorem published_run (h : d.registry.published = d.registry.routes.snapshot)
    (directory : Delivery.Directory) (cancel : Cancel) (command : Command) (readable : Bool) :
    (d.run directory cancel command readable).2.registry.published =
      (d.run directory cancel command readable).2.registry.routes.snapshot := by
  have hlast : (d.run directory cancel command readable).2 = (d.apply command).2 := by
    unfold run
    dsimp only
    split <;> rfl
  rw [hlast]
  exact published_apply h command

end Parts

end Desk

namespace Worker

/-! ## Stages -/

/-- How far the worker has come with a command. -/
inductive Stage where
  /-- There is no command in hand. -/
  | resting
  /-- A change has been made in memory and is yet to be saved. -/
  | saving (ticket : Ticket) (draft : Draft)
  /-- Rules have been saved and are yet to be published. -/
  | publishing (ticket : Ticket)
  /-- All is done but for the subscribers, who are being told. -/
  | telling (ticket : Ticket)

/-- The stage of a phase. -/
def Phase.stage : Phase → Stage
  | .idle | .stopped => .resting
  | .saving ticket draft => .saving ticket draft
  | .publishing ticket => .publishing ticket
  | .delivering ticket _ _ | .contacting ticket _ _ _ _ => .telling ticket

/-- Whose command the worker has in hand. -/
def Stage.ticket? : Stage → Option Ticket
  | .resting => none
  | .saving ticket _ | .publishing ticket | .telling ticket => some ticket

/-- The moves that are parts of a command, or concern the store. -/
def Move.isPart : Move → Bool
  | .take | .save | .publish | .reply | .setFailure _ => true
  | .call _ _ | .enter _ | .cancel _ | .collect _ | .contact | .finish | .interrupt | .stop
  | .shutDown | .abandon | .register _ _ | .unregister _ | .refreshRoutes => false

/-- What a move means to the registry and to the stage of the worker. -/
inductive Advance (s : System) : Move → System → Prop
  /-- The registry and the stage are left alone. -/
  | aside {m : Move} {s' : System} (hpart : m.isPart = false) (hdesk : s'.desk = s.desk)
      (hstage : s'.phase.stage = s.phase.stage) : Advance s m s'
  | setFailure (failure : Option Failure) :
      Advance s (.setFailure failure) { s with desk := s.desk.underFailure failure }
  | take {ticket : Ticket} {command : Command} {rest : List (Ticket × Command)}
      (hidle : s.phase = .idle) (hqueue : s.queue = (ticket, command) :: rest) :
      Advance s .take ({ s with queue := rest }.serve ticket command)
  | save {ticket : Ticket} {draft : Draft} (hphase : s.phase = .saving ticket draft) :
      Advance s .save (s.save ticket draft)
  | publish {ticket : Ticket} (hphase : s.phase = .publishing ticket) :
      Advance s .publish (s.publish ticket)
  | reply {ticket : Ticket} {event : Delivery.Event}
      (hphase : s.phase = .delivering ticket event []) :
      Advance s .reply (s.answer ticket (.ok (.changed true)))

variable {s s' : System} {m : Move}

theorem advance_turnTo {ticket : Ticket} {event : Delivery.Event} {next : Subscription}
    {rest : List Subscription} (hphase : s.phase = .delivering ticket event (next :: rest)) :
    Advance s .contact (s.turnTo ticket event next.target rest) := by
  have hstage : s.phase.stage = .telling ticket := by rw [hphase]; rfl
  unfold System.turnTo
  split
  · exact .aside rfl rfl hstage.symm
  · split
    · exact .aside rfl rfl hstage.symm
    · exact .aside rfl rfl hstage.symm

/-- Every move is a part of a command, concerns the store, or leaves registry and stage alone. -/
theorem advance_of_step (h : step s m = some s') : Advance s m s' := by
  by_cases hspares : m.sparesWorker = true
  · obtain ⟨hphase, hdesk, -⟩ := step_of_sparesWorker hspares h
    refine .aside ?_ hdesk (by rw [hphase])
    cases m <;> first | rfl | cases hspares
  cases m <;> try exact absurd rfl hspares
  all_goals simp only [step] at h
  case take =>
    split at h
    · next hidle hqueue => cases h; exact .take hidle hqueue
    · cases h
  case save =>
    split at h
    · next hphase => cases h; exact .save hphase
    · cases h
  case publish =>
    split at h
    · next hphase => cases h; exact .publish hphase
    · cases h
  case contact =>
    split at h
    · next hphase => cases h; exact advance_turnTo hphase
    · cases h
  case finish =>
    split at h
    · next hphase => cases h; exact .aside rfl rfl (by rw [hphase]; rfl)
    · cases h
  case interrupt =>
    split at h
    · next hphase =>
      split at h <;> cases h
      exact .aside rfl rfl (by rw [hphase]; rfl)
    · cases h
  case reply =>
    split at h
    · next hphase => cases h; exact .reply hphase
    · cases h
  case stop =>
    split at h
    · next hphase =>
      split at h <;> cases h
      exact .aside rfl rfl (by rw [hphase]; rfl)
    · cases h
  case setFailure failure => cases h; exact .setFailure failure

/-! ## The parts of a command -/

namespace System

/-- A command that has been done in memory is answered, or is yet to be saved. -/
theorem serve_cases (s : System) (ticket : Ticket) (command : Command) :
    (∃ outcome, s.desk.amend command = (.answered outcome, s.desk) ∧
      s.serve ticket command = s.answer ticket outcome) ∨
    ∃ draft desk, s.desk.amend command = (.pending draft, desk) ∧
      s.serve ticket command = { s with desk, phase := .saving ticket draft } := by
  rcases s.desk.amend_cases command with
    ⟨outcome, heq⟩ | ⟨a, -, -, heq⟩ | ⟨roster, mint, draft, -, heq⟩
  · exact .inl ⟨outcome, heq, by simp only [serve, heq]⟩
  · exact .inr ⟨_, _, heq, by simp only [serve, heq]⟩
  · exact .inr ⟨_, _, heq, by simp only [serve, heq]⟩

/-- A change that cannot be saved is taken back; one that is saved is answered, or is yet to be
published if it is one of the rules. -/
theorem save_cases (s : System) (ticket : Ticket) (draft : Draft) :
    (∃ e, s.desk.save draft = (.answered (.error (.persistence e)), s.desk.undo draft) ∧
      s.save ticket draft =
        { s with desk := s.desk.undo draft }.answer ticket (.error (.persistence e))) ∨
    ∃ store, s.desk.store.save s.desk.registry.key s.desk.registry.state = .ok store ∧
      ((∃ answer, draft.before? = none ∧ draft.saved = .answered (.ok answer) ∧
        s.save ticket draft = { s with desk := { s.desk with store } }.answer ticket (.ok answer)) ∨
      ((∃ before, draft = .routes before) ∧
        s.save ticket draft =
          { s with desk := { s.desk with store }, phase := .publishing ticket })) := by
  rcases s.desk.save_cases draft with ⟨e, -, heq⟩ | ⟨store, hsave, heq⟩
  · exact .inl ⟨e, heq, by simp only [save, heq]⟩
  · refine .inr ⟨store, hsave, ?_⟩
    cases draft with
    | routes before => exact .inr ⟨⟨before, rfl⟩, by simp only [save, heq, Draft.saved]⟩
    | subscription id => exact .inl ⟨_, rfl, rfl, by simp only [save, heq, Draft.saved]⟩
    | removal subscription => exact .inl ⟨_, rfl, rfl, by simp only [save, heq, Draft.saved]⟩

end System

end Worker

end Signpost.Admin
