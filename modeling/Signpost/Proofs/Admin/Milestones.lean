import Signpost.Proofs.Admin.Publication
import Signpost.Proofs.Admin.Stage

/-!
# Milestones of a change

Between taking a command that may change the rules and being done with it, the worker reaches one
milestone after another: the change is in memory, then in the store, then everybody can read it, and
only then subscribers are told and the command is answered.  Callers, receivers and those who stop
the worker may do what they want meanwhile, and the store may fail or work again; they do not change
what a milestone is.

## Main definitions

* `Worker.Milestone`, `Worker.Milestone.desk`: how far a change has come, and where it is by then.
* `Worker.Milestone.Admitted`: which milestones are reached, by what the store does.
* `Worker.Milestone.Reached`: all that can be seen at a milestone.

## Main results

* `Worker.Milestone.Reached.step`, `Worker.Milestone.Reached.replay`: no move leaves the milestones.
* `Desk.routes_committed_or_untouched`: a change is committed in order, or leaves no trace.
-/

namespace Signpost.Admin

open Delivery (Event Note)

/-! ## Whether a change is saved -/

/-- A change that has been made is saved by a store that fails or works, or is taken back. -/
theorem Desk.save_made_underFailure (d : Desk) (failure : Option Failure)
    (a : Redirection.Attempt) :
    ((d.made a).underFailure failure).save (.routes d.registry.routes) =
      match (d.underFailure failure).store.save d.registry.key (d.made a).registry.state with
      | .error e => (.answered (.error (.persistence e)),
          ({ d with mint := a.mint } : Desk).underFailure failure)
      | .ok store => (.pending (), { d.made a with store }) := save_made (d.underFailure failure) a

/-! ## What subscribers are told -/

namespace Worker

variable {s s' : System} {m : Move} {event : Event}

theorem version_of_mem_notes {target : Delivery.Target} {occasions : List Delivery.Occasion}
    {n : Note} (hn : n ∈ Delivery.notes event target occasions) : n.version = event.version := by
  obtain ⟨_, -, rfl⟩ := List.mem_map.mp hn
  rfl

theorem offer_answers (s : System) (ticket : Ticket) (command : Command) :
    (s.offer ticket command).answers = s.answers := by
  unfold System.offer
  split
  · rfl
  · split <;> rfl

/-- Callers and the surroundings answer nobody. -/
theorem answers_of_sparesWorker (hm : m.sparesWorker = true) (h : step s m = some s') :
    s'.answers = s.answers := by
  cases m <;> simp only [Move.sparesWorker, Bool.false_eq_true] at hm <;> simp only [step] at h
  case call ticket command =>
    split at h <;> cases h
    exact offer_answers s ticket command
  case enter ticket =>
    split at h
    · split at h <;> cases h
      exact offer_answers s ticket _
    · cases h
  all_goals
    repeat' split at h
    all_goals cases h
    all_goals rfl

/-- Nobody is answered, and nobody is told of anything but the event that is being delivered. -/
structure OnlyTells (s s' : System) : Prop where
  answers : s'.answers = s.answers
  event : s'.phase.event? = s.phase.event?
  notes : ∃ later, s'.notes = s.notes ++ later ∧
    ∀ n ∈ later, ∃ event, s.phase.event? = some event ∧ n.version = event.version

theorem onlyTells_of_quiet (hanswers : s'.answers = s.answers)
    (hevent : s'.phase.event? = s.phase.event?) (hnotes : s'.notes = s.notes) : OnlyTells s s' :=
  ⟨hanswers, hevent, [], by rw [hnotes, List.append_nil], List.forall_mem_nil _⟩

theorem onlyTells_turnTo {ticket : Ticket} {rest : List Subscription}
    (hevent : s.phase.event? = some event) (target : Delivery.Target) :
    OnlyTells s (s.turnTo ticket event target rest) := by
  unfold System.turnTo
  split
  · exact onlyTells_of_quiet rfl hevent.symm rfl
  · split
    · exact onlyTells_of_quiet rfl hevent.symm rfl
    · exact ⟨rfl, hevent.symm, _, rfl, fun n hn => ⟨event, hevent, version_of_mem_notes hn⟩⟩

theorem onlyTells_of_aside (hpart : m.isPart = false) (h : step s m = some s') :
    OnlyTells s s' := by
  by_cases hspares : m.sparesWorker = true
  · obtain ⟨hphase, -, hnotes⟩ := step_of_sparesWorker hspares h
    exact onlyTells_of_quiet (answers_of_sparesWorker hspares h) (by rw [hphase]) hnotes
  cases m <;> try exact absurd rfl hspares
  all_goals simp only [step] at h
  case take | save | publish | reply | setFailure => cases hpart
  case contact =>
    split at h
    · next hphase =>
      cases h
      exact onlyTells_turnTo (by rw [hphase]; rfl) _
    · cases h
  case finish =>
    split at h
    · next ticket event target c rest hphase =>
      cases h
      exact ⟨rfl, by rw [hphase]; rfl, _, rfl,
        fun n hn => ⟨event, by rw [hphase]; rfl, version_of_mem_notes hn⟩⟩
    · cases h
  case interrupt | stop =>
    split at h
    · next hphase =>
      split at h <;> cases h
      exact onlyTells_of_quiet rfl (by rw [hphase]; rfl) rfl
    · cases h

/-! ## Milestones -/

/-- How far the worker has come with a command that may change the rules. -/
inductive Milestone where
  /-- Nothing is changed, and the command has been answered so. -/
  | unchanged
  /-- The change has been made in memory alone. -/
  | made
  /-- The change could not be saved; it has been taken back, and the command has been answered. -/
  | takenBack (e : StoreError)
  /-- The store has the change, and nobody can read it yet. -/
  | saved (store : StateStore)
  /-- Everybody can read the change, and the subscribers are being told. -/
  | published (store : StateStore)
  /-- The subscribers have been told, and the command has been answered. -/
  | told (store : StateStore)

namespace Milestone

section Sight

variable (d : Desk) (a : Redirection.Attempt) (ticket : Ticket)

/-- The registry and the store at a milestone. -/
def desk : Milestone → Desk
  | .unchanged => d
  | .made => d.made a
  | .takenBack _ => { d with mint := a.mint }
  | .saved store => { d.made a with store }
  | .published store | .told store =>
    { d.made a with
      store
      registry := { d.registry with routes := a.after, published := a.after.snapshot } }

/-- What the worker is about. -/
def stage : Milestone → Stage
  | .unchanged | .takenBack _ | .told _ => .resting
  | .made => .saving ticket (.routes d.registry.routes)
  | .saved _ => .publishing ticket
  | .published _ => .telling ticket

/-- The event that subscribers are being told of. -/
def event? : Milestone → Option Event
  | .published _ => some ⟨.routeChange, a.after.version⟩
  | .unchanged | .made | .takenBack _ | .saved _ | .told _ => none

/-- The answer that has been given. -/
def answer? : Milestone → Option (Except Error Answer)
  | .unchanged => some (Desk.answerTo a)
  | .takenBack e => some (.error (.persistence e))
  | .told _ => some (.ok (.changed true))
  | .made | .saved _ | .published _ => none

/-- Whether subscribers may have been told. -/
def isPublic : Milestone → Bool
  | .published _ | .told _ => true
  | .unchanged | .made | .takenBack _ | .saved _ => false

/-- A store has a change: it has been saved, at a moment when the store worked. -/
structure Holds (store : StateStore) : Prop where
  changed : a.verdict = .ok true
  saved : ∃ failure, (d.underFailure failure).store.save d.registry.key (d.made a).registry.state =
    .ok store
  record : store.documents.get? d.registry.key =
    some (State.toJson ⟨d.registry.roster.all, a.after.all, a.after.version⟩)

/-- What must have happened for a milestone to be reached. -/
def Admitted : Milestone → Prop
  | .unchanged => a.verdict ≠ .ok true
  | .made => a.verdict = .ok true
  | .takenBack e => a.verdict = .ok true ∧ ∃ failure,
    (d.underFailure failure).store.save d.registry.key (d.made a).registry.state = .error e
  | .saved store | .published store | .told store => Holds d a store

/-- A milestone has been reached since a command was about to be taken: what is in memory, what is
stored and what is published, what the worker is about, whom it has answered, and who has been told.
Only whether the store fails right now is left open. -/
structure Reached (first : System) (m : Milestone) (s : System) : Prop where
  desk : s.desk = (m.desk d a).underFailure s.desk.store.failure
  stage : s.phase.stage = m.stage d ticket
  event : s.phase.event? = m.event? a
  answers : s.answers = (m.answer? a).elim first.answers (first.answers.put ticket)
  notes : ∃ later, s.notes = first.notes ++ later ∧
    ∀ n ∈ later, m.isPublic = true ∧ n.version = a.after.version

end Sight

variable {d : Desk} {a : Redirection.Attempt} {ticket : Ticket} {first s s' : System}
  {m : Milestone} {move : Move}

theorem isPublic_of_event {event : Event} (h : m.event? a = some event) :
    m.isPublic = true ∧ event.version = a.after.version := by
  cases m <;> cases h
  exact ⟨rfl, rfl⟩

theorem holds_of_save (hchanged : a.verdict = .ok true) {failure : Option Failure}
    {store : StateStore}
    (hsave : (d.underFailure failure).store.save d.registry.key (d.made a).registry.state =
      .ok store) : Holds d a store := by
  refine ⟨hchanged, ⟨failure, hsave⟩, ?_⟩
  rw [StateStore.save] at hsave
  split at hsave
  · cases hsave
  · cases hsave
    exact (Dict.get?_put _ _ _ _).trans (if_pos rfl)

namespace Reached

/-- Others' moves, and the deliveries, leave a milestone as it is. -/
theorem aside (h : m.Reached d a ticket first s) (hpart : move.isPart = false)
    (hstep : step s move = some s') (hdesk : s'.desk = s.desk)
    (hstage : s'.phase.stage = s.phase.stage) : m.Reached d a ticket first s' := by
  obtain ⟨hanswers, hevent, later, hnotes, htold⟩ := onlyTells_of_aside hpart hstep
  obtain ⟨past, hpast, hpublic⟩ := h.notes
  refine ⟨by rw [hdesk]; exact h.desk, hstage.trans h.stage, hevent.trans h.event,
    hanswers.trans h.answers, past ++ later, by rw [hnotes, hpast, List.append_assoc],
    fun n hn => ?_⟩
  rcases List.mem_append.mp hn with hold | hnew
  · exact hpublic n hold
  · obtain ⟨event, hcurrent, hversion⟩ := htold n hnew
    obtain ⟨hm, heq⟩ := isPublic_of_event (h.event.symm.trans hcurrent)
    exact ⟨hm, hversion.trans heq⟩

theorem setFailure (h : m.Reached d a ticket first s) (failure : Option Failure) :
    m.Reached d a ticket first { s with desk := s.desk.underFailure failure } where
  desk := by
    show s.desk.underFailure failure = _
    rw [h.desk]
    rfl
  stage := h.stage
  event := h.event
  answers := h.answers
  notes := h.notes

/-- Nobody has been told anything before the change can be read. -/
theorem notes_eq (h : m.Reached d a ticket first s) (hm : m.isPublic = false) :
    s.notes = first.notes := by
  obtain ⟨later, hnotes, hpublic⟩ := h.notes
  cases later with
  | nil => rw [hnotes, List.append_nil]
  | cons n rest => cases hm.symm.trans (hpublic n List.mem_cons_self).1

/-- Where nobody is told anything, the notes are those from before. -/
theorem notes_of_quiet (h : m.Reached d a ticket first s) (hm : m.isPublic = false)
    (m' : Milestone) : ∃ later, s.notes = first.notes ++ later ∧
      ∀ n ∈ later, m'.isPublic = true ∧ n.version = a.after.version :=
  ⟨[], by rw [h.notes_eq hm, List.append_nil], List.forall_mem_nil _⟩

/-- A change that has been made is saved, or taken back. -/
theorem save {ticket' : Ticket} {draft : Draft} (hm : m.Admitted d a)
    (h : m.Reached d a ticket first s) (hphase : s.phase = .saving ticket' draft) :
    ∃ m' : Milestone, m'.Admitted d a ∧ m'.Reached d a ticket first (s.save ticket' draft) := by
  have hstage := h.stage
  rw [hphase] at hstage
  cases m <;> cases hstage
  have hdesk : s.desk = (d.made a).underFailure s.desk.store.failure := h.desk
  generalize s.desk.store.failure = failure at hdesk
  -- the draft is saved by the store as it is now, working or not
  have hsave := Desk.save_made_underFailure d failure a
  cases hsaved : (d.underFailure failure).store.save d.registry.key (d.made a).registry.state with
  | error e =>
    refine ⟨.takenBack e, ⟨hm, failure, hsaved⟩, ?_⟩
    have hback : s.desk.save (.routes d.registry.routes) =
        (.answered (.error (.persistence e)),
          ({ d with mint := a.mint } : Desk).underFailure failure) := by
      rw [hdesk, hsave, hsaved]
    simp only [System.save, hback]
    exact ⟨rfl, rfl, rfl, congrArg (Dict.put · _ _) h.answers, h.notes_of_quiet rfl _⟩
  | ok store =>
    refine ⟨.saved store, holds_of_save hm hsaved, ?_⟩
    have hpending : s.desk.save (.routes d.registry.routes) =
        (.pending (), { d.made a with store }) := by
      rw [hdesk, hsave, hsaved]
    simp only [System.save, hpending]
    exact ⟨rfl, rfl, rfl, h.answers, h.notes_of_quiet rfl _⟩

/-- A change that has been saved is published, and the event is that of its version. -/
theorem publish {ticket' : Ticket} (hm : m.Admitted d a) (h : m.Reached d a ticket first s)
    (hphase : s.phase = .publishing ticket') :
    ∃ m' : Milestone, m'.Admitted d a ∧ m'.Reached d a ticket first (s.publish ticket') := by
  have hstage := h.stage
  rw [hphase] at hstage
  cases m with
  | saved store =>
    cases hstage
    refine ⟨.published store, hm, ?_, rfl, ?_, h.answers, h.notes_of_quiet rfl _⟩
    · show s.desk.publish = _
      rw [h.desk]
      rfl
    · show some s.desk.event = _
      rw [h.desk]
      rfl
  | unchanged | made | takenBack | published | told => cases hstage

/-- The command is answered when all subscribers have been told. -/
theorem reply {ticket' : Ticket} {event : Event} (hm : m.Admitted d a)
    (h : m.Reached d a ticket first s) (hphase : s.phase = .delivering ticket' event []) :
    ∃ m' : Milestone, m'.Admitted d a ∧
      m'.Reached d a ticket first (s.answer ticket' (.ok (.changed true))) := by
  have hstage := h.stage
  rw [hphase] at hstage
  cases m with
  | published store =>
    cases hstage
    exact ⟨.told store, hm, h.desk, rfl, rfl, congrArg (Dict.put · _ _) h.answers, h.notes⟩
  | unchanged | made | takenBack | saved | told => cases hstage

/-- Every move but that to another command keeps a milestone or reaches the next one. -/
theorem step (hm : m.Admitted d a) (h : m.Reached d a ticket first s) (hmove : move ≠ .take)
    (hstep : step s move = some s') :
    ∃ m' : Milestone, m'.Admitted d a ∧ m'.Reached d a ticket first s' := by
  cases advance_of_step hstep with
  | aside hpart hdesk hstage => exact ⟨m, hm, h.aside hpart hstep hdesk hstage⟩
  | setFailure failure => exact ⟨m, hm, h.setFailure failure⟩
  | take => exact absurd rfl hmove
  | save hphase => exact h.save hm hphase
  | publish hphase => exact h.publish hm hphase
  | reply hphase => exact h.reply hm hphase

/-- **No move leaves the milestones**, until the next command is taken. -/
theorem replay {moves : List Move} (hm : m.Admitted d a) (h : m.Reached d a ticket first s)
    (hmoves : .take ∉ moves) (hreplay : replay s moves = some s') :
    ∃ m' : Milestone, m'.Admitted d a ∧ m'.Reached d a ticket first s' := by
  induction moves generalizing m s with
  | nil =>
    cases hreplay
    exact ⟨m, hm, h⟩
  | cons move rest ih =>
    obtain ⟨next, hstep, hrest⟩ := Option.bind_eq_some_iff.mp hreplay
    obtain ⟨hmove, hothers⟩ := List.ne_and_not_mem_of_not_mem_cons hmoves
    obtain ⟨m', hm', hnext⟩ := h.step hm (Ne.symm hmove) hstep
    exact ih hm' hnext hothers hrest

end Reached

/-- A command that is taken is answered, or its change is made in memory. -/
theorem exists_reached_of_take {command : Command} {rest : List (Ticket × Command)}
    (hattempt : first.desk.attempt? command = some a) (hidle : first.phase = .idle)
    (hqueue : first.queue = (ticket, command) :: rest) (htake : Worker.step first .take = some s) :
    ∃ m : Milestone, m.Admitted first.desk a ∧ m.Reached first.desk a ticket first s := by
  simp only [Worker.step, hidle, hqueue, Option.some.injEq] at htake
  subst htake
  by_cases hchanged : a.verdict = .ok true
  · refine ⟨.made, hchanged, ?_⟩
    simp only [System.serve, Desk.amend_of_changed hattempt hchanged]
    exact ⟨rfl, rfl, rfl, rfl, [], (List.append_nil _).symm, List.forall_mem_nil _⟩
  · refine ⟨.unchanged, hchanged, ?_⟩
    simp only [System.serve, Desk.amend_of_unchanged hattempt hchanged]
    exact ⟨rfl, rfl, rfl, rfl, [], (List.append_nil _).symm, List.forall_mem_nil _⟩

end Milestone

end Worker

/-! ## Committed or untouched -/

namespace Desk

/-- **A change of the rules is committed or leaves no trace.**  A command that is refused or changes
nothing, and one whose change cannot be saved, leaves the registry and the store as they were and
nobody is told anything.  Any other is saved, published and told in this order.  The worker goes
through the same milestones, whatever happens around it: at any moment until it takes another
command it has reached one of them, where the change is published only if the store has it, and told
of only if it is published. -/
theorem routes_committed_or_untouched (d : Desk) (command : Command) (a : Redirection.Attempt)
    (h : d.attempt? command = some a) :
    (∀ e, a.verdict = .error e → d.EndsQuietly command (.error (.redirection e)) d) ∧
    (a.verdict = .ok false → d.EndsQuietly command (.ok (.changed false)) d) ∧
    (a.verdict = .ok true → ∀ e,
      d.store.save d.registry.key (d.made a).registry.state = .error e →
        d.EndsQuietly command (.error (.persistence e)) { d with mint := a.mint }) ∧
    (a.verdict = .ok true → ∀ store,
      d.store.save d.registry.key (d.made a).registry.state = .ok store →
        d.CommitsInOrder command a store) ∧
    ∀ (first s : Worker.System) (ticket : Worker.Ticket) (rest : List (Worker.Ticket × Command))
      (moves : List Worker.Move), first.desk = d → first.phase = .idle →
      first.queue = (ticket, command) :: rest → .take ∉ moves →
      Worker.replay first (.take :: moves) = some s →
        ∃ m : Worker.Milestone, m.Admitted d a ∧ m.Reached d a ticket first s := by
  refine ⟨?_, ?_, ?_, ?_, ?_⟩
  · intro e hverdict
    simpa only [answerTo, hverdict] using endsQuietly_of_unchanged h (by simp [hverdict])
  · intro hverdict
    simpa only [answerTo, hverdict] using endsQuietly_of_unchanged h (by simp [hverdict])
  · intro hchanged e hsave
    exact endsQuietly_of_save_error h hchanged hsave
  · intro hchanged store hsave
    exact commitsInOrder_of_save_ok h hchanged hsave
  · rintro first s ticket rest moves rfl hidle hqueue hmoves hreplay
    obtain ⟨taken, htake, hrest⟩ := Option.bind_eq_some_iff.mp hreplay
    obtain ⟨m, hm, hreached⟩ := Worker.Milestone.exists_reached_of_take h hidle hqueue htake
    exact hreached.replay hm hmoves hrest

/-- A worker with the opened desk, which somebody has sent the batch to. -/
def asked : Worker.System :=
  (Worker.start opened .empty 4).enqueue 0 (.append twoRules)

/-- The batch is committed, and a worker that has published it and is about to tell the subscribers
has saved it. -/
theorem routes_committed_or_untouched_twoRules :
    (∃ store, opened.CommitsInOrder (.append twoRules) (opened.append twoRules) store) ∧
      (opened.append twoRules).after.size = 2 ∧
      ∃ s store, s.phase.event?.isSome = true ∧
        (Worker.Milestone.published store).Admitted opened (opened.append twoRules) ∧
        (Worker.Milestone.published store).Reached opened (opened.append twoRules) 0 asked s := by
  obtain ⟨-, -, -, hcommits, hworker⟩ :=
    routes_committed_or_untouched opened (.append twoRules) _ rfl
  refine ⟨⟨_, hcommits (by rfl) _ rfl⟩, by decide, ?_⟩
  obtain ⟨m, hm, hreached⟩ :=
    hworker asked _ 0 [] [.save, .publish] rfl rfl rfl (by simp) rfl
  have hstage := hreached.stage
  cases m with
  | published store => exact ⟨_, store, rfl, hm, hreached⟩
  | unchanged | made | takenBack | saved | told => cases hstage

end Desk

end Signpost.Admin
