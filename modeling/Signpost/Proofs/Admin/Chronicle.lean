import Signpost.Proofs.Admin.Stage

/-!
# Chronicles of the worker

A chronicle tells what happens to the calls of a run, in its order: a caller comes with a command,
the command is put into the queue, the worker takes it and answers it, and the caller returns.  In a
grounded chronicle nothing happens without what has to happen before it.

## Main definitions

* `Worker.Happening`
* `Worker.chronicle`: where a run leads to, and what happens in it.
* `Worker.Grounded`: everything has its cause before it.

## Main results

* `Worker.chronicle_map_fst`: every run has a chronicle.
* `Worker.Grounded.sublist_of_returned`: a caller that is given an answer has gone through all
  stations before.
* `Worker.Grounded.queued_of_returned`: commands of calls that follow one another are queued in
  their order.
-/

namespace Signpost.Admin.Worker

open scoped List

/-! ## What happens -/

/-- What happens to a call. -/
inductive Happening where
  /-- A caller comes with a command. -/
  | called (ticket : Ticket) (command : Command)
  /-- The command is put into the queue. -/
  | queued (ticket : Ticket) (command : Command)
  /-- The worker takes the command from the queue. -/
  | taken (ticket : Ticket) (command : Command)
  /-- The worker is done with the command. -/
  | answered (ticket : Ticket) (outcome : Except Error Answer)
  /-- The caller returns. -/
  | returned (ticket : Ticket) (outcome : Except Error Answer)

namespace Happening

/-- The call that something happens to. -/
def ticket : Happening → Ticket
  | called ticket _ | queued ticket _ | taken ticket _ | answered ticket _ | returned ticket _ =>
    ticket

/-- What is put into the queue. -/
def queued? : Happening → Option (Ticket × Command)
  | queued ticket command => some (ticket, command)
  | called _ _ | taken _ _ | answered _ _ | returned _ _ => none

/-- What is taken from the queue. -/
def taken? : Happening → Option (Ticket × Command)
  | taken ticket command => some (ticket, command)
  | called _ _ | queued _ _ | answered _ _ | returned _ _ => none

/-- What is answered. -/
def answered? : Happening → Option (Ticket × Except Error Answer)
  | answered ticket outcome => some (ticket, outcome)
  | called _ _ | queued _ _ | taken _ _ | returned _ _ => none

end Happening

open Happening

/-- All that was put into the queue, in its order. -/
def queuedIn (log : List Happening) : List (Ticket × Command) := log.filterMap queued?

/-- All that was taken from the queue, in its order. -/
def takenIn (log : List Happening) : List (Ticket × Command) := log.filterMap taken?

/-- All that was answered, in its order. -/
def answeredIn (log : List Happening) : List (Ticket × Except Error Answer) :=
  log.filterMap answered?

section Lists

variable {log log' : List Happening} {ticket : Ticket} {command : Command}

@[simp] theorem queuedIn_append : queuedIn (log ++ log') = queuedIn log ++ queuedIn log' :=
  List.filterMap_append

@[simp] theorem takenIn_append : takenIn (log ++ log') = takenIn log ++ takenIn log' :=
  List.filterMap_append

@[simp] theorem answeredIn_append : answeredIn (log ++ log') = answeredIn log ++ answeredIn log' :=
  List.filterMap_append

theorem mem_queuedIn : (ticket, command) ∈ queuedIn log ↔ .queued ticket command ∈ log := by
  rw [queuedIn, List.mem_filterMap]
  constructor
  · rintro ⟨e, he, heq⟩
    cases e <;> cases heq
    exact he
  · intro h
    exact ⟨_, h, rfl⟩

theorem mem_takenIn : (ticket, command) ∈ takenIn log ↔ .taken ticket command ∈ log := by
  rw [takenIn, List.mem_filterMap]
  constructor
  · rintro ⟨e, he, heq⟩
    cases e <;> cases heq
    exact he
  · intro h
    exact ⟨_, h, rfl⟩

/-- What was taken happened in its order. -/
theorem map_takenIn_sublist (log : List Happening) :
    (takenIn log).map (fun call => .taken call.1 call.2) <+ log := by
  induction log with
  | nil => exact List.Sublist.slnil
  | cons e rest ih =>
    cases e with
    | taken ticket command => exact ih.cons_cons _
    | called _ _ | queued _ _ | answered _ _ | returned _ _ => exact ih.cons _

theorem mem_answeredIn {outcome : Except Error Answer} :
    (ticket, outcome) ∈ answeredIn log ↔ .answered ticket outcome ∈ log := by
  rw [answeredIn, List.mem_filterMap]
  constructor
  · rintro ⟨e, he, heq⟩
    cases e <;> cases heq
    exact he
  · intro h
    exact ⟨_, h, rfl⟩

end Lists

namespace System

/-- What becomes of a command that a caller offers, in the system after that. -/
def arrival (s : System) (ticket : Ticket) (command : Command) : List Happening :=
  match s.callers.get? ticket with
  | some .waiting => [.queued ticket command]
  | some (.returned outcome) => [.returned ticket outcome]
  | some (.blocked _) | none => []

/-- A caller returns, if it has in the system after that. -/
def departure (s : System) (ticket : Ticket) : List Happening :=
  match s.callers.get? ticket with
  | some (.returned outcome) => [.returned ticket outcome]
  | some .waiting | some (.blocked _) | none => []

/-- The worker is done with a command, if it is answered in the system after that. -/
def verdict (s : System) (ticket : Ticket) : List Happening :=
  match s.answers.get? ticket with
  | some outcome => [.answered ticket outcome]
  | none => []

/-- What a move makes happen, between the system before it and the one after it. -/
def happenings (s s' : System) : Move → List Happening
  | .call ticket command => .called ticket command :: s'.arrival ticket command
  | .enter ticket =>
    match s.callers.get? ticket with
    | some (.blocked command) => s'.arrival ticket command
    | some .waiting | some (.returned _) | none => []
  | .cancel ticket | .collect ticket => s'.departure ticket
  | .take =>
    match s.queue with
    | (ticket, command) :: _ => .taken ticket command :: s'.verdict ticket
    | [] => []
  | .save | .reply =>
    match s.phase.stage.ticket? with
    | some ticket => s'.verdict ticket
    | none => []
  | .publish | .contact | .finish | .interrupt | .stop | .shutDown | .abandon | .register _ _
  | .unregister _ | .setFailure _ | .refreshRoutes => []

@[simp] theorem verdict_answer (s : System) (ticket : Ticket) (outcome : Except Error Answer) :
    (s.answer ticket outcome).verdict ticket = [.answered ticket outcome] := by
  rw [verdict, answer, Dict.get?_put, if_pos rfl]

@[simp] theorem departure_setCaller (s : System) (ticket : Ticket)
    (outcome : Except Error Answer) :
    (s.setCaller ticket (.returned outcome)).departure ticket = [.returned ticket outcome] := by
  rw [departure, setCaller, Dict.get?_put, if_pos rfl]

end System

/-- The system that a list of moves leads to, if each of them is possible in its turn, and all that
happens on the way. -/
def chronicle (s : System) : List Move → Option (System × List Happening)
  | [] => some (s, [])
  | m :: rest =>
    (step s m).bind fun s' =>
      (chronicle s' rest).map fun last => (last.1, s.happenings s' m ++ last.2)

/-- Every run has a chronicle. -/
theorem chronicle_map_fst (s : System) (moves : List Move) :
    (chronicle s moves).map Prod.fst = replay s moves := by
  induction moves generalizing s with
  | nil => rfl
  | cons m rest ih =>
    rw [chronicle, replay]
    cases step s m with
    | none => rfl
    | some s' =>
      simp only [Option.bind_some, Option.map_map, ← ih s']
      rfl

/-! ## Causes -/

/-- What has to be in the past of something that happens. -/
def Happening.GroundedIn (past : List Happening) : Happening → Prop
  | called ticket _ => ∀ e ∈ past, e.ticket ≠ ticket
  | queued ticket command =>
    .called ticket command ∈ past ∧ ∀ outcome, .returned ticket outcome ∉ past
  | taken ticket command => .queued ticket command ∈ past
  | answered ticket _ => ∃ command, .taken ticket command ∈ past
  | returned ticket outcome =>
    outcome = .error .cancelled ∨ outcome = .error .workerStopped ∨
      .answered ticket outcome ∈ past

/-- Everything that happens has its cause before it. -/
def Grounded (log : List Happening) : Prop :=
  ∀ before e after, log = before ++ e :: after → e.GroundedIn before

namespace Grounded

variable {log : List Happening} {e : Happening} {ticket : Ticket}

theorem nil : Grounded [] := by
  intro before e after h
  simp at h

theorem concat (h : Grounded log) (he : e.GroundedIn log) : Grounded (log ++ [e]) := by
  intro before e' after heq
  rcases List.eq_nil_or_concat after with rfl | ⟨after, last, rfl⟩
  · obtain ⟨rfl, hlast⟩ := List.append_inj' heq rfl
    cases hlast
    exact he
  · rw [List.concat_eq_append, ← List.cons_append, ← List.append_assoc] at heq
    exact h before e' after (List.append_inj' heq rfl).1

theorem of_begin {log' : List Happening} (h : Grounded log) (hbegin : log' <+: log) :
    Grounded log' := by
  obtain ⟨rest, rfl⟩ := hbegin
  intro before e after heq
  exact h before e (after ++ rest) (by rw [heq, List.append_assoc, List.cons_append])

/-- What happens has its cause in what was there before it. -/
theorem exists_before (h : Grounded log) (he : e ∈ log) :
    ∃ before, Grounded before ∧ e.GroundedIn before ∧ (before ++ [e]) <+: log := by
  obtain ⟨before, after, rfl⟩ := List.append_of_mem he
  have hsplit : before ++ e :: after = before ++ [e] ++ after := by simp
  refine ⟨before, h.of_begin ⟨_, rfl⟩, h before e after rfl, ⟨after, hsplit.symm⟩⟩

/-- What leads to something also leads to what it is the cause of. -/
theorem sublist_concat {trail before : List Happening} (hsub : trail <+ before)
    (hbegin : (before ++ [e]) <+: log) : trail ++ [e] <+ log :=
  (hsub.append (.refl [e])).trans hbegin.sublist

/-- A command that is put into the queue has been brought by its caller. -/
theorem sublist_of_queued {command : Command} (h : Grounded log)
    (hqueued : .queued ticket command ∈ log) :
    [.called ticket command, .queued ticket command] <+ log := by
  obtain ⟨before, -, hcause, hbegin⟩ := h.exists_before hqueued
  exact sublist_concat (List.singleton_sublist.mpr hcause.1) hbegin

theorem sublist_of_taken {command : Command} (h : Grounded log)
    (htaken : .taken ticket command ∈ log) :
    [.called ticket command, .queued ticket command, .taken ticket command] <+ log := by
  obtain ⟨before, hbefore, hqueued, hbegin⟩ := h.exists_before htaken
  exact sublist_concat (hbefore.sublist_of_queued hqueued) hbegin

theorem sublist_of_answered {outcome : Except Error Answer} (h : Grounded log)
    (hanswered : .answered ticket outcome ∈ log) :
    ∃ command, [.called ticket command, .queued ticket command, .taken ticket command,
      .answered ticket outcome] <+ log := by
  obtain ⟨before, hbefore, ⟨command, htaken⟩, hbegin⟩ := h.exists_before hanswered
  exact ⟨command, sublist_concat (hbefore.sublist_of_taken htaken) hbegin⟩

/-- A caller that is given an answer has brought its command, which was queued, taken and answered
in this order before it returned. -/
theorem sublist_of_returned {outcome : Except Error Answer} (h : Grounded log)
    (hreturned : .returned ticket outcome ∈ log) (hcancelled : outcome ≠ .error .cancelled)
    (hstopped : outcome ≠ .error .workerStopped) :
    ∃ command, [.called ticket command, .queued ticket command, .taken ticket command,
      .answered ticket outcome, .returned ticket outcome] <+ log := by
  obtain ⟨before, hbefore, hcause, hbegin⟩ := h.exists_before hreturned
  obtain ⟨command, htrail⟩ :=
    hbefore.sublist_of_answered ((hcause.resolve_left hcancelled).resolve_left hstopped)
  exact ⟨command, sublist_concat htrail hbegin⟩

/-- Whoever something has happened to does not come with a command any more. -/
theorem not_called_after {before after : List Happening} (h : Grounded (before ++ after))
    (he : e ∈ before) (command : Command) : .called e.ticket command ∉ after := by
  intro hlater
  obtain ⟨between, rest, rfl⟩ := List.append_of_mem hlater
  have hnew : ∀ e' ∈ before ++ between, e'.ticket ≠ e.ticket :=
    h (before ++ between) (.called e.ticket command) rest (by simp)
  exact hnew e (List.mem_append_left _ he) rfl

/-- If one call returns before another one begins, then its command is queued before that of the
other. -/
theorem queued_of_returned {first second : Ticket} {c₁ c₂ c : Command}
    {outcome : Except Error Answer} (h : Grounded log)
    (horder : [.returned first outcome, .called second c] <+ log)
    (hfirst : .queued first c₁ ∈ log) (hsecond : .queued second c₂ ∈ log) :
    [.queued first c₁, .queued second c₂] <+ log := by
  obtain ⟨before, after, rfl, hreturned, hcalled⟩ := List.append_sublist_iff.mp
    (show [.returned first outcome] ++ [.called second c] <+ log from horder)
  rw [List.singleton_sublist] at hreturned hcalled
  obtain ⟨between, rest, rfl⟩ := List.append_of_mem hcalled
  rw [← List.append_assoc] at h hfirst hsecond ⊢
  have hreturned : .returned first outcome ∈ before ++ between := List.mem_append_left _ hreturned
  -- the first command was queued before its caller returned
  have hearly : .queued first c₁ ∈ before ++ between := by
    rcases List.mem_append.mp hfirst with hmem | hmem
    · exact hmem
    · obtain ⟨later, rest', heq⟩ := List.append_of_mem hmem
      have hpast : (Happening.queued first c₁).GroundedIn (before ++ between ++ later) :=
        h _ _ rest' (by rw [heq, ← List.append_assoc])
      exact absurd (List.mem_append_left _ hreturned) (hpast.2 outcome)
  -- the second command was queued after its caller came
  have hlate : .queued second c₂ ∈ .called second c :: rest := by
    rcases List.mem_append.mp hsecond with hmem | hmem
    · have hnew : ∀ e ∈ before ++ between, e.ticket ≠ second := h _ _ rest rfl
      exact absurd rfl (hnew _ hmem)
    · exact hmem
  exact (List.singleton_sublist.mpr hearly).append (List.singleton_sublist.mpr hlate)

end Grounded

end Signpost.Admin.Worker
