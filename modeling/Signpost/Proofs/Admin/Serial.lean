import Signpost.Proofs.Admin.Books

/-!
# One command after another

However callers, their cancellations and the end of the worker interleave, the registry is that of
the commands that were taken from the queue, done one after another in the order of the queue.  A
caller that is given an answer has the answer that its command has in this sequence.

## Main definitions

* `Job`, `Desk.performAll`, `Desk.outcomes`: commands one after another, without a queue.
* `Worker.Stage.InSeries`: the registry is that of the commands that were taken.

## Main results

* `Worker.inSeries_step`: every move keeps it so.
* `Worker.commands_in_series`
-/

namespace Signpost.Admin

open scoped List

/-! ## Jobs -/

/-- A command that the worker has done, and whether the store failed when it had to be saved. -/
structure Job where
  ticket : Worker.Ticket
  command : Command
  failure : Option Failure

/-- What is taken from the queue for a job. -/
def Job.call (j : Job) : Worker.Ticket × Command := (j.ticket, j.command)

namespace Desk

/-- Jobs one after another. -/
def performAll (d : Desk) (jobs : List Job) : Desk :=
  jobs.foldl (fun d j => (d.perform j.failure j.command).2) d

/-- What jobs are answered that are done one after another. -/
def outcomes (d : Desk) : List Job → List (Worker.Ticket × Except Error Answer)
  | [] => []
  | j :: rest =>
    let (applied, d) := d.perform j.failure j.command
    (j.ticket, applied.answer) :: d.outcomes rest

theorem performAll_concat (d : Desk) (jobs : List Job) (j : Job) :
    d.performAll (jobs ++ [j]) = ((d.performAll jobs).perform j.failure j.command).2 := by
  simp only [performAll, List.foldl_append, List.foldl_cons, List.foldl_nil]

theorem outcomes_concat (d : Desk) (jobs : List Job) (j : Job) :
    d.outcomes (jobs ++ [j]) = d.outcomes jobs ++
      [(j.ticket, ((d.performAll jobs).perform j.failure j.command).1.answer)] := by
  induction jobs generalizing d with
  | nil => rfl
  | cons first rest ih =>
    simp only [List.cons_append, outcomes, ih, performAll, List.foldl_cons]

/-- One more job after others, that leaves a desk and has an answer. -/
theorem concat_of_perform {d last : Desk} {jobs : List Job} {j : Job} {applied : Applied}
    (h : (d.performAll jobs).perform j.failure j.command = (applied, last)) :
    d.performAll (jobs ++ [j]) = last ∧
      d.outcomes (jobs ++ [j]) = d.outcomes jobs ++ [(j.ticket, applied.answer)] := by
  rw [performAll_concat, outcomes_concat, h]
  exact ⟨rfl, rfl⟩

end Desk

namespace Worker

/-! ## The registry of a stage -/

variable {first : Desk} {jobs : List Job} {s s' : System} {log : List Happening} {m : Move}

/-- The registry is that of the jobs that have been taken from the queue, done one after another.
Whether the store fails at the moment does not matter. -/
def Stage.InSeries (first : Desk) (jobs : List Job) (log : List Happening) (d : Desk) :
    Stage → Prop
  | .resting =>
    takenIn log = jobs.map Job.call ∧ answeredIn log = first.outcomes jobs ∧
      d = (first.performAll jobs).underFailure d.store.failure
  -- one more command has been taken, and has been done in memory alone
  | .saving ticket draft =>
    answeredIn log = first.outcomes jobs ∧
      ∃ command, takenIn log = jobs.map Job.call ++ [(ticket, command)] ∧
        ((first.performAll jobs).underFailure d.store.failure).amend command = (.pending draft, d)
  -- the last job is done when its rules are published
  | .publishing ticket =>
    takenIn log = jobs.map Job.call ∧
      first.outcomes jobs = answeredIn log ++ [(ticket, .ok (.changed true))] ∧
      d.publish = (first.performAll jobs).underFailure d.store.failure
  -- the last job is done, and only its answer is still to be given
  | .telling ticket =>
    takenIn log = jobs.map Job.call ∧
      first.outcomes jobs = answeredIn log ++ [(ticket, .ok (.changed true))] ∧
      d = (first.performAll jobs).underFailure d.store.failure

theorem inSeries_start (first : Desk) (directory : Delivery.Directory) (capacity : Nat) :
    (start first directory capacity).phase.stage.InSeries first [] []
      (start first directory capacity).desk :=
  ⟨rfl, rfl, rfl⟩

/-- What a caller does, and what else is no part of a command, neither takes a command nor answers
one. -/
theorem aside_happenings (hpart : m.isPart = false) (s s' : System) :
    takenIn (s.happenings s' m) = [] ∧ answeredIn (s.happenings s' m) = [] := by
  have harrival : ∀ ticket command, takenIn (s'.arrival ticket command) = [] ∧
      answeredIn (s'.arrival ticket command) = [] := by
    intro ticket command
    unfold System.arrival
    split <;> exact ⟨rfl, rfl⟩
  have hdeparture : ∀ ticket, takenIn (s'.departure ticket) = [] ∧
      answeredIn (s'.departure ticket) = [] := by
    intro ticket
    unfold System.departure
    split <;> exact ⟨rfl, rfl⟩
  cases m <;> try cases hpart
  case call ticket command => exact harrival ticket command
  case enter ticket =>
    unfold System.happenings
    dsimp only
    split
    · exact harrival ticket _
    all_goals exact ⟨rfl, rfl⟩
  case cancel ticket => exact hdeparture ticket
  case collect ticket => exact hdeparture ticket
  all_goals exact ⟨rfl, rfl⟩

/-- The registry stays that of the jobs when the store fails from now on, or works again. -/
theorem Stage.InSeries.setFailure {d : Desk} {stage : Stage} (h : stage.InSeries first jobs log d)
    (failure : Option Failure) : stage.InSeries first jobs log (d.underFailure failure) := by
  have hd : ∀ {d : Desk}, d = (first.performAll jobs).underFailure d.store.failure →
      d.underFailure failure = (first.performAll jobs).underFailure failure := by
    intro d hd
    rw [hd]
    rfl
  cases stage with
  | resting => exact ⟨h.1, h.2.1, hd h.2.2⟩
  | saving ticket draft =>
    obtain ⟨hanswered, command, htaken, hamend⟩ := h
    refine ⟨hanswered, command, htaken, ?_⟩
    have hagain := ((first.performAll jobs).underFailure d.store.failure).amend_underFailure
      failure command
    rwa [hamend] at hagain
  | publishing ticket => exact ⟨h.1, h.2.1, hd (d := d.publish) h.2.2⟩
  | telling ticket => exact ⟨h.1, h.2.1, hd h.2.2⟩

/-! ## Moves -/

/-- The worker takes a command; one that changes nothing is done at once. -/
theorem inSeries_serve {ticket : Ticket} {command : Command} {rest : List (Ticket × Command)}
    (hacc : Accounted s log) (hidle : s.phase = .idle)
    (hqueue : s.queue = (ticket, command) :: rest)
    (h : s.phase.stage.InSeries first jobs log s.desk) :
    let after := { s with queue := rest }.serve ticket command
    ∃ jobs, after.phase.stage.InSeries first jobs
      (log ++ .taken ticket command :: after.verdict ticket) after.desk := by
  intro after
  rw [hidle] at h
  obtain ⟨htaken, hanswered, hdesk⟩ := h
  rcases System.serve_cases { s with queue := rest } ticket command with
    ⟨outcome, hamend, hserve⟩ | ⟨draft, desk, hamend, hserve⟩
  · have hafter : after = System.answer { s with queue := rest } ticket outcome := hserve
    have hperform : (first.performAll jobs).perform s.desk.store.failure command =
        (⟨outcome, none⟩, s.desk) := by
      rw [Desk.perform, ← hdesk]
      exact Desk.apply_of_answered hamend
    obtain ⟨hlast, houtcomes⟩ :=
      Desk.concat_of_perform (j := ⟨ticket, command, s.desk.store.failure⟩) hperform
    refine ⟨jobs ++ [⟨ticket, command, s.desk.store.failure⟩], ?_⟩
    rw [hafter, System.verdict_answer]
    refine ⟨?_, ?_, ?_⟩
    · rw [takenIn_append, htaken, List.map_append]
      rfl
    · rw [houtcomes, ← hanswered, answeredIn_append]
      rfl
    · rw [hlast]
      rfl
  · have hafter : after = { s with queue := rest, desk, phase := .saving ticket draft } := hserve
    have hhand : after.phase.stage.ticket? = some ticket := by rw [hafter]; rfl
    rw [(hacc.serve hidle hqueue).verdict_eq_nil hhand, hafter]
    have hfailure : desk.store.failure = s.desk.store.failure := by
      have hagain := s.desk.amend_underFailure s.desk.store.failure command
      rw [Desk.underFailure_self] at hagain
      have hsame : desk = desk.underFailure s.desk.store.failure := by
        have hdesk' : s.desk.amend command = (.pending draft, desk) := hamend
        rw [hdesk'] at hagain
        exact (Prod.ext_iff.mp hagain).2
      rw [hsame]
      rfl
    refine ⟨jobs, ?_, command, ?_, ?_⟩
    · rw [← hanswered, answeredIn_append]
      exact List.append_nil _
    · rw [← htaken, takenIn_append]
      rfl
    · show ((first.performAll jobs).underFailure desk.store.failure).amend command = _
      rw [hfailure, ← hdesk]
      exact hamend

/-- The worker saves a change; unless rules are to be published, the command is done. -/
theorem inSeries_save {ticket : Ticket} {draft : Draft} (hacc : Accounted s log)
    (hphase : s.phase = .saving ticket draft)
    (h : s.phase.stage.InSeries first jobs log s.desk) :
    ∃ jobs, (s.save ticket draft).phase.stage.InSeries first jobs
      (log ++ (s.save ticket draft).verdict ticket) (s.save ticket draft).desk := by
  have hnext := hacc.save hphase
  rw [hphase] at h
  obtain ⟨hanswered, command, htaken, hamend⟩ := h
  have hcalls : ∀ log', takenIn log' = [] → takenIn (log ++ log') =
      List.map Job.call (jobs ++ [⟨ticket, command, s.desk.store.failure⟩]) := by
    intro log' hnone
    rw [takenIn_append, hnone, List.append_nil, htaken, List.map_append]
    rfl
  -- a command that is answered now is done
  have hdone : ∀ outcome desk, s.desk.save draft = (.answered outcome, desk) →
      s.save ticket draft = System.answer { s with desk } ticket outcome →
      ∃ jobs, (s.save ticket draft).phase.stage.InSeries first jobs
        (log ++ (s.save ticket draft).verdict ticket) (s.save ticket draft).desk := by
    intro outcome desk hsave heq
    have hperform : (first.performAll jobs).perform s.desk.store.failure command =
        (⟨outcome, none⟩, desk) :=
      Desk.apply_of_saved hamend hsave
    obtain ⟨hlast, houtcomes⟩ :=
      Desk.concat_of_perform (j := ⟨ticket, command, s.desk.store.failure⟩) hperform
    refine ⟨jobs ++ [⟨ticket, command, s.desk.store.failure⟩], ?_⟩
    rw [heq, System.verdict_answer]
    refine ⟨hcalls _ rfl, ?_, ?_⟩
    · rw [houtcomes, ← hanswered, answeredIn_append]
      rfl
    · rw [hlast]
      rfl
  rcases s.save_cases ticket draft with ⟨e, hsave, heq⟩ |
    ⟨store, hstore, ⟨answer, -, hsaved, heq⟩ | ⟨⟨before, rfl⟩, heq⟩⟩
  · exact hdone _ _ hsave heq
  · refine hdone (.ok answer) { s.desk with store } ?_ heq
    rw [Desk.save, hstore, hsaved]
  · have hhand : (s.save ticket (.routes before)).phase.stage.ticket? = some ticket := by
      rw [heq]
      rfl
    have hsave : s.desk.save (.routes before) = (.pending (), { s.desk with store }) := by
      rw [Desk.save, hstore]
      rfl
    have hperform := Desk.apply_of_pending hamend hsave
    obtain ⟨hlast, houtcomes⟩ :=
      Desk.concat_of_perform (j := ⟨ticket, command, s.desk.store.failure⟩) hperform
    refine ⟨jobs ++ [⟨ticket, command, s.desk.store.failure⟩], ?_⟩
    rw [hnext.verdict_eq_nil hhand, heq]
    refine ⟨hcalls _ rfl, ?_, ?_⟩
    · rw [houtcomes, List.append_nil, hanswered]
    · rw [hlast]
      rfl

/-- **Every move keeps the registry that of the commands that were taken.** -/
theorem inSeries_step (hacc : Accounted s log)
    (h : ∃ jobs, s.phase.stage.InSeries first jobs log s.desk) (hstep : step s m = some s') :
    ∃ jobs, s'.phase.stage.InSeries first jobs (log ++ s.happenings s' m) s'.desk := by
  obtain ⟨jobs, h⟩ := h
  cases advance_of_step hstep with
  | aside hpart hdesk hstage =>
    obtain ⟨htaken, hanswered⟩ := aside_happenings hpart s s'
    refine ⟨jobs, ?_⟩
    rw [hstage, hdesk]
    cases hs : s.phase.stage <;> rw [hs] at h <;>
      simpa only [Stage.InSeries, takenIn_append, answeredIn_append, htaken, hanswered,
        List.append_nil] using h
  | setFailure failure =>
    refine ⟨jobs, ?_⟩
    rw [System.happenings, List.append_nil]
    exact h.setFailure failure
  | take hidle hqueue =>
    simp only [System.happenings, hqueue]
    exact inSeries_serve hacc hidle hqueue h
  | save hphase =>
    simp only [System.happenings, hphase, Phase.stage, Stage.ticket?]
    exact inSeries_save hacc hphase h
  | publish hphase =>
    rw [hphase] at h
    refine ⟨jobs, ?_⟩
    rw [System.happenings, List.append_nil]
    exact h
  | @reply ticket event hphase =>
    have hhappens : s.happenings (s.answer ticket (.ok (.changed true))) .reply =
        [.answered ticket (.ok (.changed true))] := by
      simp only [System.happenings, hphase, Phase.stage, Stage.ticket?, System.verdict_answer]
    rw [hphase] at h
    obtain ⟨htaken, houtcomes, hdesk⟩ := h
    refine ⟨jobs, ?_⟩
    rw [hhappens]
    refine ⟨?_, ?_, hdesk⟩
    · rw [takenIn_append, ← htaken]
      exact List.append_nil _
    · rw [answeredIn_append, houtcomes]
      rfl

theorem inSeries_chronicle {past : List Happening} (hacc : Accounted s past)
    (h : ∃ jobs, s.phase.stage.InSeries first jobs past s.desk) (moves : List Move)
    (hrun : chronicle s moves = some (s', log)) :
    ∃ jobs, s'.phase.stage.InSeries first jobs (past ++ log) s'.desk := by
  induction moves generalizing s past log with
  | nil =>
    cases hrun
    rw [List.append_nil]
    exact h
  | cons m rest ih =>
    obtain ⟨next, hstep, hrest⟩ := Option.bind_eq_some_iff.mp hrun
    obtain ⟨⟨last, later⟩, hlast, heq⟩ := Option.map_eq_some_iff.mp hrest
    cases heq
    rw [← List.append_assoc]
    exact ih (hacc.step hstep) (inSeries_step hacc h hstep) hlast

/-- **The worker does one command after another**, in the order of its queue and each at most once,
for any number of callers and wherever cancellations and the end of the worker fall; the registry is
that of the commands taken.  A caller that is given an answer had its command taken and answered so
between its call and its return.  The command of a caller that is told that the worker has stopped,
or that had been told to give up before it called, is never taken.  Commands that are queued one
after another, such as those of calls that follow one another, are taken in this order. -/
theorem commands_in_series (first : Desk) (directory : Delivery.Directory) (capacity : Nat)
    (moves : List Move) (s : System)
    (hrun : replay (start first directory capacity) moves = some s) :
    ∃ log, chronicle (start first directory capacity) moves = some (s, log) ∧
      (∃ jobs, s.phase.stage.InSeries first jobs log s.desk) ∧
      takenIn log <+: queuedIn log ∧
      ((takenIn log).map Prod.fst).Nodup ∧
      (∀ ticket outcome, .returned ticket outcome ∈ log → outcome ≠ .error .cancelled →
        outcome ≠ .error .workerStopped →
          ∃ command, [.called ticket command, .queued ticket command, .taken ticket command,
            .answered ticket outcome, .returned ticket outcome] <+ log) ∧
      (∀ ticket command, .returned ticket (.error .workerStopped) ∈ log →
        .taken ticket command ∉ log) ∧
      (∀ ticket before after, log = before ++ .returned ticket (.error .cancelled) :: after →
        (∀ command, .called ticket command ∉ before) → ∀ command, .taken ticket command ∉ log) ∧
      (∀ t₁ c₁ t₂ c₂, [.queued t₁ c₁, .queued t₂ c₂] <+ log → .taken t₂ c₂ ∈ log →
        [.taken t₁ c₁, .taken t₂ c₂] <+ log) ∧
      ∀ t₁ c₁ outcome t₂ c₂, [.returned t₁ outcome, .called t₂ c₂] <+ log →
        .taken t₁ c₁ ∈ log → .taken t₂ c₂ ∈ log → [.taken t₁ c₁, .taken t₂ c₂] <+ log := by
  rw [← chronicle_map_fst] at hrun
  obtain ⟨⟨last, log⟩, hlog, heq⟩ := Option.map_eq_some_iff.mp hrun
  cases heq
  have hstart := accounted_start first directory capacity
  have hbooks := (accounted_chronicle hstart moves hlog).books
  have hseries := inSeries_chronicle hstart ⟨[], inSeries_start first directory capacity⟩ moves hlog
  rw [List.nil_append] at hbooks hseries
  refine ⟨log, hlog, hseries, ?_, hbooks.nodup_taken, ?_, ?_, ?_, ?_, ?_⟩
  · obtain ⟨dropped, hqueue, -⟩ := hbooks.queue
    exact ⟨_, hqueue.symm⟩
  · intro ticket outcome hreturned hcancelled hstopped
    exact hbooks.grounded.sublist_of_returned hreturned hcancelled hstopped
  · intro ticket command hreturned
    exact (hbooks.stopped ticket hreturned).2 command
  · rintro ticket before after rfl hnew command htaken
    have htrail := hbooks.grounded.sublist_of_taken htaken
    have hcalled : .called ticket command ∈
        before ++ .returned ticket (.error .cancelled) :: after := htrail.subset (by simp)
    rcases List.mem_append.mp hcalled with hmem | hmem
    · exact hnew command hmem
    · have hgrounded := hbooks.grounded
      rw [List.append_cons] at hgrounded
      have hlater : .called ticket command ∈ after := by simpa using hmem
      exact hgrounded.not_called_after (e := .returned ticket (.error .cancelled)) (by simp)
        command hlater
  · intro t₁ c₁ t₂ c₂ horder htaken
    exact hbooks.taken_of_queued horder htaken
  · intro t₁ c₁ outcome t₂ c₂ horder hfirst hsecond
    have hqueued : ∀ {ticket command}, .taken ticket command ∈ log →
        .queued ticket command ∈ log :=
      fun htaken => (hbooks.grounded.sublist_of_taken htaken).subset (by simp)
    exact hbooks.taken_of_queued
      (hbooks.grounded.queued_of_returned horder (hqueued hfirst) (hqueued hsecond)) hsecond

/-- A rule is appended, one caller stops waiting, another has been told to give up before it calls,
and a last one comes when the worker has been told to stop. -/
def untilStopped : List Move :=
  [.call 0 (.append [.of (.ofNat 1) "billing" (.classPrefix "fast")]), .call 1 (.pop [.ofNat 1]),
    .cancel 2, .take, .cancel 1, .save, .publish, .reply, .collect 0, .shutDown, .call 3 (.pop []),
    .stop, .collect 3]

theorem commands_in_series_untilStopped :
    ∃ s log, chronicle (start Desk.opened .empty 4) untilStopped = some (s, log) ∧
      (∃ command, [.called 0 command, .queued 0 command, .taken 0 command,
        .answered 0 (.ok (.changed true)), .returned 0 (.ok (.changed true))] <+ log) ∧
      ∀ command, .taken 2 command ∉ log ∧ .taken 3 command ∉ log := by
  have hrun : replay (start Desk.opened .empty 4) untilStopped = some _ := rfl
  obtain ⟨log, hlog, -, -, -, hanswered, hstopped, hcancelled, -, -⟩ :=
    commands_in_series Desk.opened .empty 4 untilStopped _ hrun
  have hwhole : chronicle (start Desk.opened .empty 4) untilStopped = some (_,
      [.called 0 _, .queued 0 _, .called 1 _, .queued 1 _, .returned 2 (.error .cancelled),
        .taken 0 _, .returned 1 (.error .cancelled), .answered 0 (.ok (.changed true)),
        .returned 0 (.ok (.changed true)), .called 3 _, .queued 3 _,
        .returned 3 (.error .workerStopped)]) := rfl
  cases hlog.symm.trans hwhole
  refine ⟨_, _, hlog, ?_, fun command => ⟨?_, ?_⟩⟩
  · exact hanswered 0 (.ok (.changed true)) (by simp) (by simp) (by simp)
  · exact hcancelled 2 [_, _, _, _] _ rfl (by simp) command
  · exact hstopped 3 command (by simp)

end Worker

end Signpost.Admin
