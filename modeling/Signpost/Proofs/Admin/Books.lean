import Signpost.Proofs.Admin.Chronicle

/-!
# The books of the worker

The queue of a system, its answers and its callers are accounted for by its chronicle: what was
queued has been taken in this order or is there still, what was taken has been answered but for one
command, and a caller who waits has a command that was queued.

## Main definitions

* `Worker.Books`, `Worker.Standing`: what a chronicle says about the worker, and about a caller.
* `Worker.Accounted`: what a chronicle says about a system.

## Main results

* `Worker.Accounted.step`: a move and what it makes happen keep a system accounted for.
* `Worker.accounted_chronicle`
* `Worker.Books.taken_of_queued`: what is queued earlier is taken earlier.
-/

namespace Signpost.Admin.Worker

open scoped List
open Happening

/-! ## Books -/

/-- Neither of the two outcomes by which a caller returns without an answer. -/
structure Genuine (outcome : Except Error Answer) : Prop where
  notCancelled : outcome ≠ .error .cancelled
  notStopped : outcome ≠ .error .workerStopped

/-- What a chronicle says about the queue, the answers and the worker at its end. -/
structure Books (s : System) (log : List Happening) : Prop where
  /-- What was queued was taken, or is there still, in its order, or was dropped by a worker that
  has stopped. -/
  queue : ∃ dropped, queuedIn log = takenIn log ++ (s.queue ++ dropped) ∧
    (s.isStopped = false → dropped = [])
  /-- No command was queued twice. -/
  once : ((queuedIn log).map Prod.fst).Nodup
  /-- What was taken has been answered in this order, but for the command in hand. -/
  hand : (takenIn log).map Prod.fst =
    (answeredIn log).map Prod.fst ++ s.phase.stage.ticket?.toList
  answers : ∀ ticket outcome, s.answers.get? ticket = some outcome →
    .answered ticket outcome ∈ log
  given : ∀ ticket outcome, .answered ticket outcome ∈ log → s.answers.get? ticket ≠ none
  genuine : ∀ ticket outcome, .answered ticket outcome ∈ log → Genuine outcome
  /-- Whoever was told that the worker has stopped had a command that was never taken. -/
  stopped : ∀ ticket, .returned ticket (.error .workerStopped) ∈ log →
    s.isStopped = true ∧ ∀ command, .taken ticket command ∉ log
  grounded : Grounded log

/-- What a chronicle says about a caller at its end. -/
def Standing (log : List Happening) (ticket : Ticket) : Option Caller → Prop
  | none => ∀ e ∈ log, e.ticket ≠ ticket
  | some (.blocked command) =>
    .called ticket command ∈ log ∧ (∀ command', .queued ticket command' ∉ log) ∧
      ∀ outcome, .returned ticket outcome ∉ log
  | some .waiting =>
    (∃ command, .queued ticket command ∈ log) ∧ ∀ outcome, .returned ticket outcome ∉ log
  | some (.returned _) => True

/-- What a chronicle says about the system at its end. -/
structure Accounted (s : System) (log : List Happening) : Prop where
  books : Books s log
  standing : ∀ ticket, Standing log ticket (s.callers.get? ticket)

variable {s s' : System} {log : List Happening} {ticket : Ticket} {command : Command}

/-- What happens to one call says nothing about the caller of another. -/
theorem Standing.concat {caller : Option Caller} {e : Happening}
    (h : Standing log ticket caller) (hother : e.ticket ≠ ticket) :
    Standing (log ++ [e]) ticket caller := by
  have hqueued : ∀ command, .queued ticket command ≠ e := by rintro command rfl; exact hother rfl
  have hreturned : ∀ outcome, .returned ticket outcome ≠ e := by
    rintro outcome rfl; exact hother rfl
  rcases caller with _ | (command | _ | outcome)
  · intro e' he'
    rcases List.mem_append.mp he' with he' | he'
    · exact h e' he'
    · rw [List.mem_singleton.mp he']
      exact hother
  · obtain ⟨hcalled, hnotQueued, hnotReturned⟩ := h
    refine ⟨List.mem_append_left _ hcalled, fun command' => ?_, fun outcome => ?_⟩
    · simpa [hnotQueued command'] using hqueued command'
    · simpa [hnotReturned outcome] using hreturned outcome
  · obtain ⟨⟨command, hmem⟩, hnotReturned⟩ := h
    refine ⟨⟨command, List.mem_append_left _ hmem⟩, fun outcome => ?_⟩
    simpa [hnotReturned outcome] using hreturned outcome
  · trivial

namespace Books

/-- Systems with the same queue and answers have the same books, if their workers have the same
command in hand. -/
theorem congr (h : Books s log) (hqueue : s'.queue = s.queue) (hanswers : s'.answers = s.answers)
    (hhand : s'.phase.stage.ticket? = s.phase.stage.ticket?)
    (hstopped : s'.isStopped = s.isStopped) : Books s' log where
  queue := by rw [hqueue, hstopped]; exact h.queue
  once := h.once
  hand := by rw [hhand]; exact h.hand
  answers := by rw [hanswers]; exact h.answers
  given := by rw [hanswers]; exact h.given
  genuine := h.genuine
  stopped := by rw [hstopped]; exact h.stopped
  grounded := h.grounded

/-- A caller comes or returns. -/
theorem concat {e : Happening} (h : Books s log) (he : e.GroundedIn log)
    (hqueued : e.queued? = none) (htaken : e.taken? = none) (hanswered : e.answered? = none)
    (hstopped : ∀ ticket, e = .returned ticket (.error .workerStopped) →
      s.isStopped = true ∧ ∀ command, .taken ticket command ∉ log) :
    Books s (log ++ [e]) := by
  have hq : queuedIn [e] = [] := by simp [queuedIn, hqueued]
  have ht : takenIn [e] = [] := by simp [takenIn, htaken]
  have ha : answeredIn [e] = [] := by simp [answeredIn, hanswered]
  have hmemTaken : ∀ ticket command, .taken ticket command ∈ log ++ [e] →
      .taken ticket command ∈ log := by
    intro ticket command hmem
    rw [← mem_takenIn, takenIn_append, ht, List.append_nil] at hmem
    exact mem_takenIn.mp hmem
  have hmemAnswered : ∀ ticket outcome, .answered ticket outcome ∈ log ++ [e] →
      .answered ticket outcome ∈ log := by
    intro ticket outcome hmem
    rw [← mem_answeredIn, answeredIn_append, ha, List.append_nil] at hmem
    exact mem_answeredIn.mp hmem
  refine ⟨?_, ?_, ?_, ?_, ?_, ?_, ?_, h.grounded.concat he⟩
  · simpa only [queuedIn_append, takenIn_append, hq, ht, List.append_nil] using h.queue
  · simpa only [queuedIn_append, hq, List.append_nil] using h.once
  · simpa only [takenIn_append, answeredIn_append, ht, ha, List.append_nil] using h.hand
  · intro ticket outcome hget
    exact List.mem_append_left _ (h.answers ticket outcome hget)
  · intro ticket outcome hmem
    exact h.given ticket outcome (hmemAnswered ticket outcome hmem)
  · intro ticket outcome hmem
    exact h.genuine ticket outcome (hmemAnswered ticket outcome hmem)
  · intro ticket hmem
    have hcause : s.isStopped = true ∧ ∀ command, .taken ticket command ∉ log := by
      rcases List.mem_append.mp hmem with hmem | hmem
      · exact h.stopped ticket hmem
      · exact hstopped ticket (List.mem_singleton.mp hmem).symm
    exact ⟨hcause.1, fun command hmem => hcause.2 command (hmemTaken ticket command hmem)⟩

/-- The tickets that were taken are distinct. -/
theorem nodup_taken (h : Books s log) : ((takenIn log).map Prod.fst).Nodup := by
  obtain ⟨dropped, hqueue, -⟩ := h.queue
  have honce := h.once
  rw [hqueue, List.map_append] at honce
  exact (List.nodup_append.mp honce).1

/-- The command in hand has not been answered. -/
theorem not_answered (h : Books s log) (hhand : s.phase.stage.ticket? = some ticket)
    (outcome : Except Error Answer) : .answered ticket outcome ∉ log := by
  intro hmem
  have hnodup := h.nodup_taken
  rw [h.hand, hhand, Option.toList_some] at hnodup
  have hanswered : ticket ∈ (answeredIn log).map Prod.fst :=
    List.mem_map.mpr ⟨(ticket, outcome), mem_answeredIn.mpr hmem, rfl⟩
  exact (List.nodup_append.mp hnodup).2.2 ticket hanswered ticket List.mem_cons_self rfl

theorem answers_eq_none (h : Books s log) (hhand : s.phase.stage.ticket? = some ticket) :
    s.answers.get? ticket = none := by
  rw [Option.eq_none_iff_forall_ne_some]
  intro outcome hget
  exact h.not_answered hhand outcome (h.answers ticket outcome hget)

/-- A worker that rests has answered every command that it has taken. -/
theorem answered_of_taken (h : Books s log) (hrests : s.phase.stage.ticket? = none)
    (htaken : .taken ticket command ∈ log) : ∃ outcome, .answered ticket outcome ∈ log := by
  have hmem : ticket ∈ (takenIn log).map Prod.fst :=
    List.mem_map.mpr ⟨(ticket, command), mem_takenIn.mpr htaken, rfl⟩
  rw [h.hand, hrests, Option.toList_none, List.append_nil] at hmem
  obtain ⟨⟨ticket, outcome⟩, hanswered, rfl⟩ := List.mem_map.mp hmem
  exact ⟨outcome, mem_answeredIn.mp hanswered⟩

theorem isStopped_eq_false_of_hand (hhand : s.phase.stage.ticket? = some ticket) :
    s.isStopped = false := by
  unfold System.isStopped
  cases hphase : s.phase with
  | stopped =>
    rw [hphase] at hhand
    cases hhand
  | idle | saving | publishing | delivering | contacting => rfl

/-- A command is put into the queue. -/
theorem enqueue (h : Books s log) (hworks : s.isStopped = false)
    (hstanding : Standing log ticket (some (.blocked command))) :
    Books (s.enqueue ticket command) (log ++ [.queued ticket command]) := by
  obtain ⟨hcalled, hnew, hnotReturned⟩ := hstanding
  obtain ⟨dropped, hqueue, hdropped⟩ := h.queue
  have htaken : takenIn [.queued ticket command] = [] := rfl
  have hanswered : answeredIn [.queued ticket command] = [] := rfl
  refine ⟨⟨[], ?_, fun _ => rfl⟩, ?_, ?_, ?_, ?_, ?_, ?_,
    h.grounded.concat ⟨hcalled, hnotReturned⟩⟩
  · rw [queuedIn_append, takenIn_append, htaken, hqueue, hdropped hworks]
    simp [System.enqueue, System.setCaller, queuedIn, queued?]
  · rw [queuedIn_append, List.map_append]
    refine List.nodup_append.mpr ⟨h.once, by simp [queuedIn, queued?], ?_⟩
    intro other hother last hlast heq
    have hticket : last = ticket := by simpa [queuedIn, queued?] using hlast
    obtain ⟨⟨other, command'⟩, hmem, rfl⟩ := List.mem_map.mp hother
    have hmem' : (ticket, command') ∈ queuedIn log := by
      rw [← hticket, ← heq]
      exact hmem
    exact hnew command' (mem_queuedIn.mp hmem')
  · rw [takenIn_append, answeredIn_append, htaken, hanswered, List.append_nil, List.append_nil]
    exact h.hand
  · intro other outcome hget
    exact List.mem_append_left _ (h.answers other outcome hget)
  · intro other outcome hmem
    exact h.given other outcome (by simpa using hmem)
  · intro other outcome hmem
    exact h.genuine other outcome (by simpa using hmem)
  · intro other hmem
    obtain ⟨hstopped, -⟩ := h.stopped other (by simpa using hmem)
    rw [hworks] at hstopped
    cases hstopped

/-- The worker takes the next command from the queue and has it in hand. -/
theorem take {rest : List (Ticket × Command)} (h : Books s log) (hidle : s.phase = .idle)
    (hqueue : s.queue = (ticket, command) :: rest)
    (hs' : s'.queue = rest ∧ s'.answers = s.answers ∧ s'.phase.stage.ticket? = some ticket) :
    Books s' (log ++ [.taken ticket command]) := by
  obtain ⟨hqueue', hanswers', hhand'⟩ := hs'
  obtain ⟨dropped, hqueued, hdropped⟩ := h.queue
  have hworks : s.isStopped = false := by rw [System.isStopped, hidle]
  have hmem : .queued ticket command ∈ log := by
    rw [← mem_queuedIn, hqueued, hqueue]
    simp
  have hnone : queuedIn [.taken ticket command] = [] := rfl
  have hanswered : answeredIn [.taken ticket command] = [] := rfl
  refine ⟨⟨[], ?_, fun _ => rfl⟩, ?_, ?_, ?_, ?_, ?_, ?_, h.grounded.concat hmem⟩
  · rw [queuedIn_append, takenIn_append, hnone, hqueued, hdropped hworks, hqueue, hqueue']
    simp [takenIn, taken?]
  · simpa only [queuedIn_append, hnone, List.append_nil] using h.once
  · have hhand := h.hand
    rw [hidle] at hhand
    rw [takenIn_append, answeredIn_append, hanswered, hhand', List.map_append, hhand]
    simp [takenIn, taken?, Phase.stage, Stage.ticket?]
  · rw [hanswers']
    intro other outcome hget
    exact List.mem_append_left _ (h.answers other outcome hget)
  · rw [hanswers']
    intro other outcome hmem
    exact h.given other outcome (by simpa using hmem)
  · intro other outcome hmem
    exact h.genuine other outcome (by simpa using hmem)
  · intro other hmem
    obtain ⟨hstopped, -⟩ := h.stopped other (by simpa using hmem)
    rw [hworks] at hstopped
    cases hstopped

/-- The worker answers the command that it has in hand. -/
theorem answer {outcome : Except Error Answer} (h : Books s log)
    (hhand : s.phase.stage.ticket? = some ticket) (hgenuine : Genuine outcome) :
    Books (s.answer ticket outcome) (log ++ [.answered ticket outcome]) := by
  have hworks := isStopped_eq_false_of_hand hhand
  have hhand' := h.hand
  rw [hhand, Option.toList_some] at hhand'
  have htaken : ∃ command, .taken ticket command ∈ log := by
    have hmem : ticket ∈ (takenIn log).map Prod.fst := by rw [hhand']; simp
    obtain ⟨⟨ticket, command⟩, hin, rfl⟩ := List.mem_map.mp hmem
    exact ⟨command, mem_takenIn.mp hin⟩
  have hqueued : queuedIn [.answered ticket outcome] = [] := rfl
  have htaken' : takenIn [.answered ticket outcome] = [] := rfl
  have hmem : ∀ {other outcome'}, .answered other outcome' ∈ log ++ [.answered ticket outcome] →
      .answered other outcome' ∈ log ∨ (other = ticket ∧ outcome' = outcome) := by
    intro other outcome' hmem
    simpa using hmem
  refine ⟨?_, ?_, ?_, ?_, ?_, ?_, ?_, h.grounded.concat htaken⟩
  · obtain ⟨dropped, hqueue, hdropped⟩ := h.queue
    refine ⟨[], ?_, fun _ => rfl⟩
    rw [queuedIn_append, takenIn_append, hqueued, htaken', hqueue, hdropped hworks]
    simp [System.answer]
  · simpa only [queuedIn_append, hqueued, List.append_nil] using h.once
  · rw [takenIn_append, answeredIn_append, htaken', List.append_nil, hhand']
    simp [answeredIn, answered?, System.answer, Phase.stage, Stage.ticket?]
  · intro other outcome' hget
    simp only [System.answer, Dict.get?_put] at hget
    split at hget
    · next heq => cases hget; subst heq; simp
    · exact List.mem_append_left _ (h.answers other outcome' hget)
  · intro other outcome' hother
    simp only [System.answer, Dict.get?_put]
    split
    · exact Option.some_ne_none _
    · next hne => exact h.given other outcome' ((hmem hother).resolve_right fun heq => hne heq.1)
  · intro other outcome' hother
    rcases hmem hother with hother | ⟨-, rfl⟩
    · exact h.genuine other outcome' hother
    · exact hgenuine
  · intro other hmem
    obtain ⟨hstopped, -⟩ := h.stopped other (by simpa using hmem)
    rw [hworks] at hstopped
    cases hstopped

/-- What is queued earlier is taken earlier. -/
theorem taken_of_queued {first second : Ticket} {c₁ c₂ : Command} (h : Books s log)
    (horder : [.queued first c₁, .queued second c₂] <+ log) (htaken : .taken second c₂ ∈ log) :
    [.taken first c₁, .taken second c₂] <+ log := by
  obtain ⟨dropped, hqueue, -⟩ := h.queue
  have hsub : [(first, c₁), (second, c₂)] <+ takenIn log ++ (s.queue ++ dropped) := by
    rw [← hqueue]
    exact horder.filterMap queued?
  obtain ⟨early, late, hsplit, hearly, hlate⟩ := List.sublist_append_iff.mp hsub
  -- the second command has been taken, so that it is not among those that were queued after that
  have hlast : (second, c₂) ∉ s.queue ++ dropped := by
    intro hmem
    have honce := h.once
    rw [hqueue, List.map_append] at honce
    exact (List.nodup_append.mp honce).2.2 second
      (List.mem_map.mpr ⟨_, mem_takenIn.mpr htaken, rfl⟩) second
      (List.mem_map.mpr ⟨_, hmem, rfl⟩) rfl
  have hnone : late = [] := by
    rcases List.eq_nil_or_concat late with hnil | ⟨init, last, hconcat⟩
    · exact hnil
    · rw [hconcat, List.concat_eq_append, ← List.append_assoc] at hsplit
      have hsecond : (second, c₂) = last := by
        have hparts : [(first, c₁)] ++ [(second, c₂)] = early ++ init ++ [last] := hsplit
        exact List.singleton_inj.mp (List.append_inj' hparts rfl).2
      refine absurd (hlate.subset ?_) hlast
      rw [hconcat, hsecond]
      simp
  rw [hnone, List.append_nil] at hsplit
  rw [← hsplit] at hearly
  exact (hearly.map fun call => taken call.1 call.2).trans (map_takenIn_sublist log)

end Books

/-! ## Moves -/

theorem books_start (first : Desk) (directory : Delivery.Directory) (capacity : Nat) :
    Books (start first directory capacity) [] where
  queue := ⟨[], rfl, fun _ => rfl⟩
  once := List.nodup_nil
  hand := rfl
  answers ticket outcome h := by simp [start] at h
  given ticket outcome h := by simp at h
  genuine ticket outcome h := by simp at h
  stopped ticket h := by simp at h
  grounded := .nil

/-- What a command is answered in memory is an answer. -/
theorem genuine_of_amend {d d' : Desk} {outcome : Except Error Answer}
    (h : d.amend command = (.answered outcome, d')) : Genuine outcome := by
  rcases Desk.outcome_of_amend h with rfl | ⟨e, rfl⟩
  · exact ⟨by simp, by simp⟩
  · exact ⟨by simp, by simp⟩

namespace Accounted

variable {outcome : Except Error Answer}

/-- Only the books and the callers matter. -/
theorem congr (h : Accounted s log) (hbooks : Books s' log) (hcallers : s'.callers = s.callers) :
    Accounted s' log :=
  ⟨hbooks, by rw [hcallers]; exact h.standing⟩

/-- A caller returns, whatever has been said about it before. -/
theorem depart (hbooks : Books s log)
    (hothers : ∀ other, other ≠ ticket → Standing log other (s.callers.get? other))
    (hcause : (Happening.returned ticket outcome).GroundedIn log)
    (hstopped : outcome = .error .workerStopped →
      s.isStopped = true ∧ ∀ command, .taken ticket command ∉ log) :
    Accounted (s.setCaller ticket (.returned outcome)) (log ++ [.returned ticket outcome]) := by
  constructor
  · refine Books.congr (hbooks.concat hcause rfl rfl rfl ?_) rfl rfl rfl rfl
    rintro other ⟨⟩
    exact hstopped rfl
  · intro other
    simp only [System.setCaller, Dict.get?_put]
    split
    · trivial
    · next hne => exact (hothers other hne).concat (Ne.symm hne)

/-- A caller with a command puts it into the queue, has to wait for room, or is told that the worker
has stopped. -/
theorem offer (hbooks : Books s log)
    (hothers : ∀ other, other ≠ ticket → Standing log other (s.callers.get? other))
    (hblocked : Standing log ticket (some (.blocked command))) :
    Accounted (s.offer ticket command)
      (log ++ (s.offer ticket command).arrival ticket command) := by
  have hcaller : ∀ caller, (s.setCaller ticket caller).callers.get? ticket = some caller :=
    fun caller => (Dict.get?_put _ _ _ _).trans (if_pos rfl)
  unfold System.offer
  split
  · next hstopped =>
    have hnotTaken : ∀ command', .taken ticket command' ∉ log := by
      intro command' htaken
      obtain ⟨before, -, hqueued, hbegin⟩ := hbooks.grounded.exists_before htaken
      exact hblocked.2.1 command' (hbegin.subset (List.mem_append_left _ hqueued))
    rw [System.arrival, hcaller]
    exact depart hbooks hothers (.inr (.inl rfl)) fun _ => ⟨hstopped, hnotTaken⟩
  · next hworks =>
    have hworks' : s.isStopped = false := by simpa using hworks
    split
    · have hwaiting : (s.enqueue ticket command).callers.get? ticket = some .waiting := hcaller _
      rw [System.arrival, hwaiting]
      refine ⟨hbooks.enqueue hworks' hblocked, fun other => ?_⟩
      by_cases heq : other = ticket
      · subst heq
        rw [hwaiting]
        exact ⟨⟨command, by simp⟩, fun outcome => by simpa using hblocked.2.2 outcome⟩
      · simp only [System.enqueue, System.setCaller, Dict.get?_put, if_neg heq]
        exact (hothers other heq).concat (Ne.symm heq)
    · rw [System.arrival, hcaller, List.append_nil]
      refine ⟨hbooks.congr rfl rfl rfl rfl, fun other => ?_⟩
      by_cases heq : other = ticket
      · subst heq
        rw [hcaller]
        exact hblocked
      · simp only [System.setCaller, Dict.get?_put, if_neg heq]
        exact hothers other heq

/-- A caller comes with a command. -/
theorem call (h : Accounted s log) (hnew : s.callers.get? ticket = none) :
    Accounted (s.offer ticket command)
      (log ++ .called ticket command :: (s.offer ticket command).arrival ticket command) := by
  have hstanding := h.standing ticket
  rw [hnew] at hstanding
  have hbooks : Books s (log ++ [.called ticket command]) :=
    h.books.concat hstanding rfl rfl rfl (by rintro _ ⟨⟩)
  have hnone : ∀ e ∈ log, e.ticket ≠ ticket := hstanding
  rw [List.append_cons]
  refine offer hbooks (fun other hne => (h.standing other).concat (Ne.symm hne)) ⟨by simp, ?_, ?_⟩
  · intro command' hmem
    exact hnone (.queued ticket command') (by simpa using hmem) rfl
  · intro outcome hmem
    exact hnone (.returned ticket outcome) (by simpa using hmem) rfl

/-- What the worker does with a command says nothing about its caller, who has called and may have
returned. -/
theorem standing_concat {e : Happening} (h : Accounted s log)
    (hqueued : ∃ command, .queued e.ticket command ∈ log)
    (hworker : ∀ outcome, e ≠ .returned e.ticket outcome) (other : Ticket) :
    Standing (log ++ [e]) other (s.callers.get? other) := by
  have hother := h.standing other
  by_cases heq : e.ticket = other
  · subst heq
    obtain ⟨command, hqueued⟩ := hqueued
    rcases hcaller : s.callers.get? e.ticket with _ | (command' | _ | outcome) <;>
      rw [hcaller] at hother
    · exact absurd rfl (hother (.queued e.ticket command) hqueued)
    · exact absurd hqueued (hother.2.1 command)
    · refine ⟨⟨command, List.mem_append_left _ hqueued⟩, fun outcome hmem => ?_⟩
      rcases List.mem_append.mp hmem with hmem | hmem
      · exact hother.2 outcome hmem
      · exact hworker outcome (List.mem_singleton.mp hmem).symm
    · trivial
  · exact hother.concat heq

/-- The worker takes the next command from the queue and has it in hand. -/
theorem take {rest : List (Ticket × Command)} (h : Accounted s log) (hidle : s.phase = .idle)
    (hqueue : s.queue = (ticket, command) :: rest)
    (hs' : s'.queue = rest ∧ s'.answers = s.answers ∧ s'.phase.stage.ticket? = some ticket)
    (hcallers : s'.callers = s.callers) : Accounted s' (log ++ [.taken ticket command]) := by
  have hqueued : .queued ticket command ∈ log := by
    obtain ⟨dropped, hlist, -⟩ := h.books.queue
    rw [← mem_queuedIn, hlist, hqueue]
    simp
  refine ⟨h.books.take hidle hqueue hs', ?_⟩
  rw [hcallers]
  exact h.standing_concat ⟨command, hqueued⟩ (fun _ => nofun)

/-- The worker answers the command that it has in hand. -/
theorem answer (h : Accounted s log) (hhand : s.phase.stage.ticket? = some ticket)
    (hgenuine : Genuine outcome) :
    Accounted (s.answer ticket outcome) (log ++ (s.answer ticket outcome).verdict ticket) := by
  have hbooks := h.books.answer hhand hgenuine
  have hqueued : ∃ command, .queued ticket command ∈ log := by
    have hlast : .answered ticket outcome ∈ log ++ [.answered ticket outcome] := by simp
    obtain ⟨command, htrail⟩ := hbooks.grounded.sublist_of_answered hlast
    have hmem : .queued ticket command ∈ log ++ [.answered ticket outcome] :=
      htrail.subset (by simp)
    exact ⟨command, by simpa using hmem⟩
  rw [System.verdict_answer]
  exact ⟨hbooks, h.standing_concat hqueued (fun _ => nofun)⟩

/-- The worker goes on with the command that it has in hand. -/
theorem goOn (h : Accounted s log)
    (hsame : s'.queue = s.queue ∧ s'.answers = s.answers ∧ s'.callers = s.callers)
    (hhand : s.phase.stage.ticket? = some ticket)
    (hhand' : s'.phase.stage.ticket? = some ticket) : Accounted s' log := by
  refine h.congr (h.books.congr hsame.1 hsame.2.1 (hhand'.trans hhand.symm) ?_) hsame.2.2
  rw [Books.isStopped_eq_false_of_hand hhand, Books.isStopped_eq_false_of_hand hhand']

/-- The command in hand is not answered yet. -/
theorem verdict_eq_nil (h : Accounted s log) (hhand : s.phase.stage.ticket? = some ticket) :
    s.verdict ticket = [] := by
  rw [System.verdict, h.books.answers_eq_none hhand]

/-- The worker takes a command and does it in memory. -/
theorem serve {rest : List (Ticket × Command)} (h : Accounted s log) (hidle : s.phase = .idle)
    (hqueue : s.queue = (ticket, command) :: rest) :
    let after := { s with queue := rest }.serve ticket command
    Accounted after (log ++ .taken ticket command :: after.verdict ticket) := by
  intro after
  rw [List.append_cons]
  rcases System.serve_cases { s with queue := rest } ticket command with
    ⟨outcome, hamend, hserve⟩ | ⟨draft, desk, -, hserve⟩
  -- for a moment the worker has a command in hand that it answers at once
  · have htaken : Accounted { s with queue := rest, phase := .publishing ticket }
        (log ++ [.taken ticket command]) :=
      h.take hidle hqueue ⟨rfl, rfl, rfl⟩ rfl
    have hafter : after = System.answer { s with queue := rest, phase := .publishing ticket }
        ticket outcome := hserve
    rw [hafter]
    exact htaken.answer rfl (genuine_of_amend hamend)
  · have hafter : after = { s with queue := rest, desk, phase := .saving ticket draft } := hserve
    have htaken : Accounted after (log ++ [.taken ticket command]) := by
      rw [hafter]
      exact h.take hidle hqueue ⟨rfl, rfl, rfl⟩ rfl
    have hhand : after.phase.stage.ticket? = some ticket := by rw [hafter]; rfl
    rw [htaken.verdict_eq_nil hhand, List.append_nil]
    exact htaken

/-- The worker saves a change, or cannot. -/
theorem save {draft : Draft} (h : Accounted s log) (hphase : s.phase = .saving ticket draft) :
    Accounted (s.save ticket draft) (log ++ (s.save ticket draft).verdict ticket) := by
  have hhand : s.phase.stage.ticket? = some ticket := by rw [hphase]; rfl
  have hother : ∀ desk phase, phase.stage.ticket? = some ticket →
      Accounted { s with desk, phase } log :=
    fun desk phase hhand' => h.goOn ⟨rfl, rfl, rfl⟩ hhand hhand'
  rcases s.save_cases ticket draft with ⟨e, -, hsave⟩ |
    ⟨store, -, ⟨answer, -, -, hsave⟩ | ⟨-, hsave⟩⟩ <;> rw [hsave]
  · exact (hother (s.desk.undo draft) s.phase hhand).answer hhand
      ⟨by simp, by simp⟩
  · exact (hother { s.desk with store } s.phase hhand).answer hhand
      ⟨by simp, by simp⟩
  · have hpublishing := hother { s.desk with store } (.publishing ticket) rfl
    rw [hpublishing.verdict_eq_nil rfl, List.append_nil]
    exact hpublishing

/-- A worker that stops drops what is in its queue. -/
theorem stop (h : Accounted s log) (hidle : s.phase = .idle) :
    Accounted { s with phase := .stopped, queue := [] } log := by
  obtain ⟨dropped, hqueue, -⟩ := h.books.queue
  have hhand := h.books.hand
  rw [hidle] at hhand
  have hbooks : Books { s with phase := .stopped, queue := [] } log :=
    { h.books with
      queue := ⟨s.queue ++ dropped, hqueue, nofun⟩
      hand := hhand
      stopped := fun other hmem => ⟨rfl, (h.books.stopped other hmem).2⟩ }
  exact h.congr hbooks rfl

/-- A caller takes its answer, or is told that the worker has stopped. -/
theorem collect (h : Accounted s log)
    (hanswer : s.answers.get? ticket = some outcome ∨
      (s.answers.get? ticket = none ∧ s.isStopped = true ∧ outcome = .error .workerStopped)) :
    Accounted (s.setCaller ticket (.returned outcome)) (log ++ [.returned ticket outcome]) := by
  rcases hanswer with hanswer | ⟨hnone, hstopped, rfl⟩
  · have hanswered := h.books.answers ticket outcome hanswer
    refine depart h.books (fun other _ => h.standing other) (.inr (.inr hanswered)) ?_
    intro hout
    exact absurd hout (h.books.genuine ticket outcome hanswered).notStopped
  · refine depart h.books (fun other _ => h.standing other) (.inr (.inl rfl)) ?_
    refine fun _ => ⟨hstopped, fun command htaken => ?_⟩
    have hrests : s.phase.stage.ticket? = none := by
      cases hphase : s.phase.stage.ticket? with
      | none => rfl
      | some other =>
        rw [Books.isStopped_eq_false_of_hand hphase] at hstopped
        cases hstopped
    obtain ⟨outcome, hanswered⟩ := h.books.answered_of_taken hrests htaken
    exact h.books.given ticket outcome hanswered hnone

/-- **A move and what it makes happen keep a system accounted for.** -/
theorem step {m : Move} (h : Accounted s log) (hstep : step s m = some s') :
    Accounted s' (log ++ s.happenings s' m) := by
  cases m <;> simp only [Worker.step] at hstep
  case call other command =>
    split at hstep
    · cases hstep
    · next hcan =>
      cases hstep
      refine h.call ?_
      rw [Bool.or_eq_true, not_or] at hcan
      simpa [Dict.contains] using hcan.1
  case enter other =>
    split at hstep
    · next command hblocked =>
      split at hstep <;> cases hstep
      simp only [System.happenings, hblocked]
      refine offer h.books (fun another _ => h.standing another) ?_
      rw [← hblocked]
      exact h.standing other
    · cases hstep
  case cancel other =>
    split at hstep
    · cases hstep
    · cases hstep
      rw [System.happenings, System.departure_setCaller]
      exact depart h.books (fun another _ => h.standing another) (.inl rfl) fun hstopped => by cases hstopped
  case collect other =>
    split at hstep
    · split at hstep
      · next outcome hanswer =>
        cases hstep
        rw [System.happenings, System.departure_setCaller]
        exact h.collect (.inl hanswer)
      · next hnone =>
        split at hstep <;> cases hstep
        next hstopped =>
        rw [System.happenings, System.departure_setCaller]
        exact h.collect (.inr ⟨hnone, hstopped, rfl⟩)
    · cases hstep
  case take =>
    split at hstep
    · next other command rest hidle hqueue =>
      cases hstep
      simp only [System.happenings, hqueue]
      exact h.serve hidle hqueue
    · cases hstep
  case save =>
    split at hstep
    · next other draft hphase =>
      cases hstep
      simp only [System.happenings, hphase, Phase.stage, Stage.ticket?]
      exact h.save hphase
    · cases hstep
  case reply =>
    split at hstep
    · next other event hphase =>
      cases hstep
      simp only [System.happenings, hphase, Phase.stage, Stage.ticket?]
      exact h.answer (by rw [hphase]; rfl) ⟨by simp, by simp⟩
    · cases hstep
  case stop =>
    split at hstep
    · next hidle =>
      split at hstep <;> cases hstep
      rw [System.happenings, List.append_nil]
      exact h.stop hidle
    · cases hstep
  case publish =>
    split at hstep
    · next hphase =>
      cases hstep
      rw [System.happenings, List.append_nil]
      exact h.goOn ⟨rfl, rfl, rfl⟩ (by rw [hphase]; rfl) rfl
    · cases hstep
  case contact =>
    split at hstep
    · next ticket event next rest hphase =>
      cases hstep
      rw [System.happenings, List.append_nil]
      have hhand : s.phase.stage.ticket? = some ticket := by rw [hphase]; rfl
      unfold System.turnTo
      split
      · exact h.goOn ⟨rfl, rfl, rfl⟩ hhand rfl
      · split
        · exact h.goOn ⟨rfl, rfl, rfl⟩ hhand rfl
        · exact h.goOn ⟨rfl, rfl, rfl⟩ hhand rfl
    · cases hstep
  case finish =>
    split at hstep
    · next hphase =>
      cases hstep
      rw [System.happenings, List.append_nil]
      exact h.goOn ⟨rfl, rfl, rfl⟩ (by rw [hphase]; rfl) rfl
    · cases hstep
  case interrupt =>
    split at hstep
    · next hphase =>
      split at hstep <;> cases hstep
      rw [System.happenings, List.append_nil]
      exact h.goOn ⟨rfl, rfl, rfl⟩ (by rw [hphase]; rfl) rfl
    · cases hstep
  all_goals
    cases hstep
    rw [System.happenings, List.append_nil]
    exact h.congr (h.books.congr rfl rfl rfl rfl) rfl

end Accounted

/-- A system is accounted for by its chronicle. -/
theorem accounted_chronicle {past : List Happening} (h : Accounted s past) (moves : List Move)
    (hrun : chronicle s moves = some (s', log)) : Accounted s' (past ++ log) := by
  induction moves generalizing s past log with
  | nil =>
    cases hrun
    rw [List.append_nil]
    exact h
  | cons m rest ih =>
    obtain ⟨next, hstep, hrest⟩ := Option.bind_eq_some_iff.mp hrun
    obtain ⟨⟨last, later⟩, hlast, heq⟩ := Option.map_eq_some_iff.mp hrest
    cases heq
    rw [← List.append_assoc]
    exact ih (h.step hstep) hlast

theorem accounted_start (first : Desk) (directory : Delivery.Directory) (capacity : Nat) :
    Accounted (start first directory capacity) [] :=
  ⟨books_start first directory capacity, fun _ => nofun⟩

end Signpost.Admin.Worker
