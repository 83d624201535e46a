import Mathlib.Data.List.Nodup
import Signpost.Proofs.Routing.LookUps

/-!
# Refreshing a table from several calls at once

A table can be refreshed by any number of calls that run beside each other and beside the worker.
Each reads the version that the table mirrors, takes the snapshot that is published unless it has
that version, and applies it, and between these others go on.  A call applies what was published
when it took it.  Therefore the table can go back to an older snapshot, but only if a call has been
overtaken: after it took its snapshot another one was published, and before it applied its own
another call applied another.

## Main definitions

* `Worker.Pull`: how far a call has come that may refresh the table.
* `Worker.Pulling`, `Worker.Pulling.step`: a worker, a table, and the calls to it.
* `Worker.Pulling.Run`: the runs from a store.
* `Worker.Pulling.CommittedBefore`: the order in which versions were published.

## Main results

* `Worker.Pulling.refresh_uninterrupted`, `Worker.Pulling.receive_uninterrupted`: a call that nobody
  interrupts.
* `Worker.Pulling.effect_of_step`: all that a move can do.
* `Worker.Pulling.Sound.step`, `Worker.Pulling.Run.sound_and_handedOut`: the table mirrors one of
  the published snapshots.
* `Worker.Pulling.Run.back_only_if_overtaken`: when the table goes back, and when it has caught up.
-/

namespace Signpost.Admin.Worker

open Redirection (CallSite Snapshot)

theorem HandedOut.mono {s : System} {history : List System} {p : Snapshot}
    (h : HandedOut history p) :
    HandedOut (s :: history) p := by
  obtain ⟨q, hq, hgives⟩ := h
  exact ⟨q, List.mem_cons_of_mem s hq, hgives⟩

/-! ## Calls that refresh the table -/

/-- How far a call has come that may refresh the table. -/
inductive Pull where
  /-- It has been told of a version, and has yet to look whether the table has it. -/
  | told (version : Version)
  /-- It has yet to read the version that the table mirrors. -/
  | begun
  /-- It has read the version, and asks for another snapshot. -/
  | asking (held : Option Version)
  /-- It has been given a snapshot, which it has yet to apply. -/
  | holding (p : Snapshot)
  /-- It has returned; says whether it did so without an error. -/
  | returned (ok : Bool)

/-- A worker, a table that mirrors what it publishes, and the calls to the table. -/
structure Pulling where
  system : System
  /-- The snapshots that have been published, the last one first. -/
  log : List Snapshot
  table : RouteTable
  pulls : Dict Ticket Pull

namespace Pulling

/-- A move of the worker or its surroundings, or of a call to the table. -/
inductive Move where
  | worker (m : Worker.Move)
  /-- A route is looked up. -/
  | lookUp (capability : String) (site : CallSite)
  /-- A call begins that refreshes the table. -/
  | refresh (n : Ticket)
  /-- A call begins that is told of a version. -/
  | receive (n : Ticket) (version : Version)
  /-- A call looks whether the table has the version that it has been told of. -/
  | look (n : Ticket)
  /-- A call reads the version that the table mirrors. -/
  | read (n : Ticket)
  /-- A call takes the published snapshot, unless it has the version that it has read. -/
  | take (n : Ticket)
  /-- A call that has been told to give up does so. -/
  | giveUp (n : Ticket)
  /-- A call applies the snapshot that it has been given. -/
  | apply (n : Ticket)

/-- The state with a call that has come to some point. -/
def setPull (x : Pulling) (n : Ticket) (p : Pull) : Pulling := { x with pulls := x.pulls.put n p }

/-- One move, where it is possible. -/
def step (x : Pulling) : Move → Option Pulling
  | .worker .publish => (Worker.step x.system .publish).map fun system =>
      { x with system, log := system.published :: x.log }
  | .worker m => (Worker.step x.system m).map fun system => { x with system }
  | .lookUp capability site => some { x with table := (x.table.resolve capability site).2 }
  | .refresh n => if x.pulls.contains n then none else some (x.setPull n .begun)
  | .receive n version => if x.pulls.contains n then none else some (x.setPull n (.told version))
  | .look n =>
    match x.pulls.get? n with
    | some (.told version) =>
      some (x.setPull n (if x.table.version = some version then .returned true else .begun))
    | _ => none
  | .read n =>
    match x.pulls.get? n with
    | some .begun => some (x.setPull n (.asking x.table.version))
    | _ => none
  | .take n =>
    match x.pulls.get? n with
    | some (.asking held) =>
      match x.system.snapshotUnless held with
      | some p => some (x.setPull n (.holding p))
      | none => some (x.setPull n (.returned true))
    | _ => none
  | .giveUp n =>
    match x.pulls.get? n with
    | some (.asking _) => some (x.setPull n (.returned false))
    | _ => none
  | .apply n =>
    match x.pulls.get? n with
    | some (.holding p) => some { x.setPull n (.returned true) with table := x.table.apply p }
    | _ => none

/-- A list of moves, if each of them is possible in its turn. -/
def replay (x : Pulling) : List Move → Option Pulling
  | [] => some x
  | m :: rest => (x.step m).bind fun y => replay y rest

variable {x y : Pulling} {m : Move} {n n' : Ticket} {p : Snapshot}

theorem get?_setPull (x : Pulling) (n n' : Ticket) (p : Pull) :
    (x.setPull n p).pulls.get? n' = if n' = n then some p else x.pulls.get? n' :=
  Dict.get?_put x.pulls n n' p

@[simp] theorem get?_setPull_self (x : Pulling) (n : Ticket) (p : Pull) :
    (x.setPull n p).pulls.get? n = some p := by
  rw [get?_setPull, if_pos rfl]

/-- A call is where it has come to, and all others are where they were. -/
theorem cases_of_setPull {q q' : Pull} (h : (x.setPull n q).pulls.get? n' = some q') :
    (n' = n ∧ q' = q) ∨ x.pulls.get? n' = some q' := by
  rw [get?_setPull] at h
  split at h
  · next hn => exact .inl ⟨hn, (Option.some.inj h).symm⟩
  · exact .inr h

@[simp] theorem setPull_system (x : Pulling) (n : Ticket) (p : Pull) :
    (x.setPull n p).system = x.system := rfl

@[simp] theorem setPull_table (x : Pulling) (n : Ticket) (p : Pull) :
    (x.setPull n p).table = x.table := rfl

/-! ## What moves do -/

/-- What a move does to the worker, the table and the calls. -/
inductive Effect (x : Pulling) : Move → Pulling → Prop
  | worked {m : Worker.Move} {s : System} (hm : m ≠ .publish)
      (hstep : Worker.step x.system m = some s) : Effect x (.worker m) { x with system := s }
  | published {s : System} (hstep : Worker.step x.system .publish = some s) :
      Effect x (.worker .publish) { x with system := s, log := s.published :: x.log }
  | lookedUp (capability : String) (site : CallSite) :
      Effect x (.lookUp capability site) { x with table := (x.table.resolve capability site).2 }
  | begun {n : Ticket} (hnew : x.pulls.get? n = none) : Effect x (.refresh n) (x.setPull n .begun)
  | told {n : Ticket} (hnew : x.pulls.get? n = none) (version : Version) :
      Effect x (.receive n version) (x.setPull n (.told version))
  /-- The table has the version that the call has been told of. -/
  | knew {n : Ticket} {version : Version} (htold : x.pulls.get? n = some (.told version))
      (hversion : x.table.version = some version) :
      Effect x (.look n) (x.setPull n (.returned true))
  | heard {n : Ticket} {version : Version} (htold : x.pulls.get? n = some (.told version))
      (hversion : x.table.version ≠ some version) : Effect x (.look n) (x.setPull n .begun)
  | read {n : Ticket} (hbegun : x.pulls.get? n = some .begun) :
      Effect x (.read n) (x.setPull n (.asking x.table.version))
  /-- The call has the version that is published. -/
  | current {n : Ticket}
      (hasking : x.pulls.get? n = some (.asking (some x.system.published.version))) :
      Effect x (.take n) (x.setPull n (.returned true))
  | took {n : Ticket} {held : Option Version} (hasking : x.pulls.get? n = some (.asking held)) :
      Effect x (.take n) (x.setPull n (.holding x.system.published))
  | gaveUp {n : Ticket} {held : Option Version} (hasking : x.pulls.get? n = some (.asking held)) :
      Effect x (.giveUp n) (x.setPull n (.returned false))
  | applied {n : Ticket} {p : Snapshot} (hholding : x.pulls.get? n = some (.holding p)) :
      Effect x (.apply n) { x.setPull n (.returned true) with table := x.table.apply p }

/-- Every move does one of these things. -/
theorem effect_of_step (h : x.step m = some y) : Effect x m y := by
  cases m with
  | worker m =>
    by_cases hm : m = .publish
    · subst hm
      obtain ⟨s, hstep, rfl⟩ := Option.map_eq_some_iff.mp h
      exact .published hstep
    · have hworked : x.step (.worker m) =
          (Worker.step x.system m).map fun system => { x with system } := by
        cases m <;> first | rfl | exact absurd rfl hm
      rw [hworked] at h
      obtain ⟨s, hstep, rfl⟩ := Option.map_eq_some_iff.mp h
      exact .worked hm hstep
  | lookUp capability site =>
    cases h
    exact .lookedUp capability site
  | refresh n =>
    simp only [step] at h
    split at h <;> cases h
    next hnew => exact .begun (by simpa [Dict.contains] using hnew)
  | receive n version =>
    simp only [step] at h
    split at h <;> cases h
    next hnew => exact .told (by simpa [Dict.contains] using hnew) version
  | look n =>
    simp only [step] at h
    split at h <;> cases h
    next version htold =>
      split
      · next hversion => exact .knew htold hversion
      · next hversion => exact .heard htold hversion
  | read n =>
    simp only [step] at h
    split at h <;> cases h
    next hbegun => exact .read hbegun
  | take n =>
    simp only [step] at h
    split at h
    · next held hasking =>
      unfold System.snapshotUnless at h
      by_cases hheld : held = some x.system.published.version
      · rw [if_pos hheld] at h
        cases h
        exact .current (hheld ▸ hasking)
      · rw [if_neg hheld] at h
        cases h
        exact .took hasking
    · cases h
  | giveUp n =>
    simp only [step] at h
    split at h <;> cases h
    next hasking => exact .gaveUp hasking
  | apply n =>
    simp only [step] at h
    split at h <;> cases h
    next hholding => exact .applied hholding

/-! ## Calls that nobody interrupts -/

theorem replay_cons (h : x.step m = some y) (rest : List Move) :
    x.replay (m :: rest) = y.replay rest := by
  rw [replay, h]
  rfl

theorem step_read (h : x.pulls.get? n = some .begun) :
    x.step (.read n) = some (x.setPull n (.asking x.table.version)) := by
  simp only [step, h]

theorem step_take {held : Option Version} (h : x.pulls.get? n = some (.asking held)) :
    x.step (.take n) = some (x.setPull n
      (if held = some x.system.published.version then .returned true
        else .holding x.system.published)) := by
  simp only [step, h, System.snapshotUnless]
  by_cases hheld : held = some x.system.published.version
  · rw [if_pos hheld, if_pos hheld]
  · rw [if_neg hheld, if_neg hheld]

theorem step_apply (h : x.pulls.get? n = some (.holding p)) :
    x.step (.apply n) = some { x.setPull n (.returned true) with table := x.table.apply p } := by
  simp only [step, h]

theorem step_look {version : Version} (h : x.pulls.get? n = some (.told version)) :
    x.step (.look n) = some (x.setPull n
      (if x.table.version = some version then .returned true else .begun)) := by
  simp only [step, h]

/-- A call that has yet to read the version refreshes the table, if nobody interrupts it. -/
theorem replay_of_begun (hbegun : x.pulls.get? n = some .begun) :
    ∃ moves y, x.replay moves = some y ∧ y.pulls.get? n = some (.returned true) ∧
      y.system = x.system ∧ y.table = (x.table.refresh x.system.published).1 := by
  have htake := step_take (get?_setPull_self x n (.asking x.table.version))
  by_cases hversion : x.table.version = some x.system.published.version
  · rw [setPull_system, if_pos hversion] at htake
    exact ⟨[.read n, .take n], _, (replay_cons (step_read hbegun) _).trans (replay_cons htake _),
      get?_setPull_self _ n _, rfl, (RouteTable.refresh_of_version hversion).symm⟩
  · rw [setPull_system, if_neg hversion] at htake
    have happly := step_apply (get?_setPull_self (x.setPull n (.asking x.table.version)) n
      (.holding x.system.published))
    refine ⟨[.read n, .take n, .apply n], _,
      (replay_cons (step_read hbegun) _).trans <| (replay_cons htake _).trans <|
        replay_cons happly _, get?_setPull_self _ n _, rfl, ?_⟩
    exact (RouteTable.refresh_of_ne hversion).symm

/-- A call that nobody interrupts refreshes the table. -/
theorem refresh_uninterrupted (hnew : x.pulls.get? n = none) :
    ∃ moves y, x.replay (.refresh n :: moves) = some y ∧
      y.pulls.get? n = some (.returned true) ∧ y.system = x.system ∧
      y.table = (x.table.refresh x.system.published).1 := by
  have hstep : x.step (.refresh n) = some (x.setPull n .begun) := by
    simp [step, Dict.contains, hnew]
  obtain ⟨moves, y, hmoves, hreturned, hsystem, htable⟩ :=
    replay_of_begun (get?_setPull_self x n .begun)
  exact ⟨moves, y, (replay_cons hstep moves).trans hmoves, hreturned, hsystem, htable⟩

/-- A call that is told of a version and that nobody interrupts has the table take notice of it. -/
theorem receive_uninterrupted (hnew : x.pulls.get? n = none) (version : Version) :
    ∃ moves y, x.replay (.receive n version :: moves) = some y ∧
      y.pulls.get? n = some (.returned true) ∧ y.system = x.system ∧
      y.table = x.table.receive version x.system.published := by
  have hstep : x.step (.receive n version) = some (x.setPull n (.told version)) := by
    simp [step, Dict.contains, hnew]
  have hlook := step_look (get?_setPull_self x n (.told version))
  by_cases hversion : x.table.version = some version
  · rw [setPull_table, if_pos hversion] at hlook
    refine ⟨[.look n], _, (replay_cons hstep _).trans (replay_cons hlook _),
      get?_setPull_self _ n _, rfl, ?_⟩
    rw [RouteTable.receive, if_pos hversion]
    rfl
  · rw [setPull_table, if_neg hversion] at hlook
    obtain ⟨moves, y, hmoves, hreturned, hsystem, htable⟩ :=
      replay_of_begun (get?_setPull_self (x.setPull n (.told version)) n .begun)
    refine ⟨.look n :: moves, y, ?_, hreturned, hsystem, ?_⟩
    · exact (replay_cons hstep _).trans ((replay_cons hlook _).trans hmoves)
    · rw [RouteTable.receive, if_neg hversion]
      exact htable

/-! ## Runs -/

/-- A worker that starts, with a new table that nobody has called yet. -/
def start (s : System) : Pulling := ⟨s, [s.published], .empty, .empty⟩

/-- What a move draws. -/
def drawn (x : Pulling) : Move → Drawn
  | .worker m => x.system.drawn m
  | .lookUp _ _ | .refresh _ | .receive _ _ | .look _ | .read _ | .take _ | .giveUp _ | .apply _ =>
    .none

/-- A run of a registry that begins with some store, and of calls to a table: the state, the moves
that have led to it, and what has been drawn. -/
inductive Run (key : String) (origin : StateStore) : Pulling → List Move → Drawn → Prop
  | start {desk : Desk} {timeout : Nat} {mint : Mint} (directory : Delivery.Directory)
      (capacity : Nat) (hload : Desk.load key origin timeout mint = .ok desk) :
      Run key origin (start (Worker.start desk directory capacity)) []
        (Desk.drawnByLoad key origin mint)
  | step {x y : Pulling} {moves : List Move} {m : Move} {drawn : Drawn}
      (h : Run key origin x moves drawn) (hstep : x.step m = some y) :
      Run key origin y (moves ++ [m]) (x.drawn m ++ drawn)

/-- What some moves draw, the last one first. -/
def drawnIn (x : Pulling) : List Move → Drawn
  | [] => .none
  | m :: rest =>
    match x.step m with
    | none => .none
    | some y => drawnIn y rest ++ x.drawn m

/-- A run goes on with the moves that are possible. -/
theorem Run.replay {key : String} {origin : StateStore} {moves more : List Move} {drawn : Drawn}
    (h : Run key origin x moves drawn) (hmore : x.replay more = some y) :
    Run key origin y (moves ++ more) (x.drawnIn more ++ drawn) := by
  induction more generalizing x moves drawn with
  | nil =>
    cases hmore
    rw [List.append_nil]
    exact h
  | cons m rest ih =>
    obtain ⟨next, hstep, hrest⟩ := Option.bind_eq_some_iff.mp hmore
    have hrun := ih (h.step hstep) hrest
    rw [drawnIn, hstep]
    dsimp only
    rw [Drawn.append_assoc, List.append_cons]
    exact hrun

/-- A version was published before another one. -/
def CommittedBefore (x : Pulling) (v w : Version) : Prop :=
  [w, v].Sublist (x.log.map Snapshot.version)

/-- The log has what has been published, each version once, and the table and all calls have their
snapshots from it. -/
structure Sound (x : Pulling) : Prop where
  last : ∃ older, x.log = x.system.published :: older
  distinct : (x.log.map Snapshot.version).Nodup
  mirrors : (x.table.version = none ∧ x.table.Mirrors []) ∨
    ∃ p ∈ x.log, x.table.version = some p.version ∧ x.table.Mirrors p.rules
  held : ∀ n p, x.pulls.get? n = some (.holding p) → p ∈ x.log

namespace Sound

/-- Nothing is published before itself or before what was published before it. -/
theorem not_committedBefore (h : x.Sound) (w : Version) :
    ¬x.CommittedBefore x.system.published.version w := by
  obtain ⟨older, hlog⟩ := h.last
  have hdistinct := h.distinct
  rw [hlog, List.map_cons, List.nodup_cons] at hdistinct
  intro hbefore
  rw [CommittedBefore, hlog, List.map_cons, List.sublist_cons_iff] at hbefore
  rcases hbefore with hsublist | ⟨rest, heq, hsublist⟩
  · exact hdistinct.1 (hsublist.subset (by simp))
  · cases heq
    exact hdistinct.1 (hsublist.subset (by simp))

/-- A call that has been begun anew, or has come to a point without a snapshot. -/
theorem setPull (h : x.Sound) (n : Ticket) {p : Pull}
    (hp : ∀ q, p = .holding q → q ∈ x.log) : (x.setPull n p).Sound where
  last := h.last
  distinct := h.distinct
  mirrors := h.mirrors
  held n' q hq := by
    rcases cases_of_setPull hq with ⟨-, heq⟩ | hsame
    · exact hp q heq.symm
    · exact h.held n' q hsame

/-- Every move keeps the log and what is taken from it, as long as what is published is new. -/
theorem step (h : x.Sound)
    (hnew : m = .worker .publish → ∀ p ∈ x.log, p.version ≠ y.system.published.version)
    (hstep : x.step m = some y) : y.Sound := by
  cases effect_of_step hstep with
  | @worked m s hm hmove =>
    refine ⟨?_, h.distinct, h.mirrors, h.held⟩
    rw [show ({ x with system := s } : Pulling).system.published = x.system.published from
      published_of_step hm hmove]
    exact h.last
  | @published s hmove =>
    refine ⟨⟨_, rfl⟩, ?_, ?_, fun n p hp => List.mem_cons_of_mem _ (h.held n p hp)⟩
    · refine List.nodup_cons.mpr ⟨fun hmem => ?_, h.distinct⟩
      obtain ⟨q, hq, hversion⟩ := List.mem_map.mp hmem
      exact hnew rfl q hq hversion
    · exact h.mirrors.imp_right fun ⟨q, hq, hmirrors⟩ => ⟨q, List.mem_cons_of_mem _ hq, hmirrors⟩
  -- a look-up fills the memo, and leaves the rules and their version
  | lookedUp capability site =>
    have hversion := (x.table.shows_resolve capability site).version
    refine ⟨h.last, h.distinct, ?_, h.held⟩
    rcases h.mirrors with ⟨hnone, hmirrors⟩ | ⟨q, hq, hsome, hmirrors⟩
    · exact .inl ⟨hversion.trans hnone, (hmirrors.resolve capability site).2⟩
    · exact .inr ⟨q, hq, hversion.trans hsome, (hmirrors.resolve capability site).2⟩
  | @took n held hasking =>
    obtain ⟨older, hfirst⟩ := h.last
    refine h.setPull n fun q hq => ?_
    cases hq
    rw [hfirst]
    exact List.mem_cons_self
  | @applied n p hholding =>
    have hsame := h.setPull n (p := .returned true) nofun
    exact ⟨hsame.last, hsame.distinct,
      .inr ⟨p, h.held n p hholding, rfl, x.table.mirrors_apply p⟩, hsame.held⟩
  | begun | told | knew | heard | read | current | gaveUp => exact h.setPull _ nofun

end Sound

section Runs

variable {key : String} {origin : StateStore} {moves : List Move} {drawn : Drawn}

/-- What is published next has a version that nobody has been given. -/
theorem version_publish_ne {s s' : System} {past : List System} {versions : List Version}
    {book : List Snapshot} (h : Ledger key s (s :: past) versions book)
    (hstep : Worker.step s .publish = some s') (hp : HandedOut (s :: past) p) :
    p.version ≠ s'.published.version := by
  cases advance_of_step hstep with
  | aside hpart => cases hpart
  | publish hphase => exact h.hidden (by rw [hphase]; trivial) p hp

/-- **The table mirrors one of the published snapshots**, and every call holds one, whatever calls
overlap. -/
theorem Run.sound_and_handedOut (h : Run key origin x moves drawn)
    (hfresh : (drawn.versions ++ origin.versions key).Nodup) :
    x.Sound ∧ ∃ past, Drawing key origin x.system past drawn ∧
      ∀ p ∈ x.log, HandedOut (x.system :: past) p := by
  induction h with
  | @start desk timeout mint directory capacity hload =>
    refine ⟨⟨⟨[], rfl⟩, List.pairwise_singleton _ _, .inl ⟨rfl, RouteTable.mirrors_empty⟩, nofun⟩,
      [], .start directory capacity hload, fun p hp => ?_⟩
    obtain rfl := List.mem_singleton.mp hp
    exact handedOut_published []
  | @step x y moves m drawn h hstep ih =>
    have hearlier := Drawn.nodup_of_append hfresh
    obtain ⟨hsound, past, hrun, hlog⟩ := ih hearlier
    -- all that has been published was handed out, and nothing is handed out before it is published
    have hnew : m = .worker .publish →
        ∀ p ∈ x.log, p.version ≠ y.system.published.version := by
      rintro rfl p hp
      obtain ⟨s, hmove, rfl⟩ := Option.map_eq_some_iff.mp hstep
      obtain ⟨book, hledger⟩ := hrun.ledger hearlier
      exact version_publish_ne hledger hmove (hlog p hp)
    refine ⟨hsound.step hnew hstep, ?_⟩
    cases effect_of_step hstep with
    | worked _ hmove => exact ⟨x.system :: past, hrun.move hmove, fun p hp => (hlog p hp).mono⟩
    | published hmove =>
      refine ⟨x.system :: past, hrun.move hmove, fun p hp => ?_⟩
      rcases List.mem_cons.mp hp with rfl | hp
      · exact handedOut_published _
      · exact (hlog p hp).mono
    | lookedUp | begun | told | knew | heard | read | current | took | gaveUp | applied =>
      exact ⟨past, hrun, hlog⟩

/-! ## Calls that are overtaken -/

/-- A call has been overtaken in some moves: a snapshot is published, and after that another call
applies one. -/
def Overtaken (n : Ticket) (moves : List Move) : Prop :=
  ∃ before between after m, m ≠ n ∧
    moves = before ++ .worker .publish :: between ++ .apply m :: after

theorem Overtaken.snoc (h : Overtaken n moves) (m : Move) : Overtaken n (moves ++ [m]) := by
  obtain ⟨before, between, after, k, hk, rfl⟩ := h
  exact ⟨before, between, after ++ [m], k, hk, by simp⟩

/-- What is left of the moves since a call took its snapshot: if that is not the last one any more,
then another has been published since; and if the table mirrors a later one, then the call has been
overtaken. -/
structure Since (x : Pulling) (n : Ticket) (p : Snapshot) (moves : List Move) : Prop where
  published : p = x.system.published ∨ .worker .publish ∈ moves
  overtaken : ∀ v, x.table.version = some v → x.CommittedBefore p.version v → Overtaken n moves

theorem Since.snoc (h : x.Since n p moves) (hpublished : y.system.published = x.system.published)
    (hlog : y.log = x.log) (htable : y.table.version = x.table.version) (m : Move) :
    y.Since n p (moves ++ [m]) where
  published := by
    rw [hpublished]
    exact h.published.imp_right fun hmem => List.mem_append_left _ hmem
  overtaken v hv hbefore := by
    rw [htable] at hv
    rw [CommittedBefore, hlog] at hbefore
    exact (h.overtaken v hv hbefore).snoc m

/-- Every move that is not the call's own keeps what is known since it took its snapshot. -/
theorem Since.step (h : x.Since n p moves) (hsound : x.Sound) (hsound' : y.Sound)
    (hholding : x.pulls.get? n = some (.holding p)) (hstill : y.pulls.get? n = some (.holding p))
    (hstep : x.step m = some y) : y.Since n p (moves ++ [m]) := by
  cases effect_of_step hstep with
  | worked hm hmove =>
    refine h.snoc ?_ ?_ ?_ _
    · exact published_of_step hm hmove
    · rfl
    · rfl
  | @published s hmove =>
    refine ⟨.inr (by simp), fun v hv hbefore => (h.overtaken v hv ?_).snoc _⟩
    -- the table mirrors something older than what has just been published
    rw [CommittedBefore, List.map_cons, List.sublist_cons_iff] at hbefore
    rcases hbefore with hbefore | ⟨rest, heq, -⟩
    · exact hbefore
    · have hnew := (List.nodup_cons.mp hsound'.distinct).1
      rcases hsound.mirrors with ⟨hnone, -⟩ | ⟨q, hq, hsome, -⟩
      · exact nomatch hnone.symm.trans hv
      · have hversion : q.version = s.published.version :=
          (Option.some.inj (hsome.symm.trans hv)).trans (List.cons.inj heq).1
        exact absurd (hversion ▸ List.mem_map_of_mem hq) hnew
  | lookedUp capability site =>
    refine h.snoc ?_ ?_ ?_ _
    · rfl
    · rfl
    · exact (x.table.shows_resolve capability site).version
  | @applied k q hq =>
    -- the call itself holds its snapshot still
    have hne : k ≠ n := by
      rintro rfl
      exact nomatch (get?_setPull_self x k (.returned true)).symm.trans hstill
    refine ⟨h.published.imp_right fun hmem => List.mem_append_left _ hmem, fun v hv hbefore => ?_⟩
    rcases h.published with rfl | hmem
    · exact absurd hbefore (hsound.not_committedBefore v)
    -- another snapshot was published, and this move comes after that
    · obtain ⟨before, between, rfl⟩ := List.append_of_mem hmem
      exact ⟨before, between, [], k, hne, rfl⟩
  | begun | told | knew | heard | read | current | took | gaveUp =>
    refine h.snoc ?_ ?_ ?_ _ <;> rfl

/-- A call comes to hold a snapshot when it takes what is published. -/
theorem took_of_holding (hstep : x.step m = some y) (hbefore : x.pulls.get? n ≠ some (.holding p))
    (hafter : y.pulls.get? n = some (.holding p)) :
    m = .take n ∧ p = x.system.published ∧ y = x.setPull n (.holding p) := by
  cases effect_of_step hstep with
  | worked | published | lookedUp => exact absurd hafter hbefore
  | @took k held hasking =>
    rcases cases_of_setPull hafter with ⟨rfl, heq⟩ | hsame
    · cases heq
      exact ⟨rfl, rfl, rfl⟩
    · exact absurd hsame hbefore
  -- no other move gives a call a snapshot
  | @applied k q hq =>
    have hother : (x.setPull k (.returned true)).pulls.get? n = some (.holding p) := hafter
    rcases cases_of_setPull hother with ⟨-, heq⟩ | hsame
    · cases heq
    · exact absurd hsame hbefore
  | begun | told | knew | heard | read | current | gaveUp =>
    rcases cases_of_setPull hafter with ⟨-, heq⟩ | hsame
    · cases heq
    · exact absurd hsame hbefore

/-- Every call that holds a snapshot has taken it at some move of the run. -/
theorem Run.exists_take (h : Run key origin x moves drawn)
    (hfresh : (drawn.versions ++ origin.versions key).Nodup)
    (hholding : x.pulls.get? n = some (.holding p)) :
    ∃ before after, moves = before ++ .take n :: after ∧ x.Since n p after := by
  induction h with
  | start directory capacity hload => cases hholding
  | @step x y moves m drawn h hstep ih =>
    have hsound' := ((h.step hstep).sound_and_handedOut hfresh).1
    have hearlier := Drawn.nodup_of_append hfresh
    have hsound := (h.sound_and_handedOut hearlier).1
    by_cases hbefore : x.pulls.get? n = some (.holding p)
    · obtain ⟨before, after, rfl, hsince⟩ := ih hearlier hbefore
      exact ⟨before, after ++ [m], by simp, hsince.step hsound hsound' hbefore hholding hstep⟩
    -- the call has just taken it
    · obtain ⟨rfl, rfl, rfl⟩ := took_of_holding hstep hbefore hholding
      exact ⟨moves, [], rfl, .inl rfl, fun v _ hv => absurd hv (hsound.not_committedBefore v)⟩

/-! ## Calls after the last publication -/

/-- What a call goes by at each point if it is to leave the table up to date: it has been told of no
other version than the published one, and has nothing to do only if the table is up to date. -/
def Fits (x : Pulling) : Pull → Prop
  | .told version => version = x.system.published.version
  | .asking held => held = some x.system.published.version →
      x.table.version = some x.system.published.version
  | .returned ok => ok = true → x.table.version = some x.system.published.version
  | .begun | .holding _ => True

/-- All calls that hold a snapshot hold the one that is published, and one call, if it has begun, is
going to leave the table up to date, or has done so. -/
structure CatchingUp (x : Pulling) (n : Ticket) : Prop where
  held : ∀ k q, x.pulls.get? k = some (.holding q) → q = x.system.published
  fits : ∀ p, x.pulls.get? n = some p → x.Fits p

theorem Fits.congr {p : Pull} (h : x.Fits p) (hpublished : y.system.published = x.system.published)
    (htable : y.table.version = x.table.version) : y.Fits p := by
  cases p <;> simp only [Fits, hpublished, htable] at h ⊢ <;> exact h

/-- A table that is up to date is up to date for every call. -/
theorem Fits.of_version {p : Pull} (h : x.Fits p)
    (hpublished : y.system.published = x.system.published)
    (htable : y.table.version = some y.system.published.version) : y.Fits p := by
  cases p with
  | told version => exact h.trans (congrArg Snapshot.version hpublished.symm)
  | asking held | returned ok => exact fun _ => htable
  | begun | holding q => trivial

theorem CatchingUp.setPull (h : x.CatchingUp n) (k : Ticket) {p : Pull}
    (hheld : ∀ q, p = .holding q → q = x.system.published) (hfits : k = n → x.Fits p) :
    (x.setPull k p).CatchingUp n := by
  constructor
  · intro k' q hq
    rcases cases_of_setPull hq with ⟨-, heq⟩ | hsame
    · exact hheld q heq.symm
    · exact h.held k' q hsame
  · intro p' hp'
    have hfits' : x.Fits p' := by
      rcases cases_of_setPull hp' with ⟨hk, rfl⟩ | hsame
      · exact hfits hk.symm
      · exact h.fits p' hsame
    exact hfits'.congr rfl rfl

/-- As long as nothing is published, every move lets a call catch up. -/
theorem CatchingUp.step (h : x.CatchingUp n) (hm : m ≠ .worker .publish)
    (hreceive : ∀ v, m = .receive n v → v = x.system.published.version)
    (hstep : x.step m = some y) :
    y.CatchingUp n ∧ y.system.published = x.system.published := by
  cases effect_of_step hstep with
  | worked hne hmove =>
    have hpublished := published_of_step hne hmove
    exact ⟨⟨fun k q hq => (h.held k q hq).trans hpublished.symm,
      fun p hp => (h.fits p hp).congr hpublished rfl⟩, hpublished⟩
  | published _ => exact absurd rfl hm
  | lookedUp capability site =>
    have hversion := (x.table.shows_resolve capability site).version
    exact ⟨⟨h.held, fun p hp => (h.fits p hp).congr rfl hversion⟩, rfl⟩
  | begun hnew => exact ⟨h.setPull _ nofun fun _ => trivial, rfl⟩
  | told hnew version =>
    refine ⟨h.setPull _ nofun fun hk => ?_, rfl⟩
    exact hreceive version (by rw [hk])
  | @knew k version htold hversion =>
    refine ⟨h.setPull _ nofun fun hk _ => ?_, rfl⟩
    have hfits : x.Fits (.told version) := h.fits _ (hk ▸ htold)
    exact hversion.trans (congrArg some hfits)
  | heard htold hversion => exact ⟨h.setPull _ nofun fun _ => trivial, rfl⟩
  | read hbegun => exact ⟨h.setPull _ nofun fun _ => id, rfl⟩
  | current hasking =>
    refine ⟨h.setPull _ nofun fun hk _ => ?_, rfl⟩
    have hfits : x.Fits (.asking (some x.system.published.version)) := h.fits _ (hk ▸ hasking)
    exact hfits rfl
  | took hasking =>
    exact ⟨h.setPull _ (fun q hq => (Pull.holding.inj hq).symm) fun _ => trivial, rfl⟩
  | gaveUp hasking => exact ⟨h.setPull _ nofun fun _ => nofun, rfl⟩
  | @applied k p hholding =>
    -- what is applied is what is published
    have hversion : (x.table.apply p).version = some x.system.published.version := by
      rw [h.held k p hholding]
      rfl
    have hsame : CatchingUp { x with table := x.table.apply p } n :=
      ⟨h.held, fun p' hp' => (h.fits p' hp').of_version rfl hversion⟩
    exact ⟨hsame.setPull k nofun fun _ _ => hversion, rfl⟩

/-- Moves in which nothing is published let a call catch up. -/
theorem CatchingUp.replay (h : x.CatchingUp n) (hmoves : x.replay moves = some y)
    (hquiet : .worker .publish ∉ moves)
    (hreceive : ∀ v, .receive n v ∈ moves → v = x.system.published.version) :
    y.CatchingUp n := by
  induction moves generalizing x with
  | nil =>
    cases hmoves
    exact h
  | cons m rest ih =>
    obtain ⟨next, hstep, hrest⟩ := Option.bind_eq_some_iff.mp hmoves
    obtain ⟨hm, hquiet⟩ := not_or.mp (mt List.mem_cons.mpr hquiet)
    obtain ⟨hnext, hpublished⟩ := h.step (Ne.symm hm)
      (fun v hv => hreceive v (hv ▸ List.mem_cons_self)) hstep
    refine ih hnext hrest hquiet fun v hv => ?_
    rw [hpublished]
    exact hreceive v (List.mem_cons_of_mem m hv)

/-! ## The mirror -/

/-- **A mirror goes back only if a call has been overtaken**.  Let no version be drawn twice.
Whatever calls overlap, the table mirrors one of the published snapshots as a whole.  If a move
replaces its version by one that was published before, then it is a call that applies its snapshot,
and since the call took it another snapshot was published, and then another call applied one.  If
nothing is published any more, and all calls that hold a snapshot hold the last one, then every call
that begins after that, and has not been told of another version, leaves the table up to date when
it returns, unless it was given up; and it stays so. -/
theorem Run.back_only_if_overtaken (h : Run key origin x moves drawn)
    (hfresh : (drawn.versions ++ origin.versions key).Nodup) :
    ((x.table.version = none ∧ x.table.Mirrors []) ∨
      ∃ p ∈ x.log, x.table.version = some p.version ∧ x.table.Mirrors p.rules) ∧
    (∀ (m : Move) (y : Pulling) (v w : Version), x.step m = some y →
      x.table.version = some v → y.table.version = some w → x.CommittedBefore w v →
      ∃ n before after, m = .apply n ∧ moves = before ++ .take n :: after ∧ Overtaken n after) ∧
    ∀ (y : Pulling) (more : List Move) (n : Ticket), y.replay more = some x →
      .worker .publish ∉ more →
      (∀ k q, y.pulls.get? k = some (.holding q) → q = y.system.published) →
      y.pulls.get? n = none →
      (∀ v, .receive n v ∈ more → v = y.system.published.version) →
      x.pulls.get? n = some (.returned true) →
        x.table.version = some x.system.published.version ∧
          x.table.Mirrors x.system.published.rules := by
  have hsound := (h.sound_and_handedOut hfresh).1
  refine ⟨hsound.mirrors, fun m y v w hstep hv hw hbefore => ?_, ?_⟩
  · have hirreflexive : ¬x.CommittedBefore v v := fun hself =>
      absurd (List.nodup_iff_sublist.mp hsound.distinct v) (not_not_intro hself)
    have hmoved : y.table.version ≠ x.table.version := fun hsame =>
      hirreflexive (Option.some.inj (hw.symm.trans (hsame.trans hv)) ▸ hbefore)
    -- only a call that applies its snapshot changes the version
    cases effect_of_step hstep with
    | lookedUp capability site =>
      exact absurd (x.table.shows_resolve capability site).version hmoved
    | @applied n p hholding =>
      obtain ⟨before, after, hmoves, hsince⟩ := h.exists_take hfresh hholding
      cases hw
      exact ⟨n, before, after, rfl, hmoves, hsince.overtaken v hv hbefore⟩
    | worked | published | begun | told | knew | heard | read | current | took | gaveUp =>
      exact absurd rfl hmoved
  · intro y more n hmore hquiet hheld hnew hreceive hreturned
    have hcatching : y.CatchingUp n := ⟨hheld, fun p hp => nomatch hnew.symm.trans hp⟩
    have hversion : x.table.version = some x.system.published.version :=
      (hcatching.replay hmore hquiet hreceive).fits _ hreturned rfl
    refine ⟨hversion, ?_⟩
    obtain ⟨older, hlog⟩ := hsound.last
    rcases hsound.mirrors with ⟨hnone, -⟩ | ⟨p, hp, hsome, hmirrors⟩
    · exact nomatch hnone.symm.trans hversion
    · have hlast : x.system.published ∈ x.log := hlog ▸ List.mem_cons_self
      have hsame : p = x.system.published := List.inj_on_of_nodup_map hsound.distinct hp hlast
        (Option.some.inj (hsome.symm.trans hversion))
      exact hsame ▸ hmirrors

end Runs

/-- The worker appends a rule. -/
def appended (ticket : Ticket) (id : Nat) (source : String) : List Move :=
  [.call ticket (.append [.of (.ofNat id) source (.classPrefix "fast")]), .take, .save, .publish,
    .reply].map .worker

/-- Two calls refresh the table; the first one takes its snapshot before a rule is appended, the
second one after that. -/
def overlapping : List Move :=
  appended 0 1 "billing" ++ [.refresh 0, .read 0, .take 0] ++ appended 1 2 "orders" ++
    [.refresh 1, .read 1, .take 1, .apply 1]

/-- A new table beside a new worker. -/
def opened : Pulling := start (Worker.start Desk.opened .empty 4)

/-- The state in which the first call has been overtaken. -/
def overtaken : Pulling := (opened.replay overlapping).getD opened

/-- The state after the first call has applied its snapshot. -/
def takenBack : Pulling := (overtaken.step (.apply 0)).getD opened

/-- The state after a third call. -/
def caughtUp : Pulling :=
  (takenBack.replay [.refresh 2, .read 2, .take 2, .apply 2]).getD opened

theorem run_overtaken :
    Run "node" .empty overtaken overlapping
        (opened.drawnIn overlapping ++ Desk.drawnByLoad "node" .empty default) ∧
      (opened.drawnIn overlapping ++ Desk.drawnByLoad "node" .empty default).versions.Nodup := by
  have hload : Desk.load "node" .empty 2000 default = .ok Desk.opened := rfl
  have hmoves : opened.replay overlapping = some overtaken := rfl
  exact ⟨(Run.start .empty 4 hload).replay hmoves, by decide⟩

theorem committedBefore_overtaken :
    ∃ v w, overtaken.table.version = some v ∧ takenBack.table.version = some w ∧
      overtaken.CommittedBefore w v :=
  ⟨_, _, rfl, rfl, ((List.nil_sublist _).cons_cons _).cons_cons _⟩

/-- The first call has been overtaken, and the third one brings the table up to date. -/
theorem back_only_if_overtaken_thirdCall :
    (∃ before after, overlapping = before ++ .take 0 :: after ∧ Overtaken 0 after) ∧
      caughtUp.table.version = some caughtUp.system.published.version := by
  obtain ⟨hrun, hfresh⟩ := run_overtaken
  have hback : overtaken.step (.apply 0) = some takenBack := rfl
  have hmore : takenBack.replay [.refresh 2, .read 2, .take 2, .apply 2] = some caughtUp := rfl
  have hnone : StateStore.empty.versions "node" = [] := rfl
  have hentries : takenBack.pulls.entries = [(0, .returned true), (1, .returned true)] := rfl
  constructor
  · obtain ⟨v, w, hv, hw, hbefore⟩ := committedBefore_overtaken
    obtain ⟨n, before, after, hm, hmoves, hovertaken⟩ :=
      (hrun.back_only_if_overtaken (by rwa [hnone, List.append_nil])).2.1 _ _ v w hback hv hw
        hbefore
    cases hm
    exact ⟨before, after, hmoves, hovertaken⟩
  · have hlater := (hrun.step hback).replay hmore
    refine ((hlater.back_only_if_overtaken ?_).2.2 takenBack _ 2 hmore (by simp) ?_ rfl (by simp)
      rfl).1
    · rw [hnone, List.append_nil]
      exact hfresh
    · intro k q hq
      have hmem := (Dict.mem_entries_iff _ _ _).mpr hq
      rw [hentries] at hmem
      simp at hmem

/-- **A mirror can go back and stay behind**: both calls have returned, one of them after the last
snapshot was published, and the table mirrors the one before. -/
theorem overtaken_call_takes_back :
    ∃ x moves drawn y, Run "node" .empty x moves drawn ∧ drawn.versions.Nodup ∧
      x.step (.apply 0) = some y ∧
      (∃ v w, x.table.version = some v ∧ y.table.version = some w ∧ x.CommittedBefore w v) ∧
      y.pulls.values = [.returned true, .returned true] ∧
      y.table.version ≠ some y.system.published.version :=
  ⟨overtaken, overlapping, _, takenBack, run_overtaken.1, run_overtaken.2, rfl,
    committedBefore_overtaken, rfl, by decide⟩

end Pulling

end Signpost.Admin.Worker
