import Signpost.Admin.Schedule
import Signpost.Proofs.Admin.Publication

/-!
# Schedules are runs of the worker

A schedule decides whose turn it is and what time it is.  What is done in a turn are moves of the
worker, of its callers and of the surroundings, so that a schedule is one of the interleavings that
the worker and its callers may come to, and has whatever all of them have.

## Main definitions

* `Schedule.GoesOn`: a schedule goes on to another one by moves.
* `Schedule.Use`, `Schedule.apply`: what a schedule is used for.

## Main results

* `Schedule.goesOn_rounds`, `Schedule.goesOn_runOut`: groups of calls, and a worker that is waited
  for, go on by moves.
* `Schedule.exists_run`: whatever a schedule is used for, it is a run.
-/

namespace Signpost.Admin

open Worker (Move System)

theorem Worker.replay_append {s s' : System} {moves : List Move}
    (h : Worker.replay s moves = some s') (others : List Move) :
    Worker.replay s (moves ++ others) = Worker.replay s' others := by
  induction moves generalizing s with
  | nil =>
    cases h
    rfl
  | cons m rest ih =>
    obtain ⟨next, hstep, hrest⟩ := Option.bind_eq_some_iff.mp h
    rw [List.cons_append, Worker.replay, hstep]
    exact ih hrest

namespace Schedule

/-- A schedule goes on to another one by moves; the clock may advance on the way. -/
def GoesOn (s s' : Schedule) : Prop := ∃ moves, Worker.replay s.system moves = some s'.system

variable {s s' s'' : Schedule}

theorem GoesOn.refl (s : Schedule) : s.GoesOn s := ⟨[], rfl⟩

/-- No move is made when the clock advances. -/
theorem goesOn_now (s : Schedule) (now : Nat) : s.GoesOn { s with now } := ⟨[], rfl⟩

theorem GoesOn.trans (h : s.GoesOn s') (h' : s'.GoesOn s'') : s.GoesOn s'' := by
  obtain ⟨moves, hmoves⟩ := h
  obtain ⟨others, hothers⟩ := h'
  exact ⟨moves ++ others, (Worker.replay_append hmoves others).trans hothers⟩

/-! ## Turns -/

/-- A move is made, or is not possible and nothing happens. -/
theorem goesOn_move (s : Schedule) (m : Move) : s.GoesOn (s.move m) := by
  cases hstep : Worker.step s.system m with
  | none =>
    rw [move, hstep]
    exact .refl s
  | some next =>
    have hsystem : (s.move m).system = next := by
      rw [move, hstep]
      dsimp only
      split <;> rfl
    exact ⟨[m], by rw [Worker.replay, hstep, hsystem]; rfl⟩

theorem goesOn_runFor (count : Nat) (s : Schedule) : s.GoesOn (runFor count s) := by
  induction count generalizing s with
  | zero => exact .refl s
  | succ count ih =>
    rw [runFor]
    split
    · exact .refl s
    · exact (s.goesOn_move _).trans (ih _)

theorem goesOn_turn (began : Nat) (s : Schedule) (p : Pending) : s.GoesOn (turn began s p).1 := by
  unfold turn
  split
  · exact .refl s
  · split
    · exact s.goesOn_move _
    · split
      -- a command is handed over first, unless that has been done
      · next c _ =>
        dsimp only
        split
        · exact (s.goesOn_move _).trans (goesOn_move _ _)
        · exact ((s.goesOn_move _).trans (goesOn_move _ _)).trans (goesOn_move _ _)
      · exact .refl s

theorem goesOn_turns (began : Nat) (s : Schedule) (calls : List Pending) :
    s.GoesOn (turns began s calls).1 := by
  induction calls generalizing s with
  | nil => exact .refl s
  | cons p rest ih => exact (goesOn_turn began s p).trans (ih _)

/-! ## Groups of calls, and the end -/

/-- Rounds of turns go on by moves, and so do those that the clock advances for. -/
theorem goesOn_rounds (began count : Nat) (s : Schedule) (calls : List Pending) :
    s.GoesOn (rounds began count s calls).1 := by
  induction count generalizing s calls with
  | zero => exact .refl s
  | succ count ih =>
    have hturns := goesOn_turns began s calls
    rw [rounds]
    generalize turns began s calls = taken at hturns
    dsimp only
    split
    · exact hturns
    · split
      · exact (hturns.trans (goesOn_runFor _ _)).trans (ih _ _)
      · split
        · exact hturns
        · exact (hturns.trans (goesOn_now _ _)).trans (ih _ _)

theorem goesOn_perform (s : Schedule) (calls : List Call) : s.GoesOn (s.perform calls).2 :=
  goesOn_rounds s.now (roundBound s calls) s (s.pending calls)

theorem goesOn_refreshRoutes (s : Schedule) (cancelled : Bool) :
    s.GoesOn (s.refreshRoutes cancelled).2 := by
  unfold refreshRoutes
  split
  · exact .refl s
  · exact s.goesOn_move _

theorem goesOn_receiveVersion (s : Schedule) (version : Version) (cancelled : Bool) :
    s.GoesOn (s.receiveVersion version cancelled).2 := by
  unfold receiveVersion
  split
  · exact .refl s
  · exact s.goesOn_refreshRoutes cancelled

/-- A worker that is waited for goes on by moves. -/
theorem goesOn_runOut (count : Nat) (s : Schedule) : s.GoesOn (runOut count s) := by
  induction count generalizing s with
  | zero => exact .refl s
  | succ count ih =>
    have hrun : s.GoesOn s.run := goesOn_runFor _ s
    rw [runOut]
    split
    · exact hrun
    · split
      · exact hrun
      · exact (hrun.trans (goesOn_now _ _)).trans (ih _)

/-! ## Uses of a schedule -/

/-- What a schedule is used for. -/
inductive Use where
  | perform (calls : List Call)
  | refreshRoutes (cancelled : Bool)
  | receiveVersion (version : Version) (cancelled : Bool)
  | register (target : Delivery.Target) (receiver : Delivery.Receiver)
  | shutDown
  | close

/-- A schedule that has been used. -/
def apply (s : Schedule) : Use → Schedule
  | .perform calls => (s.perform calls).2
  | .refreshRoutes cancelled => (s.refreshRoutes cancelled).2
  | .receiveVersion version cancelled => (s.receiveVersion version cancelled).2
  | .register target receiver => s.move (.register target receiver)
  | .shutDown => s.shutDown
  | .close => s.close

theorem goesOn_apply (s : Schedule) (use : Use) : s.GoesOn (s.apply use) := by
  cases use with
  | perform calls => exact s.goesOn_perform calls
  | refreshRoutes cancelled => exact s.goesOn_refreshRoutes cancelled
  | receiveVersion version cancelled => exact s.goesOn_receiveVersion version cancelled
  | register target receiver => exact s.goesOn_move _
  | shutDown => exact (s.goesOn_move _).trans (goesOn_runOut _ _)
  | close => exact (s.goesOn_move _).trans (goesOn_runOut _ _)

theorem goesOn_foldl_apply (s : Schedule) (uses : List Use) : s.GoesOn (uses.foldl apply s) := by
  induction uses generalizing s with
  | nil => exact .refl s
  | cons use rest ih => exact (s.goesOn_apply use).trans (ih _)

/-- **Whatever a schedule is used for, it is a run**: the worker of an instance that has been loaded
from an empty store has come by its own moves, and those of callers and surroundings, to where it
is. -/
theorem exists_run {key : String} {desk : Desk} {timeout : Nat} {mint : Mint}
    (hload : Desk.load key .empty timeout mint = .ok desk) (directory : Delivery.Directory)
    (capacity : Nat) (uses : List Use) :
    ∃ past, Worker.Run key (uses.foldl apply (start desk directory capacity)).system past := by
  obtain ⟨moves, hmoves⟩ := goesOn_foldl_apply (start desk directory capacity) uses
  exact (Worker.Run.start directory capacity hload).replay moves hmoves

end Schedule

end Signpost.Admin
