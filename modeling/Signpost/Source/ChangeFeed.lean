import Signpost.Source.Basic

/-!
# Change feeds

A change feed merges the announcements of several sources into one stream.  It takes from the first
receiver in its list that has something.  A receiver that has fallen behind is told so and skips
what it has missed; one whose source is gone leaves the list, and the last one takes its place.

## Main definitions

* `ChangeFeed`, `ChangeFeed.subscribe`
* `ChangeFeed.receiveAt`, `ChangeFeed.receive`: what is taken from one receiver.
* `ChangeFeed.poll`: the next announcement.
* `ChangeFeed.drain`: the announcements that are there, as far as a reader's patience goes.
-/

namespace Signpost

/-- The receivers of a feed, each with the position of its source's channel. -/
structure ChangeFeed where
  receivers : List (Nat × Channel.Receiver)

/-- What is taken from one receiver. -/
inductive Reception where
  | event (e : DataChanged)
  /-- A receiver has missed something and skips it. -/
  | gap
  /-- A receiver whose source is gone has left. -/
  | departure
  /-- No receiver has anything. -/
  | pending
  /-- All receivers have left. -/
  | finished

/-- What a feed yields. -/
inductive Polled where
  | event (e : DataChanged)
  /-- Nothing yet. -/
  | pending
  /-- All sources are gone and nothing is left. -/
  | finished

namespace ChangeFeed

/-- A feed of all announcements from now on. -/
def subscribe (channels : List (Channel DataChanged)) : ChangeFeed :=
  ⟨channels.mapIdx fun i c => (i, c.subscribe)⟩

/-- What a receiver gets. -/
def get (channels : List (Channel DataChanged)) (r : Nat × Channel.Receiver) :
    Received DataChanged × Channel.Receiver :=
  match channels[r.1]? with
  | some c => c.receive r.2
  | none => (.closed, r.2)

/-- Whether a receiver has something. -/
def isReady (channels : List (Channel DataChanged)) (r : Nat × Channel.Receiver) : Bool :=
  match (get channels r).1 with
  | .nothing => false
  | _ => true

/-- Removes an item and puts the last one in its place. -/
def swapRemove {α : Type} (items : List α) (i : Nat) : List α :=
  match items.getLast? with
  | none => []
  | some last => (items.set i last).dropLast

/-- Takes from the receiver at a place. -/
def receiveAt (channels : List (Channel DataChanged)) (f : ChangeFeed) (i : Nat) :
    Reception × ChangeFeed :=
  match f.receivers[i]? with
  | none => (.pending, f)
  | some r =>
    match get channels r with
    | (.event e, next) => (.event e, ⟨f.receivers.set i (r.1, next)⟩)
    | (.lagged _, next) => (.gap, ⟨f.receivers.set i (r.1, next)⟩)
    -- a closed channel is ready only when nothing is retained for the receiver
    | (.closed, _) => (.departure, ⟨swapRemove f.receivers i⟩)
    | (.nothing, _) => (.pending, f)

/-- Takes from the first receiver that has something. -/
def receive (channels : List (Channel DataChanged)) (f : ChangeFeed) : Reception × ChangeFeed :=
  match f.receivers.findIdx? (isReady channels) with
  | none => (if f.receivers.isEmpty then .finished else .pending, f)
  | some i => f.receiveAt channels i

/-- The next announcement after at most `count` receptions. -/
def pollWithin (channels : List (Channel DataChanged)) : Nat → ChangeFeed → Polled × ChangeFeed
  | 0, f => (.pending, f)
  | count + 1, f =>
    match f.receive channels with
    | (.event e, f) => (.event e, f)
    | (.gap, f) | (.departure, f) => pollWithin channels count f
    | (.pending, f) => (.pending, f)
    | (.finished, f) => (.finished, f)

/-- The next announcement of a feed.  Before it, every receiver skips at most once and leaves at
most once. -/
def poll (channels : List (Channel DataChanged)) (f : ChangeFeed) : Polled × ChangeFeed :=
  pollWithin channels (2 * f.receivers.length + 1) f

/-- How many receptions a reader makes before somebody else has a turn. -/
def patience : Nat := 128

/-- What a reader has taken: the announcements, whether all sources are gone, and the patience that
is left. -/
structure Draught where
  events : List DataChanged
  finished : Bool
  patience : Nat

/-- Takes the announcements that are there, with at most as many receptions as there is patience. -/
def drain (channels : List (Channel DataChanged)) : Nat → ChangeFeed → Draught × ChangeFeed
  | 0, f => (⟨[], false, 0⟩, f)
  | patience + 1, f =>
    match f.receive channels with
    | (.event e, f) =>
      let (rest, f) := drain channels patience f
      ({ rest with events := e :: rest.events }, f)
    | (.gap, f) | (.departure, f) => drain channels patience f
    | (.pending, f) => (⟨[], false, patience + 1⟩, f)
    | (.finished, f) => (⟨[], true, patience + 1⟩, f)

end ChangeFeed

end Signpost
