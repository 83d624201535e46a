/-!
# Broadcasts

A channel hands every event to every receiver that was there when it was sent.  It retains the
newest events up to a capacity; a receiver that is further behind is told how many events it has
missed and goes on with the oldest one that is retained.  After the channel is closed, a receiver
still gets what is retained.

## Main definitions

* `Channel`, `Channel.send`, `Channel.close`
* `Channel.Receiver`, `Channel.subscribe`, `Channel.receive`
-/

namespace Signpost

/-- The events that have been sent, the oldest first. -/
structure Channel (ε : Type) where
  sent : List ε
  closed : Bool

namespace Channel

variable {ε : Type}

/-- A channel to which nothing has been sent. -/
def new : Channel ε := ⟨[], false⟩

instance : Inhabited (Channel ε) := ⟨new⟩

/-- How many events are retained. -/
def capacity : Nat := 256

/-- Sends an event. -/
def send (c : Channel ε) (event : ε) : Channel ε := { c with sent := c.sent ++ [event] }

/-- Closes a channel. -/
def close (c : Channel ε) : Channel ε := { c with closed := true }

/-- The number of the oldest event that is retained. -/
def oldest (c : Channel ε) : Nat := c.sent.length - capacity

end Channel

/-- How far a receiver has come. -/
structure Channel.Receiver where
  /-- The number of the event that is due next. -/
  next : Nat
deriving DecidableEq, Inhabited

/-- A receiver of all events from now on. -/
def Channel.subscribe {ε : Type} (c : Channel ε) : Channel.Receiver := ⟨c.sent.length⟩

/-- What a receiver gets. -/
inductive Received (ε : Type) where
  | event (e : ε)
  /-- Some events are no longer retained. -/
  | lagged (missed : Nat)
  | closed
  /-- There is nothing yet. -/
  | nothing

/-- What a receiver gets next, and the receiver after it. -/
def Channel.receive {ε : Type} (c : Channel ε) (r : Channel.Receiver) :
    Received ε × Channel.Receiver :=
  if r.next < c.oldest then (.lagged (c.oldest - r.next), ⟨c.oldest⟩)
  else
    match c.sent[r.next]? with
    | some e => (.event e, ⟨r.next + 1⟩)
    | none => (if c.closed then .closed else .nothing, r)

/-- Everything that a receiver gets now. -/
def Channel.receiveAll {ε : Type} (c : Channel ε) (r : Channel.Receiver) :
    List (Received ε) × Channel.Receiver :=
  let missed := c.oldest - r.next
  ((if missed = 0 then [] else [.lagged missed]) ++
    (c.sent.drop (max r.next c.oldest)).map .event, ⟨max r.next c.sent.length⟩)

end Signpost
