import Signpost.Subscription.Roster
import Signpost.Timing

/-!
# Deliveries

An event is delivered to the subscribers of its category one after another, to each at most once.
Each has a time of its own, and one that is missing, fails or takes too long does not keep the
others from theirs.

What a receiver does is known beforehand, so that a delivery that nobody interferes with is a value:
a contact, with what is noted of it, how long it takes and how it ends.

## Main definitions

* `Delivery.Receiver`, `Delivery.Directory`
* `Delivery.Error` and its wording
* `Delivery.Contact`, `Delivery.contact`: a delivery when nobody interferes.
* `Delivery.deliverAll`: the deliveries of one event.
-/

namespace Signpost.Delivery

open Redirection (Snapshot)

/-- Who receives events. -/
inductive Receiver where
  /-- A listener, which may read the published rules before it does its work. -/
  | listener (reads : Bool) (work : Course Unit)
  /-- The node's own route table. -/
  | routeTable

/-- The receivers that are there, by target. -/
abbrev Directory := Dict Target Receiver

/-- Why a delivery failed. -/
inductive Error where
  /-- Nobody is there. -/
  | unresolved (target : Target)
  | timedOut (limit : Nat)
  | cancelled
  | receiver (text : String)
deriving DecidableEq

/-- The name of the kind of a delivery error. -/
def Error.kind : Error → String
  | .unresolved _ => "unresolved"
  | .timedOut _ => "timed_out"
  | .cancelled => "cancelled"
  | .receiver _ => "receiver"

/-- The wording of a delivery error. -/
def Error.message : Error → String
  | .unresolved target => "no receiver reachable for " ++ target.text
  | .timedOut limit => "delivery timed out after " ++ Text.duration limit
  | .cancelled => "delivery cancelled"
  | .receiver text => "receiver failed: " ++ text

/-- The JSON form of a delivery error. -/
def Error.toJson (e : Error) : Json :=
  .object [("error", .string e.kind), ("message", .string e.message)]

/-- What a receiver is seen doing. -/
inductive Occasion where
  | start
  /-- It read the published rules; says whether they had the event's version. -/
  | read (rules : Nat) (current : Bool)
  | done
deriving DecidableEq

/-- The text of an occasion. -/
def Occasion.text : Occasion → String
  | .start => "start"
  | .read rules current => "read " ++ toString rules ++ " rules, current=" ++ toString current
  | .done => "done"

/-- What a receiver is seen doing with an event. -/
structure Note where
  target : Target
  version : Version
  occasion : Occasion
deriving DecidableEq

/-- The JSON form of a note. -/
def Note.toJson (n : Note) : Json :=
  .object [("to", .string n.target.text), ("version", .string n.version.text),
    ("event", .string n.occasion.text)]

/-- A delivery when nobody interferes. -/
structure Contact where
  /-- What the receiver is seen doing at the start. -/
  opening : List Occasion
  lasts : Nat
  outcome : Except Error Unit
  /-- What the receiver is seen doing at the end. -/
  closing : List Occasion

/-- The delivery of an event to a receiver, within a time.  A listener that reads is given the
published rules if there are any to be had. -/
def contact (published : Option Snapshot) (timeout : Nat) (event : Event) : Receiver → Contact
  | .routeTable => ⟨[], 0, .ok (), []⟩
  | .listener reads work =>
    let opening := .start :: match reads, published with
      | true, some s => [.read s.rules.length (decide (s.version = event.version))]
      | _, _ => []
    let late : Contact := ⟨opening, timeout, .error (.timedOut timeout), []⟩
    match work.delay with
    | none => late
    | some d =>
      if d ≤ timeout then
        match work.result with
        | .ok () => ⟨opening, d, .ok (), [.done]⟩
        | .error f => ⟨opening, d, .error (.receiver f.chain), []⟩
      else late

/-- Notes of what a receiver is seen doing with an event. -/
def notes (event : Event) (target : Target) (occasions : List Occasion) : List Note :=
  occasions.map fun o => ⟨target, event.version, o⟩

/-- How the deliveries of one event went. -/
structure Report where
  delivered : List Uuid
  failed : List (Uuid × Error)

namespace Report

/-- The report of no delivery. -/
def empty : Report := ⟨[], []⟩

/-- A report with one more delivery in front. -/
def add (id : Uuid) (outcome : Except Error Unit) (r : Report) : Report :=
  match outcome with
  | .ok () => { r with delivered := id :: r.delivered }
  | .error e => { r with failed := (id, e) :: r.failed }

/-- The JSON form of a report. -/
def toJson (r : Report) : Json :=
  .object [("delivered", .ofUuids r.delivered),
    ("failed", .array (r.failed.map fun f => .array [f.1.toJson, f.2.toJson]))]

end Report

/-- The outcome of one delivery, what is noted of it, and when it ends. -/
structure Delivered where
  outcome : Except Error Unit
  notes : List Note
  ends : Nat

/-- Whether the delivery was given up because the caller was told so. -/
def Delivered.gaveUp (d : Delivered) : Bool :=
  match d.outcome with
  | .error .cancelled => true
  | _ => false

/-- The delivery of an event to one subscriber, begun at a moment. -/
def deliver (directory : Directory) (published : Option Snapshot) (timeout : Nat) (event : Event)
    (cancel : Cancel) (start : Nat) (target : Target) : Delivered :=
  match directory.get? target with
  | none => ⟨.error (.unresolved target), [], start⟩
  | some receiver =>
    -- an unreachable target is told of first, even to a caller who has given up
    if cancel.before start then ⟨.error .cancelled, [], start⟩
    else
      let c := contact published timeout event receiver
      let opening := notes event target c.opening
      if cancel.before (start + c.lasts) then
        ⟨.error .cancelled, opening, (cancel.moment start).getD start⟩
      else ⟨c.outcome, opening ++ notes event target c.closing, start + c.lasts⟩

/-- The deliveries of one event to several subscribers, one after another. -/
def deliverAll (directory : Directory) (published : Option Snapshot) (timeout : Nat)
    (event : Event) (cancel : Cancel) : Nat → List Subscription → Report × List Note × Nat
  | start, [] => (.empty, [], start)
  | start, s :: rest =>
    let d := deliver directory published timeout event cancel start s.target
    let (report, notes, ends) :=
      deliverAll directory published timeout event (cancel.afterGivingUp d.gaveUp) d.ends rest
    (report.add s.id d.outcome, d.notes ++ notes, ends)

end Signpost.Delivery

namespace Signpost

/-- Delivers an event to the subscribers of its category. -/
def Roster.notify (r : Roster) (directory : Delivery.Directory)
    (published : Option Redirection.Snapshot) (event : Delivery.Event) (cancel : Cancel) :
    Delivery.Report × List Delivery.Note × Nat :=
  Delivery.deliverAll directory published r.timeout event cancel 0 (r.subscribers event.category)

end Signpost
