import Signpost.Admin.Registry
import Signpost.Routing

/-!
# The administration worker

A worker owns a registry and applies commands one at a time, in the order of a bounded queue.
Callers put commands into the queue and wait for their answers, which they may stop doing at any
moment; a command that has been taken from the queue runs to its end all the same.  Snapshots are
read without queueing.

The worker and its callers are a system that moves in small steps; any interleaving of them is a
list of moves.

## Main definitions

* `Worker.System`, `Worker.Move`, `Worker.step`
* `Worker.replay`: a list of moves.
* `Worker.nextMove?`: the move that the worker itself makes next.
-/

namespace Signpost.Admin.Worker

open Delivery (Contact Directory Event Note Receiver)

/-- The number of a call. -/
abbrev Ticket := Nat

/-- What the worker is about. -/
inductive Phase where
  | idle
  /-- Saving a change that has been made in memory. -/
  | saving (ticket : Ticket) (draft : Draft)
  /-- Publishing rules that have been saved. -/
  | publishing (ticket : Ticket)
  /-- Telling the subscribers that are left. -/
  | delivering (ticket : Ticket) (event : Event) (rest : List Subscription)
  /-- Waiting for a receiver. -/
  | contacting (ticket : Ticket) (event : Event) (target : Delivery.Target) (contact : Contact)
      (rest : List Subscription)
  | stopped

/-- What a caller is about. -/
inductive Caller where
  /-- Waiting for room in the queue. -/
  | blocked (command : Command)
  /-- Waiting for the answer. -/
  | waiting
  | returned (outcome : Except Error Answer)

/-- A worker, its queue and its callers. -/
structure System where
  desk : Desk
  directory : Directory
  /-- The node's own route table. -/
  routes : RouteTable
  capacity : Nat
  queue : List (Ticket × Command)
  phase : Phase
  /-- Whether the worker has been told to stop. -/
  shutdown : Bool
  /-- Whether nobody can call any more. -/
  abandoned : Bool
  callers : Dict Ticket Caller
  /-- The answers that have been given. -/
  answers : Dict Ticket (Except Error Answer)
  notes : List Note

/-- A move of a caller, of the worker, or of the surroundings. -/
inductive Move where
  | call (ticket : Ticket) (command : Command)
  /-- A blocked caller puts its command into the queue. -/
  | enter (ticket : Ticket)
  /-- A caller stops waiting, or has been told to give up before it calls. -/
  | cancel (ticket : Ticket)
  /-- A caller takes its answer. -/
  | collect (ticket : Ticket)
  /-- The worker takes the next command and does it in memory. -/
  | take
  /-- The worker saves the change. -/
  | save
  /-- The worker lets everybody read the changed rules. -/
  | publish
  /-- The worker turns to the next subscriber. -/
  | contact
  /-- A receiver is done, or its time is over. -/
  | finish
  /-- A receiver is given up. -/
  | interrupt
  /-- The worker gives the answer after all deliveries. -/
  | reply
  | stop
  | shutDown
  /-- The last caller leaves. -/
  | abandon
  | register (target : Delivery.Target) (receiver : Receiver)
  | unregister (target : Delivery.Target)
  /-- The store of the state fails from now on, or works again. -/
  | setFailure (failure : Option Failure)
  /-- The route table mirrors the published snapshot. -/
  | refreshRoutes

namespace System

/-- The snapshot that everybody may read. -/
def published (s : System) : Redirection.Snapshot := s.desk.registry.published

/-- The published snapshot, unless it is the one that a reader holds. -/
def snapshotUnless (s : System) (held : Option Version) : Option Redirection.Snapshot :=
  if held = some s.published.version then none else some s.published

/-- Whether there is room in the queue. -/
def hasRoom (s : System) : Bool := decide (s.queue.length < s.capacity)

/-- Whether the worker has stopped. -/
def isStopped (s : System) : Bool :=
  match s.phase with
  | .stopped => true
  | _ => false

/-- What a reader who waits for another version than it holds is told now, if anything. -/
def changeFrom? (s : System) (held : Version) : Option (Except Error Redirection.Snapshot) :=
  if s.published.version ≠ held then some (.ok s.published)
  else if s.isStopped then some (.error .workerStopped)
  else none

/-- The system with a caller in another state. -/
def setCaller (s : System) (ticket : Ticket) (c : Caller) : System :=
  { s with callers := s.callers.put ticket c }

/-- Puts a command into the queue, for a caller that waits from now on. -/
def enqueue (s : System) (ticket : Ticket) (command : Command) : System :=
  { s.setCaller ticket .waiting with queue := s.queue ++ [(ticket, command)] }

/-- A caller with a command: it puts it into the queue, is blocked, or is told that the worker has
stopped. -/
def offer (s : System) (ticket : Ticket) (command : Command) : System :=
  if s.isStopped then s.setCaller ticket (.returned (.error .workerStopped))
  else if s.hasRoom then s.enqueue ticket command
  else s.setCaller ticket (.blocked command)

/-- Gives an answer. -/
def answer (s : System) (ticket : Ticket) (outcome : Except Error Answer) : System :=
  { s with answers := s.answers.put ticket outcome, phase := .idle }

/-- Does a command in memory, and answers it unless there is something to be saved. -/
def serve (s : System) (ticket : Ticket) (command : Command) : System :=
  let (progress, desk) := s.desk.amend command
  let s := { s with desk }
  match progress with
  | .answered outcome => s.answer ticket outcome
  | .pending draft => { s with phase := .saving ticket draft }

/-- Saves a change, and answers the command unless there are rules to be published. -/
def save (s : System) (ticket : Ticket) (draft : Draft) : System :=
  let (progress, desk) := s.desk.save draft
  let s := { s with desk }
  match progress with
  | .answered outcome => s.answer ticket outcome
  | .pending () => { s with phase := .publishing ticket }

/-- Publishes the rules, after which the subscribers have to be told. -/
def publish (s : System) (ticket : Ticket) : System :=
  let event := s.desk.event
  { s with
    desk := s.desk.publish
    phase := .delivering ticket event (s.desk.registry.roster.subscribers event.category) }

/-- Turns to a subscriber. -/
def turnTo (s : System) (ticket : Ticket) (event : Event) (target : Delivery.Target)
    (rest : List Subscription) : System :=
  match s.directory.get? target with
  | none => { s with phase := .delivering ticket event rest }
  | some receiver =>
    -- a worker that has been told to stop calls nobody any more
    if s.shutdown then { s with phase := .delivering ticket event rest }
    else
      let c := Delivery.contact (some s.published) s.desk.registry.roster.timeout event receiver
      let routes := match receiver with
        | .routeTable => s.routes.receive event.version s.published
        | .listener _ _ => s.routes
      { s with
        routes
        phase := .contacting ticket event target c rest
        notes := s.notes ++ Delivery.notes event target c.opening }

end System

/-- One move, where it is possible. -/
def step (s : System) : Move → Option System
  | .call ticket command =>
    if s.callers.contains ticket || s.abandoned then none else some (s.offer ticket command)
  | .enter ticket =>
    match s.callers.get? ticket with
    | some (.blocked command) =>
      if s.isStopped || s.hasRoom then some (s.offer ticket command) else none
    | _ => none
  | .cancel ticket =>
    match s.callers.get? ticket with
    | some (.returned _) => none
    | _ => some (s.setCaller ticket (.returned (.error .cancelled)))
  | .collect ticket =>
    match s.callers.get? ticket with
    | some .waiting =>
      match s.answers.get? ticket with
      | some outcome => some (s.setCaller ticket (.returned outcome))
      | none =>
        if s.isStopped then some (s.setCaller ticket (.returned (.error .workerStopped)))
        else none
    | _ => none
  | .take =>
    match s.phase, s.queue with
    | .idle, (ticket, command) :: rest => some ({ s with queue := rest }.serve ticket command)
    | _, _ => none
  | .save =>
    match s.phase with
    | .saving ticket draft => some (s.save ticket draft)
    | _ => none
  | .publish =>
    match s.phase with
    | .publishing ticket => some (s.publish ticket)
    | _ => none
  | .contact =>
    match s.phase with
    | .delivering ticket event (next :: rest) => some (s.turnTo ticket event next.target rest)
    | _ => none
  | .finish =>
    match s.phase with
    | .contacting ticket event target c rest =>
      some { s with
        phase := .delivering ticket event rest
        notes := s.notes ++ Delivery.notes event target c.closing }
    | _ => none
  | .interrupt =>
    match s.phase with
    | .contacting ticket event _ _ rest =>
      if s.shutdown then some { s with phase := .delivering ticket event rest } else none
    | _ => none
  | .reply =>
    match s.phase with
    | .delivering ticket _ [] => some (s.answer ticket (.ok (.changed true)))
    | _ => none
  | .stop =>
    match s.phase with
    | .idle =>
      if s.shutdown || (s.abandoned && s.queue.isEmpty) then
        some { s with phase := .stopped, queue := [] }
      else none
    | _ => none
  | .shutDown => some { s with shutdown := true }
  | .abandon => some { s with abandoned := true }
  | .register target receiver =>
    some { s with directory := s.directory.put target receiver }
  | .unregister target => some { s with directory := s.directory.erase target }
  | .setFailure failure =>
    some { s with desk := { s.desk with store := { s.desk.store with failure } } }
  | .refreshRoutes => some { s with routes := (s.routes.refresh s.published).1 }

/-- A list of moves, if each of them is possible in its turn. -/
def replay (s : System) : List Move → Option System
  | [] => some s
  | m :: rest => (step s m).bind fun s => replay s rest

/-- The move that the worker makes next, if it need not wait.  `due` says whether the receiver that
it waits for has had its time. -/
def nextMove? (s : System) (due : Bool) : Option Move :=
  match s.phase with
  | .idle =>
    -- being told to stop goes before the queue, and the queue before the callers having left
    if s.shutdown then some .stop
    else if !s.queue.isEmpty then some .take
    else if s.abandoned then some .stop
    else none
  | .saving .. => some .save
  | .publishing _ => some .publish
  | .delivering _ _ (_ :: _) => some .contact
  | .delivering _ _ [] => some .reply
  | .contacting .. => if s.shutdown then some .interrupt else if due then some .finish else none
  | .stopped => none

/-- The worker with a registry, as it starts. -/
def start (desk : Desk) (directory : Directory) (capacity : Nat) : System where
  desk := desk
  directory := directory
  routes := .empty
  capacity := max 1 capacity
  queue := []
  phase := .idle
  shutdown := false
  abandoned := false
  callers := .empty
  answers := .empty
  notes := []

end Signpost.Admin.Worker
