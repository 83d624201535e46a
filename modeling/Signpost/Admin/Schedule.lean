import Signpost.Admin.Worker
import Signpost.Timing

/-!
# Schedules of the worker

A schedule runs the worker and a group of calls on one processor with a clock of its own.  The calls
of a group begin together and take turns in their order; then the worker goes on until it has to
wait; and when nobody can go on, the clock advances to the next moment at which somebody can.  The
worker's own business may outlast the calls.  What is done in all these turns are moves of
`Worker.step`; besides, the node's own route table can be asked and changed by itself.

## Main definitions

* `Schedule`: the worker and the clock.
* `Schedule.Request`, `Schedule.Response`
* `Schedule.perform`: runs a group of calls until all of them have returned.
* `Schedule.refreshRoutes`, `Schedule.receiveVersion`: what the node's route table is asked.
* `Schedule.shutDown`, `Schedule.close`: run the worker until it has stopped.
-/

namespace Signpost.Admin

open Worker (Move Phase System Ticket)

/-- A worker and its clock. -/
structure Schedule where
  system : System
  now : Nat
  /-- When the receiver that the worker waits for has had its time. -/
  due : Nat
  /-- How many calls there have been. -/
  issued : Ticket

namespace Schedule

/-- A worker that starts now. -/
def start (desk : Desk) (directory : Delivery.Directory) (capacity : Nat) : Schedule :=
  ⟨Worker.start desk directory capacity, 0, 0, 0⟩

/-- What is asked of the worker, of its published snapshot, or of the clock. -/
inductive Request where
  | command (c : Command)
  /-- The published snapshot, unless it is the one that the caller holds. -/
  | snapshot (held : Option Version)
  /-- The published snapshot, once it is another one than the caller holds. -/
  | await (held : Version)
  | sleep (ms : Nat)

/-- What a request is answered. -/
inductive Response where
  | answer (a : Answer)
  | snapshot (s : Option Redirection.Snapshot)
  | slept

/-- A request and when its caller gives up. -/
structure Call where
  request : Request
  cancel : Cancel

/-- A call of a group that is being performed. -/
structure Pending where
  call : Call
  /-- The number of the call in the system. -/
  ticket : Ticket
  /-- Whether the caller has been told to give up. -/
  cancelled : Bool
  response : Option (Except Error Response)

/-! ## The worker's turn -/

/-- Makes a move, if it is possible. -/
def move (s : Schedule) (m : Move) : Schedule :=
  match Worker.step s.system m with
  | none => s
  | some system =>
    match system.phase, m with
    | .contacting _ _ _ c _, .contact => { s with system, due := s.now + c.lasts }
    | _, _ => { s with system }

/-- The move that the worker makes next at this moment. -/
def nextMove? (s : Schedule) : Option Move :=
  Worker.nextMove? s.system (decide (s.due ≤ s.now))

/-- The most moves that the worker can make before it has to wait for a caller: for every command,
those that take, save, publish and answer it, and for every subscriber there may be, those that tell
it. -/
def moveBound (s : Schedule) : Nat :=
  let commands := s.system.queue.length + 2
  let subscribers := s.system.desk.registry.roster.all.length + s.system.queue.length
  commands * (2 * subscribers + 6)

/-- At most `count` moves of the worker, until it has to wait. -/
def runFor : Nat → Schedule → Schedule
  | 0, s => s
  | count + 1, s =>
    match s.nextMove? with
    | none => s
    | some m => runFor count (s.move m)

/-- The worker's turn: it goes on until it has to wait. -/
def run (s : Schedule) : Schedule := runFor s.moveBound s

/-! ## The callers' turn -/

/-- What a caller's request comes to now, when it is not about a command. -/
def look (s : Schedule) (began : Nat) : Request → Option (Except Error Response)
  | .command _ => none
  | .snapshot held => some (.ok (.snapshot (s.system.snapshotUnless held)))
  | .await held => (s.system.changeFrom? held).map (·.map fun current => .snapshot (some current))
  | .sleep ms => if began + ms ≤ s.now then some (.ok .slept) else none

/-- Whether a request ends when its caller gives up. -/
def isCancellable : Request → Bool
  | .sleep _ => false
  | _ => true

/-- What has come of a command in the system. -/
def outcome? (s : Schedule) (ticket : Ticket) : Option (Except Error Response) :=
  match s.system.callers.get? ticket with
  | some (.returned outcome) => some (outcome.map .answer)
  | _ => none

/-- One caller's turn. -/
def turn (began : Nat) (s : Schedule) (p : Pending) : Schedule × Pending :=
  match p.response with
  | some _ => (s, p)
  | none =>
    if p.cancelled && isCancellable p.call.request then
      (s.move (.cancel p.ticket), { p with response := some (.error .cancelled) })
    else
      match p.call.request with
      -- the command is handed over, or waits for room, and its answer is taken if it is there
      | .command c =>
        let s := if s.system.callers.contains p.ticket then s else s.move (.call p.ticket c)
        let s := (s.move (.enter p.ticket)).move (.collect p.ticket)
        (s, { p with response := s.outcome? p.ticket })
      | request => (s, { p with response := s.look began request })

/-- The callers' turns, in their order. -/
def turns (began : Nat) (s : Schedule) : List Pending → Schedule × List Pending
  | [] => (s, [])
  | p :: rest =>
    let (s, p) := turn began s p
    let (s, rest) := turns began s rest
    (s, p :: rest)

/-! ## The clock -/

/-- The moment at which the caller of a group that began at `began` is told to give up. -/
def Call.giveUp (began : Nat) (c : Call) : Option Nat :=
  match c.cancel with
  | .never => none
  | .already => some began
  | .after ms => some (began + ms)

/-- Tells callers to give up whose moment has come. -/
def tellCallers (began now : Nat) (calls : List Pending) : List Pending :=
  calls.map fun p =>
    match p.call.giveUp began with
    | some moment => { p with cancelled := p.cancelled || decide (moment ≤ now) }
    | none => p

/-- The moments at which a call can go on by itself. -/
def moments (began : Nat) (p : Pending) : List Nat :=
  match p.response with
  | some _ => []
  | none =>
    (p.call.giveUp began).toList ++ match p.call.request with
      | .sleep ms => [began + ms]
      | _ => []

/-- The moment at which the worker can go on by itself. -/
def ownMoments (s : Schedule) : List Nat :=
  match s.system.phase with
  | .contacting .. => [s.due]
  | _ => []

/-- The next of some moments, if there is one. -/
def next? (now : Nat) (ms : List Nat) : Option Nat := (ms.filter fun m => now < m).min?

/-! ## Groups of calls -/

/-- Rounds of turns until all calls have returned, `count` at most.  When nobody can go on at this
moment, the clock advances. -/
def rounds (began : Nat) : Nat → Schedule → List Pending → Schedule × List Pending
  | 0, s, calls => (s, calls)
  | count + 1, s, calls =>
    let (s, calls) := turns began s calls
    -- the worker's turn belongs to a round only while somebody still waits
    if calls.all fun p => p.response.isSome then (s, calls)
    else
      let told := tellCallers began s.now calls
      let after := s.run
      let moved := s.nextMove?.isSome ||
        decide (told.map Pending.cancelled ≠ calls.map Pending.cancelled)
      if moved then rounds began count after told
      -- nobody can go on at this moment
      else
        match next? s.now (s.ownMoments ++ calls.flatMap (moments began)) with
        | none => (s, calls)
        | some moment => rounds began count { s with now := moment } calls

/-- The most rounds that a group takes: every call may make a move, be told to give up, and go on by
itself, and so may the worker for every command and every subscriber. -/
def roundBound (s : Schedule) (calls : List Call) : Nat :=
  let commands := s.system.queue.length + calls.length + 2
  let subscribers := s.system.desk.registry.roster.all.length + commands
  4 * commands * (subscribers + 4)

/-- The calls of a group before they begin. -/
def pending (s : Schedule) (calls : List Call) : List Pending :=
  calls.mapIdx fun i call =>
    ⟨call, s.issued + i, decide (call.cancel = .already), none⟩

/-- Runs a group of calls until all of them have returned, and gives their responses in the order of
the calls.  Of a call that never returns there is none. -/
def perform (s : Schedule) (calls : List Call) :
    List (Option (Except Error Response)) × Schedule :=
  let (after, done) := rounds s.now (roundBound s calls) s (s.pending calls)
  (done.map Pending.response, { after with issued := s.issued + calls.length })

/-! ## The route table -/

/-- Asks the route table, or changes it. -/
def withRoutes {α : Type} (s : Schedule) (f : RouteTable → α × RouteTable) : α × Schedule :=
  let (a, routes) := f s.system.routes
  (a, { s with system := { s.system with routes } })

/-- The route table mirrors the published snapshot, for a caller who may have been told to give up;
says whether it had another one. -/
def refreshRoutes (s : Schedule) (cancelled : Bool) : Except Error Bool × Schedule :=
  if cancelled then (.error .cancelled, s)
  else
    (.ok (decide (s.system.routes.version ≠ some s.system.published.version)),
      s.move .refreshRoutes)

/-- The route table takes notice of a version. -/
def receiveVersion (s : Schedule) (version : Version) (cancelled : Bool) :
    Except Error Unit × Schedule :=
  if s.system.routes.version = some version then (.ok (), s)
  else
    let (changed, s) := s.refreshRoutes cancelled
    (changed.map fun _ => (), s)

/-! ## Stopping -/

/-- The worker's turns until it has stopped, `count` at most. -/
def runOut : Nat → Schedule → Schedule
  | 0, s => s
  | count + 1, s =>
    let s := s.run
    if s.system.isStopped then s
    else
      match next? s.now s.ownMoments with
      | none => s
      | some moment => runOut count { s with now := moment }

/-- Runs the worker until it has stopped. -/
def stop (s : Schedule) : Schedule := runOut (roundBound s []) s

/-- Tells the worker to stop, and waits for it. -/
def shutDown (s : Schedule) : Schedule := (s.move .shutDown).stop

/-- Lets the worker finish what is in its queue, and waits for it. -/
def close (s : Schedule) : Schedule := (s.move .abandon).stop

end Schedule

end Signpost.Admin
