import Signpost.Admin.State
import Signpost.Subscription.Delivery

/-!
# The administration registry

An administration registry is a redirection registry and a roster of subscriptions behind one
persisted state.  A change of the rules is saved first, then published as a snapshot, and then the
subscribers are told; a change that cannot be saved is taken back, and nobody hears of it.

## Main definitions

* `Admin.Registry`, `Admin.Desk`: a registry, and the registry with its surroundings.
* `Admin.Command`, and the parts of a command: `Desk.amend` in memory, `Desk.save`, `Desk.publish`
* `Desk.apply`: these parts together, after which subscribers may have to be told.
* `Desk.run`: a command together with its deliveries.
* `Desk.load`: the registry after a restart.
* `Admin.Error` and its wording
-/

namespace Signpost.Admin

open Delivery (Directory Event Note)

/-- Why a request to a registry is refused. -/
inductive Error where
  | redirection (e : Redirection.Error)
  | persistence (e : StoreError)
  | workerStopped
  | cancelled
deriving DecidableEq

/-- The name of the kind of an error. -/
def Error.kind : Error → String
  | .redirection e => e.kind
  | .persistence _ => "persistence"
  | .workerStopped => "worker_stopped"
  | .cancelled => "cancelled"

/-- The wording of an error. -/
def Error.message : Error → String
  | .redirection e => e.message
  | .persistence e => "administration state store failed: " ++ e.message
  | .workerStopped => "administration worker has stopped"
  | .cancelled => "operation cancelled"

/-- A redirection registry and its subscriptions. -/
structure Registry where
  /-- The instance that its state is stored for. -/
  key : String
  routes : Redirection.Registry
  roster : Roster
  /-- The snapshot that everybody may read. -/
  published : Redirection.Snapshot

namespace Registry

/-- The state that brings the registry back. -/
def state (r : Registry) : State := ⟨r.roster.all, r.routes.all, r.routes.version⟩

/-- The registry of routes and subscriptions, with the routes published. -/
def of (key : String) (routes : Redirection.Registry) (roster : Roster) : Registry :=
  ⟨key, routes, roster, routes.snapshot⟩

end Registry

/-- A registry, the store of its state, and the supply of its identifiers. -/
structure Desk where
  registry : Registry
  store : StateStore
  mint : Mint

/-- A request to change a registry. -/
inductive Command where
  | append (rules : List Redirection.Rule)
  | pop (ids : List Uuid)
  | subscribe (target : Delivery.Target)
  | unsubscribe (id : Uuid)

/-- What a command is answered. -/
inductive Answer where
  /-- Whether anything has changed. -/
  | changed (b : Bool)
  | subscribed (id : Uuid)
deriving DecidableEq

/-- The JSON form of an answer. -/
def Answer.toJson : Answer → Json
  | .changed b => .bool b
  | .subscribed id => id.toJson

/-- A change that has been made in memory and is yet to be saved, with what it takes to undo it. -/
inductive Draft where
  /-- Other rules than before. -/
  | routes (before : Redirection.Registry)
  /-- A new subscription. -/
  | subscription (id : Uuid)
  /-- The removal of a subscription. -/
  | removal (subscription : Subscription)

/-- What a part of a command leaves: its answer, or something that is still to be done. -/
inductive Progress (ρ : Type) where
  | answered (answer : Except Error Answer)
  | pending (rest : ρ)

/-- What a change comes to when it has been saved; changed rules are yet to be published. -/
def Draft.saved : Draft → Progress Unit
  | .routes _ => .pending ()
  | .subscription id => .answered (.ok (.subscribed id))
  | .removal _ => .answered (.ok (.changed true))

/-- What has come of a command without its deliveries: its answer, and the event that has to be
delivered before the answer is given. -/
structure Applied where
  answer : Except Error Answer
  event : Option Event

namespace Desk

/-- The registry of an instance after a restart: as it was saved, or empty if it never was. -/
def load (key : String) (store : StateStore) (timeout : Nat) (mint : Mint) : Except Error Desk :=
  match store.load key with
  | .error e => .error (.persistence e)
  | .ok (some state) =>
    match Redirection.Registry.ofParts state.rules state.version with
    | .error e => .error (.redirection e)
    | .ok routes => .ok ⟨.of key routes (.restore state.subscriptions timeout), store, mint⟩
  | .ok none =>
    let (routes, mint) := Redirection.Registry.new mint
    .ok ⟨.of key routes (.empty timeout), store, mint⟩

/-- The desk with other routes. -/
def withRoutes (d : Desk) (routes : Redirection.Registry) : Desk :=
  { d with registry := { d.registry with routes } }

/-- The desk with another roster. -/
def withRoster (d : Desk) (roster : Roster) : Desk :=
  { d with registry := { d.registry with roster } }

/-- Appends rules in memory: none, one, or several as a batch. -/
def append (d : Desk) (rules : List Redirection.Rule) : Redirection.Attempt :=
  match rules with
  | [] => ⟨.ok false, d.registry.routes, d.mint⟩
  | [rule] => d.registry.routes.tryPush rule d.mint
  | rules => d.registry.routes.tryPushBatch rules d.mint

/-- Removes rules in memory. -/
def pop (d : Desk) (ids : List Uuid) : Redirection.Attempt :=
  .ofChange (d.registry.routes.popBatch ids d.mint)

/-- Takes over what has become of the routes. -/
def adopt (d : Desk) (a : Redirection.Attempt) : Progress Draft × Desk :=
  let adopted : Desk := { d.withRoutes a.after with mint := a.mint }
  match a.verdict with
  | .error e => (.answered (.error (.redirection e)), adopted)
  | .ok false => (.answered (.ok (.changed false)), adopted)
  | .ok true => (.pending (.routes d.registry.routes), adopted)

/-- The part of a command that is done in memory. -/
def amend (d : Desk) : Command → Progress Draft × Desk
  | .append rules => d.adopt (d.append rules)
  | .pop ids => d.adopt (d.pop ids)
  | .subscribe target =>
    let ((roster, id), mint) := d.registry.roster.subscribe .routeChange target d.mint
    (.pending (.subscription id), { d.withRoster roster with mint })
  | .unsubscribe id =>
    match d.registry.roster.get? id with
    | none => (.answered (.ok (.changed false)), d)
    | some s => (.pending (.removal s), d.withRoster (d.registry.roster.unsubscribe id).1)

/-- Takes a change back.  The rules are those from before, and only the version that was drawn for
them is gone; a subscription comes back at the end. -/
def undo (d : Desk) : Draft → Desk
  | .routes before => d.withRoutes before
  | .subscription id => d.withRoster (d.registry.roster.unsubscribe id).1
  | .removal s =>
    d.withRoster (.restore (d.registry.roster.all ++ [s]) d.registry.roster.timeout)

/-- Saves the state of the registry with a change, or takes the change back. -/
def save (d : Desk) (draft : Draft) : Progress Unit × Desk :=
  match d.store.save d.registry.key d.registry.state with
  | .error e => (.answered (.error (.persistence e)), d.undo draft)
  | .ok store => (draft.saved, { d with store })

/-- The event that tells of the current version. -/
def event (d : Desk) : Event := ⟨.routeChange, d.registry.routes.version⟩

/-- Lets everybody read the current rules. -/
def publish (d : Desk) : Desk :=
  { d with registry := { d.registry with published := d.registry.routes.snapshot } }

/-- A command up to its deliveries: it is done in memory, saved, and published. -/
def apply (d : Desk) (command : Command) : Applied × Desk :=
  match d.amend command with
  | (.answered answer, d) => (⟨answer, none⟩, d)
  | (.pending draft, d) =>
    match d.save draft with
    | (.answered answer, d) => (⟨answer, none⟩, d)
    | (.pending (), d) => (⟨.ok (.changed true), some d.event⟩, d.publish)

/-- A command with its deliveries, what is noted of them, and how long it takes. -/
structure Ran where
  answer : Except Error Answer
  notes : List Note
  lasts : Nat

/-- Runs a command to its end.  Neither a cancellation nor what receivers do changes its answer.
Receivers that have been given a handle can read what is published when they are told. -/
def run (d : Desk) (directory : Directory) (cancel : Cancel) (command : Command)
    (readable : Bool) : Ran × Desk :=
  let (applied, d) := d.apply command
  match applied.event with
  | none => (⟨applied.answer, [], 0⟩, d)
  | some event =>
    let published := if readable then some d.registry.published else none
    let (_, notes, lasts) := d.registry.roster.notify directory published event cancel
    (⟨applied.answer, notes, lasts⟩, d)

end Desk

end Signpost.Admin
