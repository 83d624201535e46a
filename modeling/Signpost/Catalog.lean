import Signpost.Resolver
import Signpost.Source.Layer
import Signpost.Store.Database

/-!
# The catalog

The catalog resolves the definitions of every kind from two layers: the definitions that a node is
shipped with, and behind them, when there is a database, those of the database behind a cache.  A
shipped definition hides a stored one with its identifier.

The database belongs to others as well, so the catalog has only its caches, and every call is given
the database as it is.

## Main definitions

* `Catalog`, `Catalog.new`, `Catalog.resolver`
* `Catalog.find`, `Catalog.all`
* `Catalog.refreshKinds`, `Catalog.refreshAll`: all resolvers are refreshed, whichever fail.
* `Catalog.ticks`: what happens while the caches are refreshed periodically.
-/

namespace Signpost

/-- The layers of every kind, without the database. -/
structure Catalog where
  /-- The definitions that a node is shipped with. -/
  bootstrap : (k : Kind) → MemorySource k.Payload
  /-- The caches in front of the database. -/
  cached : (k : Kind) → PersistentSource k.Payload
  /-- Whether there is a database. -/
  stored : Bool
  /-- How long a call to one layer may take. -/
  limit : Option Nat

namespace Catalog

/-- The catalog of a bundle, with nothing cached. -/
def new (bundle : Bundle) (stored : Bool) (limit : Option Nat) : Catalog where
  bootstrap k := .ofList ("bootstrap:" ++ k.name) (bundle.ofKind k)
  cached k := .new ("store:" ++ k.name)
  stored := stored
  limit := limit

/-- The resolver of a kind. -/
def resolver (c : Catalog) (db : Database) (k : Kind) : Resolver (Layer k.Payload) where
  sources := .memory (c.bootstrap k) ::
    if c.stored then [.backed ⟨c.cached k, db.store k, []⟩] else []
  limit := c.limit

/-- A family with another value at one kind. -/
def replace {F : Kind → Type} (f : (k : Kind) → F k) (k : Kind) (value : F k) :
    (k : Kind) → F k :=
  fun k' => if h : k = k' then h ▸ value else f k'

/-- The catalog with a layer of a kind as a call has left it. -/
def takeBack (c : Catalog) {k : Kind} (layer : Layer k.Payload) : Catalog :=
  match layer with
  | .memory s => { c with bootstrap := replace c.bootstrap k s }
  | .backed s => { c with cached := replace c.cached k s.source }
  | .hindered _ => c

/-- The catalog with the layers of a kind as a call has left them. -/
def takeBackAll (c : Catalog) {k : Kind} (r : Resolver (Layer k.Payload)) : Catalog :=
  r.sources.foldl (fun c layer => c.takeBack layer) c

/-- Looks up one definition of a kind. -/
def find (c : Catalog) (db : Database) (k : Kind) (cancel : Cancel) (id : Uuid) :
    Timed (Resolution k.Payload) × Catalog :=
  let (result, r) := (c.resolver db k).find cancel id
  (result, c.takeBackAll r)

/-- Lists all definitions of a kind: those that are shipped, and then those of the database that
they do not hide. -/
def all (c : Catalog) (db : Database) (k : Kind) (cancel : Cancel) :
    Timed (List k.Payload) × Catalog :=
  let (result, r) := (c.resolver db k).all cancel
  (result, c.takeBackAll r)

/-- Refreshes the resolvers of several kinds one after another, all of them whatever happens.  The
first failure is given. -/
def refreshKinds {σ : Kind → Type} [∀ k, Source (σ k) k.Payload] (cancel : Cancel) :
    Nat → ((k : Kind) → Resolver (σ k)) → List Kind →
      Timed (Except Failure Unit) × ((k : Kind) → Resolver (σ k))
  | start, resolvers, [] => (⟨.ok (), some start⟩, resolvers)
  | start, resolvers, k :: rest =>
    let (result, r) := (resolvers k).refresh cancel start
    let resolvers := replace resolvers k r
    match result.ends with
    | none => (result, resolvers)
    | some ends =>
      let (others, resolvers) := refreshKinds cancel ends resolvers rest
      match result.value with
      | .ok () => (others, resolvers)
      | .error f => (⟨.error f, others.ends⟩, resolvers)

/-- Refreshes the caches of every kind. -/
def refreshAll (c : Catalog) (db : Database) (cancel : Cancel) :
    Timed (Except Failure Unit) × Catalog :=
  let (result, resolvers) := refreshKinds cancel 0 (c.resolver db) Kind.all
  (result, Kind.all.foldl (fun c k => c.takeBackAll (resolvers k)) c)

/-- Refreshes the caches as often as a number says, whatever becomes of it. -/
def refreshTimes (db : Database) : Nat → Catalog → Catalog
  | 0, c => c
  | count + 1, c => refreshTimes db count (c.refreshAll db .never).2

/-- The catalog after its caches have been refreshed once in every period of some time. -/
def ticks (c : Catalog) (db : Database) (period time : Nat) : Catalog :=
  refreshTimes db (time / period) c

end Catalog

end Signpost
