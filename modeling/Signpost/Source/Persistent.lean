import Signpost.Cache
import Signpost.Source.Basic

/-!
# Sources in front of a store

A persistent source caches definitions in front of a store.  A look-up first probes the cache, then
asks the store, and then remembers the answer.  The cache is reconciled on request only: the store
lists its headers, and then every entry that is not listed with its own tag is evicted and
announced, so that the next look-up asks the store again.

Each of these is a step of its own on the source, and each call is put together from steps.

## Main definitions

* `PersistentSource`, `PersistentSource.probe`, `PersistentSource.remember`,
  `PersistentSource.evictStale`: the steps.
* `Backed`: a source together with its store and the questions that the store was asked.
* `Backed.find`, `Backed.findMany`, `Backed.query`, `Backed.queryFirst`, `Backed.refresh`
-/

namespace Signpost

/-- A cached definition with the tag that it was fetched at. -/
structure CachedDefinition (α : Type) where
  etag : ETag
  payload : α
deriving DecidableEq

/-- A source that caches the definitions of a store. -/
structure PersistentSource (α : Type) where
  name : String
  cache : Cache Uuid (CachedDefinition α)
  changes : Channel DataChanged

namespace PersistentSource

variable {α : Type}

/-- A source with nothing cached. -/
def new (name : String) : PersistentSource α := ⟨name, .empty, .new⟩

/-- The cached definition with an identifier. -/
def probe (s : PersistentSource α) (id : Uuid) : Option α :=
  (s.cache.get? id).map CachedDefinition.payload

/-- The tag at which a definition is cached. -/
def cachedTag (s : PersistentSource α) (id : Uuid) : Option ETag :=
  (s.cache.get? id).map CachedDefinition.etag

/-- The identifiers of a request that are not cached, each once. -/
def missing (s : PersistentSource α) (ids : List Uuid) : List Uuid :=
  Cache.firsts [] (ids.filter fun id => (s.probe id).isNone)

/-- Caches the records of an answer, each under its own identifier. -/
def remember (s : PersistentSource α) (records : List (Record α)) : PersistentSource α :=
  { s with cache := s.cache.put (records.map fun r => (r.id, ⟨r.etag, r.payload⟩)) }

/-- Evicts the entries that satisfy a condition, and announces them. -/
def evict (s : PersistentSource α) (p : Uuid → CachedDefinition α → Bool) : PersistentSource α :=
  let (cache, evicted) := s.cache.evictWhere p
  { s with cache, changes := s.changes.announce s.name evicted }

/-- The tag that a listing gives an identifier, the last one if there are several. -/
def listedTag (headers : List Header) (id : Uuid) : Option ETag :=
  (Dict.ofList (headers.map fun h => (h.id, h.etag))).get? id

/-- Evicts the entries that a listing does not have with their tags. -/
def evictStale (s : PersistentSource α) (headers : List Header) : PersistentSource α :=
  s.evict fun id entry => decide (listedTag headers id ≠ some entry.etag)

/-- Evicts everything. -/
def clear (s : PersistentSource α) : PersistentSource α := s.evict fun _ _ => true

end PersistentSource

/-- A persistent source, the store behind it, and the questions that the store was asked. -/
structure Backed (α : Type) where
  source : PersistentSource α
  store : Store α
  asked : List StoreCall

namespace Backed

variable {α : Type}

/-- Notes a question. -/
def ask (b : Backed α) (q : StoreCall) : Backed α := { b with asked := b.asked ++ [q] }

/-- Remembers the records of an answer. -/
def remember (b : Backed α) (records : List (Record α)) : Backed α :=
  { b with source := b.source.remember records }

/-- The cached definition with an identifier, or the store's, which is then remembered. -/
def find (b : Backed α) (id : Uuid) : Except Failure (Option α) × Backed α :=
  match b.source.probe id with
  | some a => (.ok (some a), b)
  | none =>
    let b := b.ask (.get id)
    match b.store.get id with
    | .error f => (.error f, b)
    | .ok none => (.ok none, b)
    | .ok (some r) => (.ok (some r.payload), b.remember [r])

/-- The cached definitions of a request, followed by those that the store has of the others. -/
def findMany (b : Backed α) (ids : List Uuid) : Except Failure (List α) × Backed α :=
  let found := ids.filterMap b.source.probe
  match b.source.missing ids with
  | [] => (.ok found, b)
  | missing =>
    let b := b.ask (.getMany missing)
    match b.store.getMany missing with
    | .error f => (.error f, b)
    | .ok records => (.ok (found ++ records.map Record.payload), b.remember records)

/-- The definitions that the store selects, which are then remembered. -/
def query (b : Backed α) (f : Filter α) : Except Failure (List α) × Backed α :=
  let b := b.ask (.query f.expr?)
  match b.store.query f with
  | .error f => (.error f, b)
  | .ok records => (.ok (records.map Record.payload), b.remember records)

/-- The store's listing reconciles the cache. -/
def refresh (b : Backed α) : Except Failure Unit × Backed α :=
  let b := b.ask .headers
  match b.store.headers with
  | .error f => (.error f, b)
  | .ok headers => (.ok (), { b with source := b.source.evictStale headers })

variable [Definition α]

/-- Some cached definition that a filter selects, or the first that the store selects. -/
def queryFirst (b : Backed α) (f : Filter α) : Except Failure (Option α) × Backed α :=
  match b.source.cache.find? fun entry => Definition.matches f entry.payload with
  | some entry => (.ok (some entry.payload), b)
  | none =>
    let (result, b) := b.query f
    (result.map List.head?, b)

/-- A reply that is there at once. -/
def reply {β : Type} (r : Except Failure β × Backed α) : Reply (Backed α) β := .prompt r.1 r.2

instance : Source (Backed α) α where
  name b := b.source.name
  find id b := reply (b.find id)
  findMany ids b := reply (b.findMany ids)
  select f b := reply (b.query f)
  selectFirst f b := reply (b.queryFirst f)
  all b := reply (b.query .all)
  refresh b := reply b.refresh
  changes b := b.source.changes

end Backed

end Signpost
