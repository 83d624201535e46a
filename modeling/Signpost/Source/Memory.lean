import Signpost.Cache
import Signpost.Source.Basic

/-!
# Sources in memory

A memory source has its definitions in memory and nothing behind them, so that it answers at once,
never fails and has nothing to reconcile.  It announces what is inserted and what is removed.

## Main definitions

* `MemorySource`, `MemorySource.ofList`, `MemorySource.insert`, `MemorySource.remove`
-/

namespace Signpost

/-- A source that has its definitions in memory. -/
structure MemorySource (α : Type) where
  name : String
  cache : Cache Uuid α
  changes : Channel DataChanged

namespace MemorySource

variable {α : Type} [Definition α]

/-- Definitions with their identifiers. -/
def items (definitions : List α) : List (Uuid × α) :=
  definitions.map fun a => (Definition.id a, a)

/-- A source of some definitions, of which the last one of each identifier counts. -/
def ofList (name : String) (definitions : List α) : MemorySource α :=
  ⟨name, .ofList (items definitions), .new⟩

/-- Puts definitions in and announces them, repeated ones repeatedly. -/
def insert (s : MemorySource α) (definitions : List α) : MemorySource α :=
  { s with
    cache := s.cache.put (items definitions)
    changes := s.changes.announce s.name (definitions.map Definition.id) }

/-- Removes definitions and announces those that were there. -/
def remove (s : MemorySource α) (ids : List Uuid) : MemorySource α × List Uuid :=
  let (cache, removed) := s.cache.remove ids
  ({ s with cache, changes := s.changes.announce s.name removed }, removed)

instance : Source (MemorySource α) α where
  name := MemorySource.name
  find id s := .prompt (.ok (s.cache.get? id)) s
  findMany ids s := .prompt (.ok (s.cache.getMany ids)) s
  select f s := .prompt (.ok (s.cache.select (Definition.matches f))) s
  selectFirst f s := .prompt (.ok (s.cache.find? (Definition.matches f))) s
  all s := .prompt (.ok s.cache.values.values) s
  refresh s := .prompt (.ok ()) s
  changes := MemorySource.changes

end MemorySource

end Signpost
