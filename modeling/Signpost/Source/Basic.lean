import Signpost.Broadcast
import Signpost.Store.Basic
import Signpost.Timing

/-!
# Sources of definitions

A source provides definitions of one type.  It is asked by calls that take time and may fail, and
that may leave it changed: a reply is the course of the call together with the source after it.

## Main definitions

* `Reply`
* `Source`: what can be asked of a source.
* `DataChanged`: the event by which a source announces changes.
-/

namespace Signpost

/-- The announcement that definitions of a source have changed. -/
structure DataChanged where
  source : String
  ids : List Uuid
deriving DecidableEq

/-- The JSON form of an announcement. -/
def DataChanged.toJson (e : DataChanged) : Json :=
  .object [("source", .string e.source), ("ids", .ofUuids e.ids)]

/-- Announces that definitions have changed, unless there are none. -/
def Channel.announce (c : Channel DataChanged) (source : String) (ids : List Uuid) :
    Channel DataChanged :=
  if ids.isEmpty then c else c.send ⟨source, ids⟩

/-- The course of a call, and who was called as the whole call leaves it. -/
structure Reply (σ α : Type) where
  course : Course α
  after : σ

/-- A reply that is there at once. -/
def Reply.prompt {σ α : Type} (result : Except Failure α) (after : σ) : Reply σ α :=
  ⟨.prompt result, after⟩

/-- What can be asked of a source of definitions. -/
class Source (σ : Type) (α : outParam Type) where
  name : σ → String
  /-- The definition with an identifier. -/
  find : Uuid → σ → Reply σ (Option α)
  /-- The definitions that the source has of the given identifiers. -/
  findMany : List Uuid → σ → Reply σ (List α)
  /-- The definitions that a filter selects. -/
  select : Filter α → σ → Reply σ (List α)
  /-- Some definition that a filter selects. -/
  selectFirst : Filter α → σ → Reply σ (Option α)
  all : σ → Reply σ (List α)
  /-- Reconciles the source with what it stands for. -/
  refresh : σ → Reply σ Unit
  /-- Where the source announces changes. -/
  changes : σ → Channel DataChanged

end Signpost
