import Signpost.Definition.Bundle
import Signpost.Dict
import Signpost.Query.Condition
import Signpost.Store.Basic

/-!
# The database

The database keeps the definitions of all kinds in one table, and one document for every
administration instance.  The row of a definition is put under a key that is made of its kind and
its identifier, but it is looked for, and deleted, by the columns that hold these two.  Definitions
are kept as documents, so that a filter is evaluated on the database's own side where its expression
can be written as a condition; what comes back is filtered once more, so that this is never seen.

## Main definitions

* `Database`, `DefinitionRow`, `Database.rowKey`
* `Database.put`, `Database.delete`, `Database.importBundle`
* `Database.store`: what the database answers about the definitions of a kind.
-/

namespace Signpost

/-- A row of the table of definitions: what is read back, and the column of the kind. -/
structure DefinitionRow extends StoredRow where
  kind : String
deriving DecidableEq

/-- The tables of the database. -/
structure Database where
  /-- The rows of definitions under their keys. -/
  definitions : Dict String DefinitionRow
  /-- The document of each administration instance. -/
  states : Dict String Json

namespace Database

/-- The database without rows. -/
def empty : Database := ⟨.empty, .empty⟩

instance : Inhabited Database := ⟨empty⟩

/-- The key of a definition's row. -/
def rowKey (k : Kind) (id : Uuid) : String := k.name ++ "_" ++ id.plain

/-- Puts a definition in the place of the row with its key. -/
def put {k : Kind} (db : Database) (a : k.Payload) : Database × Record k.Payload :=
  let r := Record.of a
  ({ db with definitions := db.definitions.put (rowKey k r.id) ⟨r.toRow, k.name⟩ }, r)

/-- Puts definitions one after another; says how many there are. -/
def putAll {k : Kind} (db : Database) (definitions : List k.Payload) : Database × Nat :=
  (definitions.foldl (fun db a => (db.put a).1) db, definitions.length)

/-- Deletes the rows with a kind and an identifier. -/
def delete (db : Database) (k : Kind) (id : Uuid) : Database :=
  { db with definitions := db.definitions.filter fun _ row =>
      !(row.kind == k.name && row.uid == id.toString) }

/-- The rows of a kind, ordered by their keys. -/
def rows (db : Database) (k : Kind) : List StoredRow :=
  let entries := db.definitions.entries.filter fun e => e.2.kind == k.name
  (entries.mergeSort fun e e' => decide (e.1 ≤ e'.1)).map fun e => e.2.toStoredRow

/-- The records of those rows of a kind that satisfy a condition. -/
def select (db : Database) (k : Kind) (p : StoredRow → Bool) :
    Except Failure (List (Record k.Payload)) :=
  (((db.rows k).filter p).mapM StoredRow.toRecord).mapError fun e => .root e.message

/-- The rows that the database itself selects for a filter: those that satisfy its condition, or all
rows if it has none. -/
def candidates {α : Type} (f : Filter α) (row : StoredRow) : Bool :=
  match f.expr?.bind Query.ofExpr? with
  | some condition => condition.holds row.payload
  | none => true

/-- What the database answers about the definitions of a kind. -/
def store (db : Database) (k : Kind) : Store k.Payload where
  get id := return (← db.select k fun row => row.uid == id.toString).head?
  getMany ids :=
    if ids.isEmpty then return []
    else db.select k fun row => (ids.map Uuid.toString).contains row.uid
  query f := return (← db.select k (candidates f)).filter fun r => Definition.matches f r.payload
  headers :=
    ((db.rows k).mapM fun row => (StoredHeader.mk row.uid row.etag).toHeader).mapError
      fun e => .root e.message

/-- Puts all definitions of a bundle, kind by kind, and counts them. -/
def importBundle (db : Database) (b : Bundle) : Database × Nat :=
  Kind.all.foldl (fun (db, written) k =>
    let (db, count) := db.putAll (b.ofKind k)
    (db, written + count)) (db, 0)

/-- Saves the document of an instance. -/
def saveState (db : Database) (key : String) (state : Json) : Database :=
  { db with states := db.states.put key state }

end Database

end Signpost
