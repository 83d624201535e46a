import Signpost.Definition.Payload
import Signpost.Digest

/-!
# Records and their tags

A store keeps a definition together with a tag that is the digest of its JSON form, so that the tag
changes exactly when the definition does (as far as digests tell).  A header is a record without the
definition.  Rows of a store are read back with the identifier and the payload checked.

## Main definitions

* `ETag`, `Definition.etag`
* `Record`, `Record.of`, `Header`
* `StoredRow.toRecord`, `StoredHeader.toHeader`, `RowError`
-/

namespace Signpost

open Json (Decoder)

/-- The version token of one stored definition.  Only equality of tags means anything. -/
structure ETag where
  text : String
deriving DecidableEq, Inhabited

/-- The tag of the JSON form of a value. -/
def ETag.ofJson (v : Json) : ETag := ⟨Digest.ofText v.text⟩

/-- The tag of a definition. -/
def Definition.etag {α : Type} [Definition α] (a : α) : ETag := .ofJson (Definition.toJson a)

/-- A record without its definition. -/
structure Header where
  id : Uuid
  etag : ETag
deriving DecidableEq

/-- The JSON form of a header. -/
def Header.toJson (h : Header) : Json :=
  .object [("id", h.id.toJson), ("etag", .string h.etag.text)]

/-- A definition with its tag. -/
structure Record (α : Type) where
  id : Uuid
  etag : ETag
  payload : α
deriving DecidableEq

namespace Record

variable {α : Type} [Definition α]

/-- The record of a definition. -/
def of (a : α) : Record α := ⟨Definition.id a, Definition.etag a, a⟩

/-- The header of a record. -/
def header (r : Record α) : Header := ⟨r.id, r.etag⟩

/-- The JSON form of a record. -/
def toJson (r : Record α) : Json :=
  .object [("id", r.id.toJson), ("etag", .string r.etag.text),
    ("payload", Definition.toJson r.payload)]

/-- Decodes a record. -/
def decode : Decoder (Record α) := fun d =>
  (fun r => ⟨r.1, ⟨r.2.1⟩, r.2.2.1⟩) <$> Decoder.record
    (.required "id" Uuid.decode <| .required "etag" .string <|
      .required "payload" (Definition.decode (α := α)) .nil) d

end Record

/-! ## Rows -/

/-- Why a row of a store cannot be read. -/
inductive RowError where
  | badId (uid : String)
  | badPayload (kind : Kind) (id : Uuid)
deriving DecidableEq

/-- The wording of a row error. -/
def RowError.message : RowError → String
  | .badId uid => "invalid definition uid `" ++ uid ++ "`"
  | .badPayload kind id => "malformed " ++ kind.name ++ " definition " ++ id.toString

/-- A row of a store: a definition as it is kept. -/
structure StoredRow where
  uid : String
  etag : String
  payload : Json
deriving DecidableEq

/-- A row of a store without its definition. -/
structure StoredHeader where
  uid : String
  etag : String
deriving DecidableEq

/-- Decodes a row. -/
def StoredRow.decode : Decoder StoredRow := fun d =>
  (fun r => ⟨r.1, r.2.1, r.2.2.1⟩) <$> Decoder.record
    (.required "uid" .string <| .required "etag" .string <| .required "payload" .json .nil) d

/-- Decodes a row without its definition. -/
def StoredHeader.decode : Decoder StoredHeader := fun d =>
  (fun r => ⟨r.1, r.2.1⟩) <$> Decoder.record
    (.required "uid" .string <| .required "etag" .string .nil) d

/-- The record of a row.  Its identifier is the row's own. -/
def StoredRow.toRecord {α : Type} [Definition α] (row : StoredRow) : Except RowError (Record α) :=
  match Uuid.parse? row.uid with
  | none => .error (.badId row.uid)
  | some id =>
    match Json.decode? (Definition.decode (α := α)) row.payload with
    | none => .error (.badPayload (Definition.kind α) id)
    | some payload => .ok ⟨id, ⟨row.etag⟩, payload⟩

/-- The header of a row. -/
def StoredHeader.toHeader (row : StoredHeader) : Except RowError Header :=
  match Uuid.parse? row.uid with
  | none => .error (.badId row.uid)
  | some id => .ok ⟨id, ⟨row.etag⟩⟩

/-- The row of a record. -/
def Record.toRow {α : Type} [Definition α] (r : Record α) : StoredRow :=
  ⟨r.id.toString, r.etag.text, Definition.toJson r.payload⟩

end Signpost
