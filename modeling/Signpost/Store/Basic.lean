import Signpost.Definition.Record
import Signpost.Failure
import Signpost.Filter

/-!
# Stores of definitions

A store answers questions about the definitions of one type that it keeps.  What it answers at one
moment is a value of `Store`.

## Main definitions

* `Store`
* `StoreCall`: the questions.
* `Definition.matches`: whether a filter selects a definition.
-/

namespace Signpost

/-- Whether a filter selects a definition. -/
def Definition.matches {α : Type} [Definition α] (f : Filter α) (a : α) : Bool :=
  f.selects Definition.toJson a

/-- What a store answers at one moment. -/
structure Store (α : Type) where
  /-- The record with an identifier. -/
  get : Uuid → Except Failure (Option (Record α))
  /-- The records with the given identifiers; unknown ones are absent. -/
  getMany : List Uuid → Except Failure (List (Record α))
  /-- The records that a filter selects. -/
  query : Filter α → Except Failure (List (Record α))
  /-- The identifiers and tags of all records. -/
  headers : Except Failure (List Header)

/-- A question to a store. -/
inductive StoreCall where
  | get (id : Uuid)
  | getMany (ids : List Uuid)
  | query (expr : Option Filter.Expr)
  | headers

/-- The JSON form of a question. -/
def StoreCall.toJson : StoreCall → Json
  | .get id => .object [("get_by_id", id.toJson)]
  | .getMany ids => .object [("get_by_ids", .ofUuids ids)]
  | .query expr => .object [("query", .orNull Filter.Expr.toJson expr)]
  | .headers => .string "list_headers"

end Signpost
