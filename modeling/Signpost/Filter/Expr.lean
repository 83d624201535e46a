import Signpost.Filter.Path
import Signpost.Json.Decode

/-!
# Filter expressions

A filter expression is a condition on the JSON form of a definition.  Comparisons look up a field
path and compare by value, so that `1` equals `1.0`; a missing field equals nothing and differs from
everything.

## Main definitions

* `Filter.Expr`
* `Expr.accepts`: whether a document satisfies an expression.
* `Expr.fields`: the paths an expression mentions, from left to right.
* `Expr.toJson`, `Expr.decode`: the stored form of an expression.
-/

namespace Signpost.Filter

/-- A condition on a JSON document. -/
inductive Expr where
  | all
  | eq (field : String) (value : Json)
  | ne (field : String) (value : Json)
  | exists (field : String)
  | and (exprs : List Expr)
  | or (exprs : List Expr)
  | not (expr : Expr)
deriving Inhabited

namespace Expr

/-! ## Meaning -/

/-- Whether the field is there and has the value. -/
def holdsValue (doc : Json) (field : String) (value : Json) : Bool :=
  match Path.find? doc field with
  | some found => found.agrees value
  | none => false

/-- Whether the field is there and not null. -/
def holdsSome (doc : Json) (field : String) : Bool :=
  match Path.find? doc field with
  | some .null => false
  | some _ => true
  | none => false

mutual

/-- Whether a document satisfies an expression. -/
def accepts (doc : Json) : Expr → Bool
  | .all => true
  | .eq field value => holdsValue doc field value
  | .ne field value => !holdsValue doc field value
  | .exists field => holdsSome doc field
  | .and exprs => allAccept doc exprs
  | .or exprs => anyAccepts doc exprs
  | .not expr => !accepts doc expr

/-- Whether a document satisfies every expression. -/
def allAccept (doc : Json) : List Expr → Bool
  | [] => true
  | e :: rest => accepts doc e && allAccept doc rest

/-- Whether a document satisfies some expression. -/
def anyAccepts (doc : Json) : List Expr → Bool
  | [] => false
  | e :: rest => accepts doc e || anyAccepts doc rest

end

mutual

/-- The field paths of an expression, from left to right. -/
def fields : Expr → List String
  | .all => []
  | .eq field _ | .ne field _ | .exists field => [field]
  | .and exprs | .or exprs => fieldsOfAll exprs
  | .not expr => fields expr

/-- The field paths of several expressions. -/
def fieldsOfAll : List Expr → List String
  | [] => []
  | e :: rest => fields e ++ fieldsOfAll rest

end

/-! ## Stored form -/

mutual

/-- The stored form of an expression. -/
def toJson : Expr → Json
  | .all => .string "all"
  | .eq field value => .object [("eq", .object [("field", .string field), ("value", value)])]
  | .ne field value => .object [("ne", .object [("field", .string field), ("value", value)])]
  | .exists field => .object [("exists", .object [("field", .string field)])]
  | .and exprs => .object [("and", .array (toJsons exprs))]
  | .or exprs => .object [("or", .array (toJsons exprs))]
  | .not expr => .object [("not", toJson expr)]

/-- The stored forms of several expressions. -/
def toJsons : List Expr → List Json
  | [] => []
  | e :: rest => toJson e :: toJsons rest

end

open Json in
/-- The fields of a comparison. -/
def comparison : Decoder (String × Json) := fun d =>
  (fun r => (r.1, r.2.1)) <$> Decoder.objectOnly
    (.record (.required "field" .string <| .required "value" .json .nil)) d

open Json in
/-- The field of a test for existence. -/
def presence : Decoder String := fun d =>
  (fun r => r.1) <$> Decoder.objectOnly (.record (.required "field" .string .nil)) d

open Json in
mutual

/-- Decodes an expression. -/
def decode : Decoder Expr
  | .string (some "all") => .ok .all
  | .string (some _) => .error .shape
  | .object ((some name, d) :: rest) stop =>
    Decoder.closeTag rest stop <| match name with
      | "all" => (fun _ => .all) <$> Decoder.unit d
      | "eq" => (fun c => .eq c.1 c.2) <$> comparison d
      | "ne" => (fun c => .ne c.1 c.2) <$> comparison d
      | "exists" => .exists <$> presence d
      | "and" => .and <$> decodeList d
      | "or" => .or <$> decodeList d
      | "not" => .not <$> decode d
      | _ => .error .shape
  | d => .error d.tagRefusal

/-- Decodes an array of expressions. -/
def decodeList : Decoder (List Expr)
  | .array ds stop => do
    let es ← decodeItems ds
    match stop with
    | some f => .error f
    | none => .ok es
  | d => .error d.refusal

/-- Decodes expressions in their order. -/
def decodeItems : List Draft → Except Fault (List Expr)
  | [] => .ok []
  | d :: rest => do
    let e ← decode d
    return e :: (← decodeItems rest)

end

end Expr

end Signpost.Filter
