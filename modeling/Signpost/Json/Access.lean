import Signpost.Json.Decode

/-!
# Members of values

Members are often wanted in one form only, and one that is missing counts as null.

## Main definitions

* `Json.member`, `Json.textAt?`, `Json.naturalAt?`, `Json.isTrueAt`, `Json.itemsAt`
* `Json.decodeAt?`: decodes a member.
-/

namespace Signpost.Json

/-- A member, null if it is missing. -/
def member (v : Json) (key : String) : Json := (v.get? key).getD .null

/-- A member that is a text. -/
def textAt? (v : Json) (key : String) : Option String :=
  match v.member key with
  | .string s => some s
  | _ => none

/-- A member that is a natural number. -/
def naturalAt? (v : Json) (key : String) : Option Nat :=
  match v.member key with
  | .number n => n.unsigned?
  | _ => none

/-- Whether a member is the truth value true. -/
def isTrueAt (v : Json) (key : String) : Bool :=
  match v.member key with
  | .bool b => b
  | _ => false

/-- The items of a member that is an array. -/
def itemsAt (v : Json) (key : String) : List Json :=
  match v.member key with
  | .array items => items
  | _ => []

/-- Decodes a member. -/
def decodeAt? {α : Type} (decode : Decoder α) (v : Json) (key : String) : Option α :=
  decode? decode (v.member key)

end Signpost.Json
