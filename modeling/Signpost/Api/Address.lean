import Signpost.Definition.Payload
import Signpost.Filter.Path
import Signpost.Text.Utf8

/-!
# Request addresses

An address is a path of segments and a query of named values.  Bytes may be written as a percent
sign and two hexadecimal digits; a percent sign that two such digits do not follow stands for
itself.  In a query a plus sign stands for a blank.

## Main definitions

* `Api.Address`, `Address.of`
* `Address.decodeSegment?`: the text of a segment.
* `Address.queryValues`: the values of a name in a query.
-/

namespace Signpost.Api

/-- The path and the query of a request, as they are written. -/
structure Address where
  segments : List (List Char)
  query : List Char
deriving DecidableEq

namespace Address

/-- The address of a text.  What follows a number sign does not belong to it. -/
def of (text : String) : Address :=
  let cs := text.toList.takeWhile fun c => c ≠ '#'
  ⟨Path.splitAt '/' (cs.takeWhile fun c => c ≠ '?'),
    (cs.dropWhile fun c => c ≠ '?').drop 1⟩

/-- The bytes that a text stands for. -/
def bytes : List Char → List UInt8
  | '%' :: a :: b :: rest =>
    match Uuid.digitValue? a, Uuid.digitValue? b with
    | some x, some y => UInt8.ofNat (x * 16 + y) :: bytes rest
    | _, _ => String.utf8EncodeChar '%' ++ bytes (a :: b :: rest)
  | c :: rest => String.utf8EncodeChar c ++ bytes rest
  | [] => []
termination_by cs => cs.length

/-- The text of a segment, if its bytes are one. -/
def decodeSegment? (segment : List Char) : Option String := Utf8.decode? (bytes segment)

/-- The text of a name or value in a query. -/
def decodeField (field : List Char) : String :=
  Utf8.decodeLossy (bytes (field.map fun c => if c = '+' then ' ' else c))

/-- The names and values of a query. -/
def pairs (query : List Char) : List (String × String) :=
  ((Path.splitAt '&' query).filter fun part => !part.isEmpty).map fun part =>
    (decodeField (part.takeWhile fun c => c ≠ '='),
      decodeField ((part.dropWhile fun c => c ≠ '=').drop 1))

/-- The values of a name in the query. -/
def queryValues (a : Address) (name : String) : List String :=
  ((pairs a.query).filter fun p => p.1 == name).map Prod.snd

end Address

end Signpost.Api
