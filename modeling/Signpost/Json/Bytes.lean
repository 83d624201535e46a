import Signpost.Json.Decode
import Signpost.Text.Utf8

/-!
# JSON in bytes

JSON that comes in bytes is cut into tokens before anybody knows whether the bytes are a text.  Only
a string that is wanted has to be one: what cannot be read in a string makes it unusable, like half
a surrogate pair, and does not matter where the string is skipped.  Between strings it begins no
token.

## Main definitions

* `Json.spell`: the text that bytes are taken for.
* `Json.decodeBytes`: decodes bytes.
-/

namespace Signpost.Json

/-- Where a place of a JSON text stands. -/
inductive Standing where
  | outside
  | inString
  /-- In a string, after the sign of an escape. -/
  | escaped

/-- Where the next place stands. -/
def Standing.next (c : Char) : Standing → Standing
  | .outside => if c = '"' then .inString else .outside
  | .inString => if c = '"' then .outside else if c = '\\' then .escaped else .inString
  | .escaped => .inString

/-- How an unreadable place is spelled.  Of two second halves of a surrogate pair, one at least
stands alone, whatever is written before them. -/
def Standing.unreadable : Standing → List Char
  | .inString => "\\udc00\\udc00".toList
  | .outside | .escaped => ['\ufffd']

/-- The characters that are read, with the unreadable places spelled so that they are met where
somebody reads them. -/
def spell (standing : Standing) : List (Option Char) → List Char
  | [] => []
  | some c :: rest => c :: spell (standing.next c) rest
  | none :: rest => standing.unreadable ++ spell standing rest

/-- Where everything can be read, the characters stand for themselves. -/
theorem spell_map_some (standing : Standing) (cs : List Char) :
    spell standing (cs.map some) = cs := by
  induction cs generalizing standing with
  | nil => rfl
  | cons c rest ih => rw [List.map_cons, spell, ih]

/-- Decodes bytes. -/
def decodeBytes {α : Type} (decode : Decoder α) (bytes : List UInt8) : Except Fault α :=
  decodeText decode (String.ofList (spell .outside (Utf8.read bytes)))

end Signpost.Json
