import Signpost.Json.Basic
import Signpost.Decimal.Shortest

/-!
# Compact JSON text

A value is written without blanks, its members in the order in which they stand.  In strings the
quote, the backslash and the control characters below U+0020 are escaped, with the short forms
where there are any, and everything else is written as it is.

## Main definitions

* `Json.quote`: the text of a string.
* `Json.render`: the text of a value, as characters; `Json.text` as a string.
-/

namespace Signpost.Json

/-- A hexadecimal digit in lower case. -/
def hexDigit (n : Nat) : Char :=
  if n < 10 then Char.ofNat ('0'.toNat + n) else Char.ofNat ('a'.toNat + (n - 10))

/-- The text of one character in a string. -/
def escape (c : Char) : List Char :=
  if c = '"' then ['\\', '"']
  else if c = '\\' then ['\\', '\\']
  else if c = '\x08' then ['\\', 'b']
  else if c = '\t' then ['\\', 't']
  else if c = '\n' then ['\\', 'n']
  else if c = '\x0c' then ['\\', 'f']
  else if c = '\r' then ['\\', 'r']
  else if c < ' ' then ['\\', 'u', '0', '0', hexDigit (c.toNat / 16), hexDigit (c.toNat % 16)]
  else [c]

/-- The text of a string, in quotes. -/
def quote (s : List Char) : List Char := '"' :: s.flatMap escape ++ ['"']

/-- The text of an integer. -/
def integerText (i : Int) : List Char :=
  (if i < 0 then ['-'] else []) ++ Nat.toDigits 10 i.natAbs

/-- The text of a number. -/
def Number.render : Number → List Char
  | .integer i _ => integerText i
  | .real x => x.text

mutual

/-- The compact text of a value. -/
def render : Json → List Char
  | .null => ['n', 'u', 'l', 'l']
  | .bool true => ['t', 'r', 'u', 'e']
  | .bool false => ['f', 'a', 'l', 's', 'e']
  | .number n => n.render
  | .string s => quote s.toList
  | .array [] => ['[', ']']
  | .array (v :: rest) => '[' :: render v ++ renderItems rest
  | .object [] => ['{', '}']
  | .object ((key, v) :: rest) =>
    '{' :: quote key.toList ++ ':' :: render v ++ renderMembers rest

/-- The items after the first one, and the end of the array. -/
def renderItems : List Json → List Char
  | [] => [']']
  | v :: rest => ',' :: render v ++ renderItems rest

/-- The members after the first one, and the end of the object. -/
def renderMembers : List (String × Json) → List Char
  | [] => ['}']
  | (key, v) :: rest => ',' :: quote key.toList ++ ':' :: render v ++ renderMembers rest

end

/-- The compact text of a value. -/
def text (v : Json) : String := String.ofList v.render

/-- The compact text of a value with the members of every object sorted by key. -/
def sortedText (v : Json) : String := v.canonical.text

end Signpost.Json
