import Signpost.Json.Basic

/-!
# Field paths

A field path names a place inside a JSON value: its segments, separated by dots, lead through the
members of objects and the items of arrays.  A segment selects from an array when it is a number,
which may have a plus sign and zeros in front; every segment, also an empty one, may be a key.

## Main definitions

* `Path.segments`: the segments of a path.
* `Path.find?`: the place that a path leads to.
-/

namespace Signpost.Path

/-- Cuts a list at every occurrence of a separator. -/
def splitAt (separator : Char) : List Char → List (List Char)
  | [] => [[]]
  | c :: rest =>
    if c = separator then [] :: splitAt separator rest
    else match splitAt separator rest with
      | [] => [[c]]
      | part :: parts => (c :: part) :: parts

/-- The segments of a path. -/
def segments (path : String) : List String :=
  (splitAt '.' path.toList).map String.ofList

/-- The value of decimal digits. -/
def digitsValue (ds : List Char) : Nat :=
  ds.foldl (fun n d => n * 10 + (d.toNat - '0'.toNat)) 0

/-- The position that a segment gives in an array: digits after an optional plus sign, of a value
of 64 bits. -/
def position? (segment : String) : Option Nat :=
  let ds := match segment.toList with
    | '+' :: ds => ds
    | ds => ds
  if ds.isEmpty || !ds.all Char.isDigit then none
  else if digitsValue ds < UInt64.size then some (digitsValue ds)
  else none

/-- One step into a value: a member of an object or an item of an array. -/
def step (v : Json) (segment : String) : Option Json :=
  match v with
  | .object members => Json.lookup segment members
  | .array items => (position? segment).bind fun i => items[i]?
  | _ => none

/-- The place that a path leads to, if the value has it. -/
def find? (v : Json) (path : String) : Option Json := (segments path).foldlM step v

end Signpost.Path
