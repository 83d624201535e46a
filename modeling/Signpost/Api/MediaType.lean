/-!
# Media types

A media type is a type, a subtype that may have a suffix, and parameters.  JSON is sent under the
subtype `json` of the type `application`, or under any subtype of it with the suffix `json`.

## Main definitions

* `Api.MediaType.parse?`
* `Api.MediaType.isJson`
-/

namespace Signpost.Api

/-- A media type in lower case, without its parameters. -/
structure MediaType where
  type : List Char
  /-- The subtype before its suffix. -/
  subtype : List Char
  /-- What follows the last plus sign of the subtype. -/
  suffix : Option (List Char)
deriving DecidableEq

namespace MediaType

/-- The characters of tokens besides ASCII letters and digits. -/
def tokenMarks : List Char := "!#$%&'*+-.^_`|~".toList

/-- Whether a character may stand in a token. -/
def isTokenChar (c : Char) : Bool := c.isAlphanum || tokenMarks.contains c

/-- How far a list of parameters has been read. -/
inductive Reading where
  /-- A parameter is due, or the end. -/
  | due
  | name
  /-- The value is due. -/
  | valueDue
  | value
  /-- The first character of a quoted value is due. -/
  | quotedDue
  | quoted
  /-- A quoted value has ended. -/
  | closed
deriving DecidableEq

/-- Whether a character may stand in a quoted value. -/
def isQuotable (c : Char) : Bool := c == '\t' || (' ' ≤ c && c != '\x7f')

/-- Reads one character of a list of parameters. -/
def Reading.step (r : Reading) (c : Char) : Option Reading :=
  match r with
  | .due => if c = ' ' then some .due else if isTokenChar c then some .name else none
  | .name => if c = '=' then some .valueDue else if isTokenChar c then some .name else none
  | .valueDue => if c = '"' then some .quotedDue else if isTokenChar c then some .value else none
  | .value => if c = ';' then some .due else if isTokenChar c then some .value else none
  | .quotedDue => if isQuotable c then some .quoted else none
  | .quoted => if c = '"' then some .closed else if isQuotable c then some .quoted else none
  | .closed => if c = ';' then some .due else if c = ' ' then some .closed else none

/-- Whether a list of parameters may end here. -/
def Reading.mayEnd : Reading → Bool
  | .due | .valueDue | .value | .closed => true
  | .name | .quotedDue | .quoted => false

/-- Whether a text is a list of parameters. -/
def areParameters (cs : List Char) : Bool :=
  match cs.foldlM Reading.step .due with
  | some r => r.mayEnd
  | none => false

/-- A subtype cut before the last plus sign that is not its first character. -/
def cutSuffix (subtype : List Char) : List Char × Option (List Char) :=
  let reversed := subtype.reverse
  let suffix := (reversed.takeWhile fun c => c ≠ '+').reverse
  match (reversed.dropWhile fun c => c ≠ '+').drop 1 with
  -- no plus sign, or nothing in front of it
  | [] => (subtype, none)
  | front => (front.reverse, some suffix)

/-- Reads a media type. -/
def parse? (text : String) : Option MediaType :=
  let cs := text.toList.map Char.toLower
  let type := cs.takeWhile fun c => c ≠ '/'
  let rest := cs.dropWhile fun c => c ≠ '/'
  let subtype := (rest.drop 1).takeWhile fun c => c ≠ ';'
  let parameters := (rest.drop 1).dropWhile fun c => c ≠ ';'
  if type.isEmpty || rest.isEmpty || !type.all isTokenChar || !subtype.all isTokenChar ||
      !areParameters (parameters.drop 1) then none
  else
    let (front, suffix) := cutSuffix subtype
    some ⟨type, front, suffix⟩

/-- Whether values of a media type are JSON. -/
def isJson (m : MediaType) : Bool :=
  let json := "json".toList
  m.type == "application".toList && (m.subtype == json || m.suffix == some json)

end MediaType

end Signpost.Api
