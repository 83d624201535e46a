import Signpost.Json.Token

/-!
# Drafts

A draft is a JSON text as far as it could be read: a tree in which the first fault of the text
stands at the place where it was met.  Whoever walks the tree from left to right therefore meets
the faults of the format and those of the shape in the order of the text, which decides which of
them is reported.  Members are kept as written, repeated keys included.

## Main definitions

* `Json.Draft`
* `Json.Document.ofText`: the draft of a text, and whether something follows it.
* `Json.Draft.limit`: the draft as it is for a reader who goes only so deep.
* `Json.Draft.toJson`: the value of a draft without faults.
* `Json.ofText`: the value of a text.
* `Json.toDraft`: the draft of a value.
-/

namespace Signpost.Json

/-- A JSON text as far as it could be read. -/
inductive Draft where
  | null
  | bool (b : Bool)
  /-- A number, or none if it is beyond the finite binary64 numbers. -/
  | number (n : Option Number)
  /-- A string, or none if it has half a surrogate pair. -/
  | string (s : Option String)
  /-- Items, and the fault met where the next item or the end was due. -/
  | array (items : List Draft) (stop : Option Fault)
  /-- Members, and the fault met where the next member or the end was due. -/
  | object (members : List (Option String × Draft)) (stop : Option Fault)
  /-- No value can be read here. -/
  | fault (f : Fault)
  /-- An array or object that lies too deep to be read, though it can be skipped. -/
  | deep (d : Draft)
deriving Inhabited

/-- The draft of a whole text. -/
structure Document where
  root : Draft
  /-- Whether something other than blanks follows the value. -/
  trailing : Bool

/-! ## Reading -/

/-- An array or object that is being read; what it holds so far comes last one first. -/
inductive Frame where
  | items (done : List Draft)
  | members (done : List (Option String × Draft))
  /-- An object whose last key has been read. -/
  | member (done : List (Option String × Draft)) (key : Option String)

/-- What may come next. -/
inductive Due where
  | value
  /-- A value, or the end of an array. -/
  | firstItem
  | key
  /-- A key, or the end of an object. -/
  | firstKey
  | colon
  /-- A comma, or the end of the array or object. -/
  | comma
deriving DecidableEq

/-- How far a reader has come. -/
inductive Progress where
  | reading (stack : List Frame) (due : Due)
  /-- The value is complete. -/
  | complete (root : Draft) (trailing : Bool)
  /-- A fault has been met. -/
  | stopped (root : Draft)

namespace Progress

/-- Puts a value with a fault in it where it stands in the arrays and objects around it. -/
def wrap (v : Draft) : List Frame → Draft
  | [] => v
  | .items done :: rest => wrap (.array (v :: done).reverse none) rest
  | .members done :: rest => wrap (.object done.reverse none) rest
  | .member done key :: rest => wrap (.object ((key, v) :: done).reverse none) rest

/-- Stops where a value is due. -/
def stopAtValue (stack : List Frame) (f : Fault) : Progress := .stopped (wrap (.fault f) stack)

/-- Stops where a key, a comma or an end is due. -/
def stopBetween (stack : List Frame) (f : Fault) : Progress :=
  match stack with
  | .items done :: rest => .stopped (wrap (.array done.reverse (some f)) rest)
  | .members done :: rest => .stopped (wrap (.object done.reverse (some f)) rest)
  | stack => stopAtValue stack f

/-- Takes a complete value. -/
def settle (v : Draft) : List Frame → Progress
  | [] => .complete v false
  | .items done :: rest => .reading (.items (v :: done) :: rest) .comma
  | .members done :: rest => .reading (.members done :: rest) .comma
  | .member done key :: rest => .reading (.members ((key, v) :: done) :: rest) .comma

/-- Takes the first token of a value. -/
def takeValue (stack : List Frame) : Token → Progress
  | .null => settle .null stack
  | .bool b => settle (.bool b) stack
  | .number n => settle (.number n) stack
  | .string s => settle (.string s) stack
  | .openArray => .reading (.items [] :: stack) .firstItem
  | .openObject => .reading (.members [] :: stack) .firstKey
  | .broken _ f => stopAtValue stack f
  | .closeArray | .closeObject | .colon | .comma => stopAtValue stack .malformed

/-- Takes a key. -/
def takeKey (stack : List Frame) : Token → Progress
  | .string s =>
    match stack with
    | .members done :: rest => .reading (.member done s :: rest) .colon
    | stack => stopBetween stack .malformed
  | .broken true f => stopBetween stack f
  | _ => stopBetween stack .malformed

/-- Takes a comma or an end. -/
def takeComma (stack : List Frame) (t : Token) : Progress :=
  match stack, t with
  | .items done :: rest, .comma => .reading (.items done :: rest) .value
  | .items done :: rest, .closeArray => settle (.array done.reverse none) rest
  | .members done :: rest, .comma => .reading (.members done :: rest) .key
  | .members done :: rest, .closeObject => settle (.object done.reverse none) rest
  | stack, _ => stopBetween stack .malformed

/-- Takes one token. -/
def step (p : Progress) (t : Token) : Progress :=
  match p with
  | .complete root _ => .complete root true
  | .stopped root => .stopped root
  | .reading stack .value => takeValue stack t
  | .reading stack .firstItem =>
    match stack, t with
    | .items _ :: rest, .closeArray => settle (.array [] none) rest
    | stack, t => takeValue stack t
  | .reading stack .key => takeKey stack t
  | .reading stack .firstKey =>
    match stack, t with
    | .members _ :: rest, .closeObject => settle (.object [] none) rest
    | stack, t => takeKey stack t
  | .reading stack .colon =>
    match t with
    | .colon => .reading stack .value
    | _ => stopAtValue stack .malformed
  | .reading stack .comma => takeComma stack t

/-- What a reader has when the text ends. -/
def finish : Progress → Document
  | .complete root trailing => ⟨root, trailing⟩
  | .stopped root => ⟨root, false⟩
  -- the text ends where a value is due, or the colon before it
  | .reading stack .value | .reading stack .firstItem | .reading stack .colon =>
    match stopAtValue stack .truncated with
    | .stopped root => ⟨root, false⟩
    | _ => ⟨.fault .truncated, false⟩
  -- the text ends where a key, a comma or an end is due
  | .reading stack _ =>
    match stopBetween stack .truncated with
    | .stopped root => ⟨root, false⟩
    | _ => ⟨.fault .truncated, false⟩

end Progress

/-! ## Depth -/

namespace Draft

mutual

/-- The draft for a reader who enters at most `depth` arrays and objects within each other. -/
def limit (depth : Nat) : Draft → Draft
  | .array items stop =>
    match depth with
    | 0 => .deep (.array items stop)
    | depth + 1 => .array (limitItems depth items) stop
  | .object members stop =>
    match depth with
    | 0 => .deep (.object members stop)
    | depth + 1 => .object (limitMembers depth members) stop
  | d => d

/-- The items for a reader of limited depth. -/
def limitItems (depth : Nat) : List Draft → List Draft
  | [] => []
  | d :: rest => limit depth d :: limitItems depth rest

/-- The members for a reader of limited depth. -/
def limitMembers (depth : Nat) : List (Option String × Draft) → List (Option String × Draft)
  | [] => []
  | (key, d) :: rest => (key, limit depth d) :: limitMembers depth rest

end

end Draft

/-- How many arrays and objects within each other are read of a text. -/
def maxDepth : Nat := 127

/-- The document that a list of tokens makes. -/
def Document.ofTokens (ts : List Token) : Document :=
  (ts.foldl Progress.step (.reading [] .value)).finish

/-- The document of a text. -/
def Document.ofText (text : String) : Document :=
  let document := ofTokens (tokens text.toList)
  { document with root := document.root.limit maxDepth }

/-! ## Values and drafts -/

namespace Draft

mutual

/-- The value of a draft. -/
def toJson : Draft → Except Fault Json
  | .null => .ok .null
  | .bool b => .ok (.bool b)
  | .number (some n) => .ok (.number n)
  | .number none => .error .malformed
  | .string (some s) => .ok (.string s)
  | .string none => .error .malformed
  | .array items stop => do
    let items ← toItems items
    match stop with
    | some f => .error f
    | none => .ok (.array items)
  | .object members stop => do
    let members ← toMembers members
    match stop with
    | some f => .error f
    | none => .ok (.object (sortMembers members))
  | .fault f => .error f
  | .deep _ => .error .malformed

/-- The values of the items. -/
def toItems : List Draft → Except Fault (List Json)
  | [] => .ok []
  | d :: rest => do
    let v ← toJson d
    return v :: (← toItems rest)

/-- The members with their values. -/
def toMembers : List (Option String × Draft) → Except Fault (List (String × Json))
  | [] => .ok []
  | (none, _) :: _ => .error .malformed
  | (some key, d) :: rest => do
    let v ← toJson d
    return (key, v) :: (← toMembers rest)

end

mutual

/-- The first fault of the format in a draft that is skipped.  Numbers that are too large and
strings that are unusable do not matter when nobody asks for them. -/
def skipFault : Draft → Option Fault
  | .array items stop => (skipItems items).or stop
  | .object members stop => (skipMembers members).or stop
  | .fault f => some f
  | .deep d => skipFault d
  | _ => none

/-- The first fault in skipped items. -/
def skipItems : List Draft → Option Fault
  | [] => none
  | d :: rest => (skipFault d).or (skipItems rest)

/-- The first fault in skipped members. -/
def skipMembers : List (Option String × Draft) → Option Fault
  | [] => none
  | (_, d) :: rest => (skipFault d).or (skipMembers rest)

end

end Draft

mutual

/-- The draft of a value. -/
def toDraft : Json → Draft
  | .null => .null
  | .bool b => .bool b
  | .number n => .number (some n)
  | .string s => .string (some s)
  | .array items => .array (itemsToDraft items) none
  | .object members => .object (membersToDraft members) none

/-- The drafts of items. -/
def itemsToDraft : List Json → List Draft
  | [] => []
  | v :: rest => toDraft v :: itemsToDraft rest

/-- The drafts of members. -/
def membersToDraft : List (String × Json) → List (Option String × Draft)
  | [] => []
  | (key, v) :: rest => (some key, toDraft v) :: membersToDraft rest

end

/-- The value of a text.  Members are sorted by key, and of several with one key the last counts. -/
def ofText (text : String) : Except Fault Json := do
  let document := Document.ofText text
  let value ← document.root.toJson
  if document.trailing then .error .malformed else .ok value

end Signpost.Json
