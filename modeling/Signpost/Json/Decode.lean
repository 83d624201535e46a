import Signpost.Json.Draft

/-!
# Typed values from JSON

A decoder turns a draft into a value of a type, or says why it cannot.  Records are decoded from an
object, whose unknown members are skipped and whose known ones may not be repeated, or from an
array of the fields in their order.  A tagged value is an object with one member, named for the
alternative, or a bare name where the alternative carries nothing.

## Main definitions

* `Json.Decoder`
* `Json.Fields`: the fields of a record, put together with `Fields.required`, `Fields.optional`
  and `Fields.defaulted`.
* `Json.Decoder.record`, `Json.Decoder.tagged`
* `Json.decode?`: decodes a value.
-/

namespace Signpost.Json

/-- A decoder of typed values. -/
abbrev Decoder (α : Type) := Draft → Except Fault α

/-- Why a draft is refused where a value of another shape is wanted.  Numbers and strings are read
before their shape is looked at. -/
def Draft.refusal : Draft → Fault
  | .fault f => f
  | .number none | .string none | .deep _ => .malformed
  | _ => .shape

namespace Decoder

/-- Decodes a string. -/
def string : Decoder String
  | .string (some s) => .ok s
  | d => .error d.refusal

/-- Decodes a truth value. -/
def bool : Decoder Bool
  | .bool b => .ok b
  | d => .error d.refusal

/-- Decodes an integer from zero up to the largest of 64 bits. -/
def natural : Decoder Nat
  | .number (some (.integer i _)) => if 0 ≤ i then .ok i.toNat else .error .shape
  | d => .error d.refusal

/-- Decodes nothing. -/
def unit : Decoder Unit
  | .null => .ok ()
  | d => .error d.refusal

/-- Decodes any value. -/
def json : Decoder Json := Draft.toJson

/-- Decodes a value that may be null. -/
def nullable {α : Type} (decode : Decoder α) : Decoder (Option α)
  | .null => .ok none
  | d => some <$> decode d

/-- Decodes the items of an array in their order. -/
def items {α : Type} (decode : Decoder α) : List Draft → Except Fault (List α)
  | [] => .ok []
  | d :: rest => do
    let a ← decode d
    return a :: (← items decode rest)

/-- Decodes an array. -/
def list {α : Type} (decode : Decoder α) : Decoder (List α)
  | .array ds stop => do
    let as ← items decode ds
    match stop with
    | some f => .error f
    | none => .ok as
  | d => .error d.refusal

/-- Decodes a string and turns it into a value that not every string stands for. -/
def parsed {α : Type} (parse : String → Option α) : Decoder α := fun d => do
  match parse (← string d) with
  | some a => .ok a
  | none => .error .shape

end Decoder

/-! ## Records -/

/-- The fields of a record: what has been found of them, how a member of an object is taken, and
how the record is put together. -/
structure Fields (α : Type) where
  /-- The fields found so far. -/
  Found : Type
  start : Found
  /-- Takes a member with a known name. -/
  take : String → Draft → Found → Option (Except Fault Found)
  /-- Puts the record together when the object has ended. -/
  finish : Found → Except Fault α
  /-- Takes the fields from the front of an array that may stop with a fault. -/
  inOrder : List Draft → Option Fault → Except Fault (α × List Draft)

namespace Fields

/-- No fields. -/
def nil : Fields Unit where
  Found := Unit
  start := ()
  take _ _ _ := none
  finish _ := .ok ()
  inOrder ds _ := .ok ((), ds)

/-- One more field in front.  `absent` is its value when an object lacks it, `cut` when an array
ends before it. -/
def cons {α β : Type} (name : String) (decode : Decoder α) (absent cut : Option α)
    (rest : Fields β) : Fields (α × β) where
  Found := Option α × rest.Found
  start := (none, rest.start)
  take key d found :=
    if key = name then
      some <| match found.1 with
        | some _ => .error .shape
        | none => (fun a => (some a, found.2)) <$> decode d
    else (rest.take key d found.2).map fun r => (fun f => (found.1, f)) <$> r
  finish found := do
    match found.1.or absent with
    | none => .error .shape
    | some a => return (a, ← rest.finish found.2)
  inOrder ds stop := do
    match ds, stop, cut with
    | d :: ds, stop, _ =>
      let a ← decode d
      let (b, ds) ← rest.inOrder ds stop
      return ((a, b), ds)
    | [], some f, _ => .error f
    | [], none, some a =>
      let (b, ds) ← rest.inOrder [] none
      return ((a, b), ds)
    | [], none, none => .error .shape

/-- A field that must be there. -/
def required {α β : Type} (name : String) (decode : Decoder α) (rest : Fields β) :
    Fields (α × β) :=
  cons name decode none none rest

/-- A field that an object may lack or give as null. -/
def optional {α β : Type} (name : String) (decode : Decoder α) (rest : Fields β) :
    Fields (Option α × β) :=
  cons name (Decoder.nullable decode) (some none) none rest

/-- A field that may be missing and then has a given value. -/
def defaulted {α β : Type} (name : String) (decode : Decoder α) (value : α) (rest : Fields β) :
    Fields (α × β) :=
  cons name decode (some value) (some value) rest

/-- Takes the members of an object in their order. -/
def takeMembers {α : Type} (fields : Fields α) :
    List (Option String × Draft) → fields.Found → Except Fault fields.Found
  | [], found => .ok found
  | (none, _) :: _, _ => .error .malformed
  | (some key, d) :: rest, found => do
    match fields.take key d found with
    | some r => takeMembers fields rest (← r)
    | none =>
      match d.skipFault with
      | some f => .error f
      | none => takeMembers fields rest found

end Fields

/-- Decodes a record from its fields. -/
def Decoder.record {α : Type} (fields : Fields α) : Decoder α
  | .object members stop => do
    let found ← fields.takeMembers members fields.start
    match stop with
    | some f => .error f
    | none => fields.finish found
  | .array ds stop => do
    let (a, extra) ← fields.inOrder ds stop
    match extra, stop with
    | _ :: _, _ => .error .malformed
    | [], some f => .error f
    | [], none => .ok a
  | d => .error d.refusal

/-- Decodes a record that only an object may give. -/
def Decoder.objectOnly {α : Type} (decode : Decoder α) : Decoder α
  | .array _ _ => .error .shape
  | d => decode d

/-! ## Tagged values -/

/-- What an alternative of a tagged value carries. -/
inductive Case (α : Type) where
  /-- Nothing. -/
  | bare (value : α)
  /-- A value of its own. -/
  | holding (decode : Decoder α)

/-- Ends a tagged value: nothing may follow the member that named the alternative. -/
def Decoder.closeTag {α : Type} (rest : List (Option String × Draft)) (stop : Option Fault)
    (value : Except Fault α) : Except Fault α := do
  let a ← value
  match rest, stop with
  | _ :: _, _ => .error .malformed
  | [], some f => .error f
  | [], none => .ok a

/-- Why a draft that names no alternative is refused where a tagged value is wanted. -/
def Draft.tagRefusal : Draft → Fault
  | .fault f => f
  | .object [] stop => stop.getD .malformed
  | _ => .malformed

/-- Decodes a tagged value by the alternative that its name selects. -/
def Decoder.tagged {α : Type} (case : String → Option (Case α)) : Decoder α
  | .string (some name) =>
    match case name with
    | some (.bare value) => .ok value
    | _ => .error .shape
  | .object ((some name, d) :: rest) stop =>
    closeTag rest stop <| match case name with
      | some (.bare value) => (fun _ => value) <$> Decoder.unit d
      | some (.holding decode) => decode d
      | none => .error .shape
  | d => .error d.tagRefusal

/-! ## Values and texts -/

/-- Decodes a value. -/
def decode? {α : Type} (decode : Decoder α) (v : Json) : Option α :=
  match decode v.toDraft with
  | .ok a => some a
  | .error _ => none

/-- Decodes a text. -/
def decodeText {α : Type} (decode : Decoder α) (text : String) : Except Fault α := do
  let document := Document.ofText text
  let a ← decode document.root
  if document.trailing then .error .malformed else .ok a

end Signpost.Json
