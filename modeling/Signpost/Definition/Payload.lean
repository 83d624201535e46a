import Signpost.Definition.Kind
import Signpost.Json.Decode
import Signpost.Json.Printer
import Signpost.Uuid

/-!
# Definitions

A definition is an immutable configuration object with an identifier: a workflow with its stages, a
signal, a trigger that starts workflows, or a template for coordination boards.  Each has a JSON
form with its fields in one order.

## Main definitions

* `Workflow`, `Signal`, `Trigger`, `BoardTemplate`
* `Definition`: what every type of definition offers.
* `Kind.Payload`: the type of the definitions of a kind, and `Kind.decode`.
-/

namespace Signpost

open Json (Decoder Fields)

/-- What every type of definition offers. -/
class Definition (α : Type) where
  kind : Kind
  /-- The identifier of a definition, the same for its whole life. -/
  id : α → Uuid
  /-- The JSON form, with the fields in their order. -/
  toJson : α → Json
  decode : Decoder α

/-- The JSON form of an identifier. -/
def Uuid.toJson (u : Uuid) : Json := .string u.toString

/-- Decodes an identifier. -/
def Uuid.decode : Decoder Uuid := Decoder.parsed Uuid.parse?

/-- The JSON form of a list of texts. -/
def Json.ofStrings (texts : List String) : Json := .array (texts.map .string)

/-- The JSON form of a list of identifiers. -/
def Json.ofUuids (ids : List Uuid) : Json := .array (ids.map Uuid.toJson)

/-! ## Workflows -/

/-- A workflow: named stages in their order. -/
structure Workflow where
  uid : Uuid
  displayName : String
  stages : List String
deriving DecidableEq

/-- The JSON form of a workflow. -/
def Workflow.toJson (w : Workflow) : Json :=
  .object [("uid", w.uid.toJson), ("display_name", .string w.displayName),
    ("stages", .ofStrings w.stages)]

/-- Decodes a workflow. -/
def Workflow.decode : Decoder Workflow := fun d =>
  (fun r => ⟨r.1, r.2.1, r.2.2.1⟩) <$> Decoder.record
    (.required "uid" Uuid.decode <| .required "display_name" .string <|
      .required "stages" (.list .string) .nil) d

instance : Definition Workflow := ⟨.workflow, Workflow.uid, Workflow.toJson, Workflow.decode⟩

/-! ## Signals -/

/-- A named signal that triggers and workflows react to. -/
structure Signal where
  uid : Uuid
  name : String
deriving DecidableEq

/-- The JSON form of a signal. -/
def Signal.toJson (s : Signal) : Json :=
  .object [("uid", s.uid.toJson), ("name", .string s.name)]

/-- Decodes a signal. -/
def Signal.decode : Decoder Signal := fun d =>
  (fun r => ⟨r.1, r.2.1⟩) <$> Decoder.record
    (.required "uid" Uuid.decode <| .required "name" .string .nil) d

instance : Definition Signal := ⟨.signal, Signal.uid, Signal.toJson, Signal.decode⟩

/-! ## Triggers -/

/-- What sets a trigger off. -/
inductive TriggerSource where
  /-- A schedule. -/
  | cron (expression : String)
  /-- A signal. -/
  | signal (id : Uuid)
  /-- A message in a queue. -/
  | stream (queue : String)
deriving DecidableEq

/-- The JSON form of a trigger's source. -/
def TriggerSource.toJson : TriggerSource → Json
  | .cron expression => .object [("cron", .object [("expression", .string expression)])]
  | .signal id => .object [("signal", .object [("signal", id.toJson)])]
  | .stream queue => .object [("stream", .object [("queue", .string queue)])]

/-- Decodes a record of one field. -/
def Json.Decoder.single {α β : Type} (name : String) (decode : Decoder α) (make : α → β) :
    Decoder β := fun d =>
  (fun r => make r.1) <$> Decoder.record (.required name decode .nil) d

/-- Decodes a trigger's source.  What it carries is a record, which may be an array only if
`arrays` says so. -/
def TriggerSource.decode (arrays : Bool) : Decoder TriggerSource :=
  let carried (decode : Decoder TriggerSource) : Option (Json.Case TriggerSource) :=
    some (.holding (if arrays then decode else decode.objectOnly))
  Decoder.tagged fun
    | "cron" => carried (.single "expression" .string .cron)
    | "signal" => carried (.single "signal" Uuid.decode .signal)
    | "stream" => carried (.single "queue" .string .stream)
    | _ => none

/-- A trigger: what sets it off and the workflows that it starts. -/
structure Trigger where
  uid : Uuid
  displayName : String
  source : TriggerSource
  targets : List Uuid
  enabled : Bool
deriving DecidableEq

/-- The JSON form of a trigger. -/
def Trigger.toJson (t : Trigger) : Json :=
  .object [("uid", t.uid.toJson), ("display_name", .string t.displayName),
    ("source", t.source.toJson), ("targets", .ofUuids t.targets), ("enabled", .bool t.enabled)]

/-- Decodes a trigger, which is enabled unless it says otherwise. -/
def Trigger.decode (arrays : Bool) : Decoder Trigger := fun d =>
  (fun r => ⟨r.1, r.2.1, r.2.2.1, r.2.2.2.1, r.2.2.2.2.1⟩) <$> Decoder.record
    (.required "uid" Uuid.decode <| .required "display_name" .string <|
      .required "source" (TriggerSource.decode arrays) <| .required "targets" (.list Uuid.decode) <|
      .defaulted "enabled" .bool true .nil) d

instance : Definition Trigger := ⟨.trigger, Trigger.uid, Trigger.toJson, Trigger.decode false⟩

/-! ## Board templates -/

/-- A template for coordination boards. -/
structure BoardTemplate where
  uid : Uuid
  uniqueTemplateName : String
  controllers : List String
deriving DecidableEq

/-- The JSON form of a board template. -/
def BoardTemplate.toJson (b : BoardTemplate) : Json :=
  .object [("uid", b.uid.toJson), ("unique_template_name", .string b.uniqueTemplateName),
    ("controllers", .ofStrings b.controllers)]

/-- Decodes a board template. -/
def BoardTemplate.decode : Decoder BoardTemplate := fun d =>
  (fun r => ⟨r.1, r.2.1, r.2.2.1⟩) <$> Decoder.record
    (.required "uid" Uuid.decode <| .required "unique_template_name" .string <|
      .required "controllers" (.list .string) .nil) d

instance : Definition BoardTemplate :=
  ⟨.boardTemplate, BoardTemplate.uid, BoardTemplate.toJson, BoardTemplate.decode⟩

/-! ## Definitions of a kind -/

/-- The type of the definitions of a kind. -/
@[reducible] def Kind.Payload : Kind → Type
  | .workflow => Workflow
  | .signal => Signal
  | .trigger => Trigger
  | .boardTemplate => BoardTemplate

/-- Decodes a definition of a kind.  In a text, more of it may be given by arrays than in a value. -/
def Kind.decode (inText : Bool) : (k : Kind) → Decoder k.Payload
  | .workflow => Workflow.decode
  | .signal => Signal.decode
  | .trigger => Trigger.decode inText
  | .boardTemplate => BoardTemplate.decode

instance instDefinitionPayload : (k : Kind) → Definition k.Payload
  | .workflow => inferInstanceAs (Definition Workflow)
  | .signal => inferInstanceAs (Definition Signal)
  | .trigger => inferInstanceAs (Definition Trigger)
  | .boardTemplate => inferInstanceAs (Definition BoardTemplate)

instance instDecidableEqPayload : (k : Kind) → DecidableEq k.Payload
  | .workflow => inferInstanceAs (DecidableEq Workflow)
  | .signal => inferInstanceAs (DecidableEq Signal)
  | .trigger => inferInstanceAs (DecidableEq Trigger)
  | .boardTemplate => inferInstanceAs (DecidableEq BoardTemplate)

theorem decode_payload (k : Kind) : Definition.decode (α := k.Payload) = k.decode false := by
  cases k <;> rfl

end Signpost
