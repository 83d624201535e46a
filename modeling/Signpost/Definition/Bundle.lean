import Signpost.Definition.Payload

/-!
# Bundles of definitions

A bundle lists definitions by kind, as they are shipped with a node or imported into a store.

## Main definitions

* `Bundle`, `Bundle.decode`, `Bundle.toJson`
* `Bundle.ofKind`: the definitions of a kind.
-/

namespace Signpost

open Json (Decoder)

/-- Definitions listed by kind. -/
structure Bundle where
  workflows : List Workflow
  signals : List Signal
  triggers : List Trigger
  boardTemplates : List BoardTemplate

namespace Bundle

/-- The bundle without definitions. -/
def empty : Bundle := ⟨[], [], [], []⟩

/-- The definitions of a kind. -/
def ofKind (b : Bundle) : (k : Kind) → List k.Payload
  | .workflow => b.workflows
  | .signal => b.signals
  | .trigger => b.triggers
  | .boardTemplate => b.boardTemplates

/-- How many definitions a bundle lists. -/
def size (b : Bundle) : Nat :=
  b.workflows.length + b.signals.length + b.triggers.length + b.boardTemplates.length

/-- Decodes a bundle; a kind that is missing has no definitions.  In a text, more of it may be given
by arrays than in a value. -/
def decode (inText : Bool) : Decoder Bundle := fun d =>
  (fun r => ⟨r.1, r.2.1, r.2.2.1, r.2.2.2.1⟩) <$> Decoder.record
    (.defaulted "workflows" (.list Workflow.decode) [] <|
      .defaulted "signals" (.list Signal.decode) [] <|
      .defaulted "triggers" (.list (Trigger.decode inText)) [] <|
      .defaulted "board_templates" (.list BoardTemplate.decode) [] .nil) d

/-- The JSON form of a bundle. -/
def toJson (b : Bundle) : Json :=
  .object [("workflows", .array (b.workflows.map Workflow.toJson)),
    ("signals", .array (b.signals.map Signal.toJson)),
    ("triggers", .array (b.triggers.map Trigger.toJson)),
    ("board_templates", .array (b.boardTemplates.map BoardTemplate.toJson))]

end Bundle

end Signpost
