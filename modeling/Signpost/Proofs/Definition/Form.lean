import Signpost.Definition.Record
import Signpost.Proofs.Json.Decode
import Signpost.Proofs.Uuid

/-!
# The JSON form of definitions

A definition is read back from its JSON form, and so a record from its row.  The members of the form
have names that are words and never numbers, so that a number in a field path cannot be meant for
one of them.

## Main definitions

* `Json.Worded`: no member of an object has a number for its name.

## Main results

* `reads_payload`: the definitions of every kind are read back.
* `Record.toRecord_of_reordered`, `Record.toRecord_toRow`
* `worded_toJson`
-/

namespace Signpost

open Json (Decoder)
open Json.Fields (Takes)

/-! ## Reading back -/

theorem Uuid.reads_uuid : Uuid.decode.Reads Uuid.toJson := fun u => .parsed (Uuid.parse?_toString u)

theorem reads_workflow : Workflow.decode.Reads Workflow.toJson := by
  intro w
  have htakes : (Json.Fields.required "uid" Uuid.decode <| .required "display_name" .string <|
      .required "stages" (.list .string) .nil).Takes _ (w.uid, w.displayName, w.stages, ()) :=
    .cons (Uuid.reads_uuid w.uid) (by simp) <|
    .cons (Decoder.reads_string w.displayName) (by simp) <|
    .cons (Decoder.reads_string.list w.stages) (by simp) .nil
  exact htakes.record.map _

theorem reads_signal : Signal.decode.Reads Signal.toJson := by
  intro s
  have htakes : (Json.Fields.required "uid" Uuid.decode <|
      .required "name" .string .nil).Takes _ (s.uid, s.name, ()) :=
    .cons (Uuid.reads_uuid s.uid) (by simp) <|
    .cons (Decoder.reads_string s.name) (by simp) .nil
  exact htakes.record.map _

/-- A record of one field is read where its field is. -/
theorem Json.Decoder.Gives.single {α β : Type} {decode : Decoder α} {v : Json} {a : α}
    (h : decode.Gives v a) (name : String) (make : α → β) :
    (Decoder.single name decode make).Gives (.object [(name, v)]) (make a) := by
  have htakes : (Json.Fields.required name decode .nil).Takes _ (a, ()) :=
    .cons h (by simp) .nil
  exact htakes.record.map _

/-- What a trigger's source carries is written as an object, whether or not it may be an array. -/
theorem gives_carried (arrays : Bool) {decode : Decoder TriggerSource}
    {members : List (String × Json)} {source : TriggerSource}
    (h : decode.Gives (.object members) source) :
    (if arrays then decode else decode.objectOnly).Gives (.object members) source := by
  cases arrays with
  | false => exact h.objectOnly
  | true => exact h

theorem reads_triggerSource (arrays : Bool) :
    (TriggerSource.decode arrays).Reads TriggerSource.toJson := by
  intro source
  cases source with
  | cron expression =>
    exact .tagged rfl (gives_carried arrays
      ((Decoder.reads_string expression).single "expression" TriggerSource.cron))
  | signal id =>
    exact .tagged rfl (gives_carried arrays
      ((Uuid.reads_uuid id).single "signal" TriggerSource.signal))
  | stream queue =>
    exact .tagged rfl (gives_carried arrays
      ((Decoder.reads_string queue).single "queue" TriggerSource.stream))

theorem reads_trigger (arrays : Bool) : (Trigger.decode arrays).Reads Trigger.toJson := by
  intro t
  have htakes : (Json.Fields.required "uid" Uuid.decode <| .required "display_name" .string <|
      .required "source" (TriggerSource.decode arrays) <| .required "targets" (.list Uuid.decode) <|
      .defaulted "enabled" .bool true .nil).Takes _
        (t.uid, t.displayName, t.source, t.targets, t.enabled, ()) :=
    .cons (Uuid.reads_uuid t.uid) (by simp) <|
    .cons (Decoder.reads_string t.displayName) (by simp) <|
    .cons (reads_triggerSource arrays t.source) (by simp) <|
    .cons (Uuid.reads_uuid.list t.targets) (by simp) <|
    .cons (Decoder.reads_bool t.enabled) (by simp) .nil
  exact htakes.record.map _

theorem reads_boardTemplate : BoardTemplate.decode.Reads BoardTemplate.toJson := by
  intro b
  have htakes : (Json.Fields.required "uid" Uuid.decode <|
      .required "unique_template_name" .string <|
      .required "controllers" (.list .string) .nil).Takes
        _ (b.uid, b.uniqueTemplateName, b.controllers, ()) :=
    .cons (Uuid.reads_uuid b.uid) (by simp) <|
    .cons (Decoder.reads_string b.uniqueTemplateName) (by simp) <|
    .cons (Decoder.reads_string.list b.controllers) (by simp) .nil
  exact htakes.record.map _

/-- The definitions of every kind are read back from their JSON form, in a text or out of it. -/
theorem reads_payload (inText : Bool) (k : Kind) :
    (k.decode inText).Reads (Definition.toJson (α := k.Payload)) := by
  cases k with
  | workflow => exact reads_workflow
  | signal => exact reads_signal
  | trigger => exact reads_trigger inText
  | boardTemplate => exact reads_boardTemplate

/-- The record of a definition is read back from its row, in whatever order the members of its
payload have been kept. -/
theorem Record.toRecord_of_reordered {k : Kind} {a : k.Payload} {w : Json}
    (hw : (Definition.toJson a).Reordered w) :
    StoredRow.toRecord { (Record.of a).toRow with payload := w } = .ok (Record.of a) := by
  have hpayload : Json.decode? Definition.decode w = some a :=
    decode_payload k ▸ (reads_payload false k a).decode?_eq hw
  simp only [StoredRow.toRecord, toRow, Uuid.parse?_toString, hpayload]
  rfl

/-- The record of a definition is read back from its row. -/
theorem Record.toRecord_toRow {k : Kind} (a : k.Payload) :
    (Record.of a).toRow.toRecord = .ok (Record.of a) :=
  toRecord_of_reordered (reads_payload false k a).distinct.reordered

/-! ## Names -/

/-- Whether a text is made of digits alone. -/
def Text.isDigits (text : String) : Bool := text.toList.all Char.isDigit

/-- No member of an object of the value has digits for its name. -/
inductive Json.Worded : Json → Prop
  | null : Worded .null
  | bool (b : Bool) : Worded (.bool b)
  | number (n : Json.Number) : Worded (.number n)
  | string (s : String) : Worded (.string s)
  | array {items : List Json} (each : ∀ v ∈ items, Worded v) : Worded (.array items)
  | object {members : List (String × Json)}
      (names : (members.map Prod.fst).any Text.isDigits = false)
      (each : ∀ v ∈ members.map Prod.snd, Worded v) : Worded (.object members)

namespace Json.Worded

theorem ofStrings (texts : List String) : Worded (Json.ofStrings texts) :=
  .array fun v hv => by
    obtain ⟨text, -, rfl⟩ := List.mem_map.mp hv
    exact .string text

theorem ofUuids (ids : List Uuid) : Worded (Json.ofUuids ids) :=
  .array fun v hv => by
    obtain ⟨id, -, rfl⟩ := List.mem_map.mp hv
    exact .string _

/-- A value with one member. -/
theorem single {name : String} {v : Json} (hname : Text.isDigits name = false) (h : Worded v) :
    Worded (.object [(name, v)]) :=
  .object (by simp [hname]) (by simpa using h)

theorem triggerSource (source : TriggerSource) : Worded source.toJson := by
  cases source with
  | cron | signal | stream => exact single rfl (single rfl (.string _))

end Json.Worded

/-- The names in the JSON form of a definition are words. -/
theorem worded_toJson {k : Kind} (a : k.Payload) : (Definition.toJson a).Worded := by
  cases k with
  | workflow =>
    refine .object (by simp [Text.isDigits]) ?_
    simp [Uuid.toJson, Json.Worded.string, Json.Worded.ofStrings]
  | signal =>
    refine .object (by simp [Text.isDigits]) ?_
    simp [Uuid.toJson, Json.Worded.string]
  | trigger =>
    refine .object (by simp [Text.isDigits]) ?_
    simp [Uuid.toJson, Json.Worded.string, Json.Worded.bool, Json.Worded.ofUuids,
      Json.Worded.triggerSource]
  | boardTemplate =>
    refine .object (by simp [Text.isDigits]) ?_
    simp [Uuid.toJson, Json.Worded.string, Json.Worded.ofStrings]

end Signpost
