import Signpost.Proofs.Definition.Form
import Signpost.Proofs.Digest
import Signpost.Proofs.Json.RoundTrip
import Signpost.Store.Database

/-!
# What a tag tells

A tag is the digest of a definition's JSON form, and whoever holds a copy of a definition only
compares tags to know whether it is outdated.  That is enough: the form can be read back, be it a
value or a text, so that different definitions have different forms, and different tags unless
their forms collide.  A definition that has been put into the database keeps its tag.

## Main definitions

* `Definition.bytes`: the bytes that a tag is the digest of.

## Main results

* `plain_toJson`: the form of a definition has no numbers, and is shallow.
* `text_toJson_injective`: definitions are told by their texts.
* `Definition.told_by_tag`
-/

namespace Signpost

variable {k : Kind}

/-! ## The text of a definition -/

theorem plain_triggerSource {depth : Nat} (source : TriggerSource) :
    source.toJson.Plain (depth + 2) := by
  cases source with
  | cron | signal | stream => exact ((Json.Plain.string _).single _).single _

theorem plain_ofStrings {depth : Nat} (texts : List String) :
    (Json.ofStrings texts).Plain (depth + 1) := .list .string texts

theorem plain_ofUuids {depth : Nat} (ids : List Uuid) : (Json.ofUuids ids).Plain (depth + 1) :=
  .list (fun id => .string id.toString) ids

/-- The JSON form of a definition has no numbers, and goes no deeper than a trigger's source. -/
theorem plain_toJson (a : k.Payload) : (Definition.toJson a).Plain 3 := by
  cases k with
  | workflow => exact .object (by simp [Uuid.toJson, Json.Plain.string, plain_ofStrings])
  | signal => exact .object (by simp [Uuid.toJson, Json.Plain.string])
  | trigger =>
    exact .object (by simp [Uuid.toJson, Json.Plain.string, Json.Plain.bool, plain_ofUuids,
      plain_triggerSource])
  | boardTemplate => exact .object (by simp [Uuid.toJson, Json.Plain.string, plain_ofStrings])

/-- A definition is read back from its text. -/
theorem decodeText_toJson (inText : Bool) (a : k.Payload) :
    Json.decodeText (k.decode inText) (Definition.toJson a).text = .ok a :=
  (plain_toJson a).decodeText_text (by decide) (reads_payload inText k a).decode_eq

/-- Definitions are told by their texts. -/
theorem text_toJson_injective :
    Function.Injective fun a : k.Payload => (Definition.toJson a).text := by
  intro a b h
  have hread := congrArg (Json.decodeText (k.decode true)) h
  rw [decodeText_toJson, decodeText_toJson] at hread
  exact Except.ok.inj hread

/-! ## Tags -/

namespace Definition

/-- The bytes that the tag of a definition is the digest of. -/
def bytes (a : k.Payload) : List UInt8 := Digest.bytes (toJson a).text

theorem bytes_injective : Function.Injective (bytes (k := k)) :=
  Digest.bytes_injective.comp text_toJson_injective

theorem etag_eq_iff (a b : k.Payload) :
    etag a = etag b ↔ a = b ∨ Digest.Collide (bytes a) (bytes b) := by
  rw [etag, etag, ETag.ofJson, ETag.ofJson, ETag.mk.injEq, Digest.ofText_eq_iff,
    text_toJson_injective.eq_iff]
  rfl

/-- **A tag tells its definition**.  A definition is read back from its JSON form, whether this is a
value, in whatever order its members stand, or a text.  So two definitions of a kind have the same
bytes only if they are the same, and the same tags as well, unless their bytes collide.  What has
been put into the database is read back from its row as it was, with its tag. -/
theorem told_by_tag (a b : k.Payload) :
    (∀ v, (toJson a).Reordered v → Json.decode? (decode (α := k.Payload)) v = some a) ∧
    (∀ inText, Json.decodeText (k.decode inText) (toJson a).text = .ok a) ∧
    (bytes a = bytes b ↔ a = b) ∧
    (¬ Digest.Collide (bytes a) (bytes b) → (etag a = etag b ↔ a = b)) ∧
    ∀ db : Database, ∃ row,
      (db.put a).1.definitions.get? (Database.rowKey k (id a)) = some row ∧
      ∀ v, row.payload.Reordered v →
        StoredRow.toRecord { row.toStoredRow with payload := v } = .ok ⟨id a, etag a, a⟩ := by
  refine ⟨fun v hv => decode_payload k ▸ (reads_payload false k a).decode?_eq hv,
    fun inText => decodeText_toJson inText a, bytes_injective.eq_iff, fun hapart => ?_,
    fun db => ⟨⟨(Record.of a).toRow, k.name⟩, ?_, fun v hv => ?_⟩⟩
  · rw [etag_eq_iff, or_iff_left hapart]
  · show (db.definitions.put (Database.rowKey k (id a)) ⟨(Record.of a).toRow, k.name⟩).get? _ = _
    rw [Dict.get?_put, if_pos rfl]
  · have hform : (toJson a).Reordered v := hv
    exact Record.toRecord_of_reordered hform

/-- A trigger whose name has quotes, a control character, and a letter of two bytes. -/
def alarm : Kind.Payload .trigger :=
  Trigger.mk (.ofNat 1) "say \"\u00e9\"\x01" (.signal (.ofNat 2)) [.ofNat 3] false

/-- Two signals with one identifier. -/
def quiet : Kind.Payload .signal := Signal.mk (.ofNat 2) "quiet"

@[inherit_doc quiet]
def loud : Kind.Payload .signal := Signal.mk (.ofNat 2) "loud"

/-- A trigger is read back with its members sorted, and from its text.  A signal has another tag
when it is renamed, for the two do not collide. -/
theorem told_by_tag_alarm :
    Json.decode? (decode (α := Kind.Payload .trigger)) (toJson alarm).canonical = some alarm ∧
      Json.decodeText (Kind.decode true .trigger) (toJson alarm).text = .ok alarm ∧
      ¬ Digest.Collide (bytes quiet) (bytes loud) ∧ etag quiet ≠ etag loud := by
  obtain ⟨hvalue, htext, -⟩ := told_by_tag alarm alarm
  obtain ⟨-, -, -, htag, -⟩ := told_by_tag quiet loud
  have hapart : ¬ Digest.Collide (bytes quiet) (bytes loud) := fun h =>
    absurd h.2 (by decide +kernel)
  refine ⟨hvalue _ (reads_payload false .trigger alarm).distinct.reordered_canonical, htext true,
    hapart, fun heq => ?_⟩
  exact absurd ((htag hapart).mp heq) (by decide)

end Definition

end Signpost
