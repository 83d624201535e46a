import Signpost.Proofs.Store.Holdings
import Signpost.Source.Persistent

/-!
# What a store has

The records of a store can have any tags, and nothing makes a tag that of the definition.  What the
answers of such a store mean is said against its content, which has at most one record under every
identifier: a store tells its content if it answers every question from it, unless it fails.

## Main definitions

* `Content`, `Store.Tells`
* `RecordTable.Keyed`, `RecordTable.content`: a table whose records are under their identifiers.

## Main results

* `RecordTable.tells`: such a table tells its content.
* `Store.Tells.get?_of_query`, `Store.Tells.get?_of_getMany`: the definitions in an answer.
-/

namespace Signpost

variable {α : Type}

/-- What a store has at one moment, by identifier. -/
structure Content (α : Type) where
  record? : Uuid → Option (Record α)
  /-- Every record is under its own identifier. -/
  id_eq : ∀ {id r}, record? id = some r → r.id = id

/-- The definition with an identifier. -/
def Content.get? (now : Content α) (id : Uuid) : Option α := (now.record? id).map Record.payload

/-- A store tells its content: whatever it answers, it answers from it. -/
structure Store.Tells (store : Store α) (now : Content α) : Prop where
  get : ∀ {id found}, store.get id = .ok found → found = now.record? id
  getMany : ∀ {ids records}, store.getMany ids = .ok records →
    ∀ r ∈ records, r.id ∈ ids ∧ now.record? r.id = some r
  query : ∀ {f records}, store.query f = .ok records → ∀ r ∈ records, now.record? r.id = some r
  headers : ∀ {listing}, store.headers = .ok listing →
    ∀ id, PersistentSource.listedTag listing id = (now.record? id).map Record.etag

namespace Store.Tells

variable {store : Store α} {now : Content α} {records : List (Record α)} {a : α}

/-- What a store selects is what it has. -/
theorem get?_of_query (h : store.Tells now) {f : Filter α} (hquery : store.query f = .ok records)
    (ha : a ∈ records.map Record.payload) : ∃ id, now.get? id = some a := by
  obtain ⟨r, hr, rfl⟩ := List.mem_map.mp ha
  exact ⟨r.id, congrArg (Option.map Record.payload) (h.query hquery r hr)⟩

/-- What a store gives of some identifiers is what it has under them. -/
theorem get?_of_getMany (h : store.Tells now) {ids : List Uuid}
    (hget : store.getMany ids = .ok records) (ha : a ∈ records.map Record.payload) :
    ∃ id ∈ ids, now.get? id = some a := by
  obtain ⟨r, hr, rfl⟩ := List.mem_map.mp ha
  obtain ⟨hid, hrecord⟩ := h.getMany hget r hr
  exact ⟨r.id, hid, congrArg (Option.map Record.payload) hrecord⟩

end Store.Tells

namespace RecordTable

variable {t : RecordTable α}

/-- Every record of a table is under its own identifier. -/
def Keyed (t : RecordTable α) : Prop := ∀ {id r}, t.records.get? id = some r → r.id = id

theorem keyed_empty : (empty : RecordTable α).Keyed := nofun

theorem Tagged.keyed [Definition α] (ht : t.Tagged) : t.Keyed := fun hget => (ht _ _ hget).2

theorem Keyed.putRecord (ht : t.Keyed) (r : Record α) : (t.putRecord r).Keyed := by
  intro id r' hget
  have hput : (t.records.put r.id r).get? id = some r' := hget
  rw [Dict.get?_put] at hput
  split at hput
  · next hid =>
    cases hput
    exact hid.symm
  · exact ht hput

/-- What a table has. -/
def content (t : RecordTable α) (ht : t.Keyed) : Content α := ⟨t.records.get?, ht⟩

theorem perm_values (t : RecordTable α) : t.all.Perm t.records.values := List.mergeSort_perm _ _

theorem mem_all_iff {r : Record α} (ht : t.Keyed) :
    r ∈ t.all ↔ t.records.get? r.id = some r := by
  rw [(perm_values t).mem_iff, Dict.values, List.mem_map]
  constructor
  · rintro ⟨⟨id, r⟩, hmem, rfl⟩
    have hget := (t.records.mem_entries_iff id r).mp hmem
    exact (ht hget).symm ▸ hget
  · intro hget
    exact ⟨(r.id, r), (t.records.mem_entries_iff r.id r).mpr hget, rfl⟩

/-- The records of a table have distinct identifiers. -/
theorem nodup_map_id_all (ht : t.Keyed) : (t.all.map Record.id).Nodup := by
  have hkeys : t.records.values.map Record.id = t.records.entries.map Prod.fst := by
    rw [Dict.values, List.map_map]
    exact List.map_congr_left fun e he => ht ((t.records.mem_entries_iff e.1 e.2).mp he)
  rw [((perm_values t).map Record.id).nodup_iff, hkeys]
  exact t.records.distinct

/-- A table tells what it has. -/
theorem tells [Definition α] (ht : t.Keyed) : t.store.Tells (t.content ht) where
  get hget := (answer_eq_ok hget).symm
  getMany {ids records} hget r hr := by
    rw [← answer_eq_ok hget] at hr
    obtain ⟨id, hid, hrecord⟩ := List.mem_filterMap.mp hr
    obtain rfl := ht hrecord
    exact ⟨hid, hrecord⟩
  query {f records} hquery r hr := by
    rw [← answer_eq_ok hquery] at hr
    exact (mem_all_iff ht).mp (List.mem_filter.mp hr).1
  headers {listing} hheaders id := by
    rw [← answer_eq_ok hheaders]
    have hdistinct :
        (((t.all.map Record.header).map fun h => (h.id, h.etag)).map Prod.fst).Nodup := by
      rw [List.map_map, List.map_map]
      exact nodup_map_id_all ht
    ext tag
    rw [PersistentSource.listedTag, Dict.get?_ofList_eq_some_iff hdistinct, List.map_map,
      List.mem_map, Option.map_eq_some_iff]
    constructor
    · rintro ⟨r, hr, heq⟩
      cases heq
      exact ⟨r, (mem_all_iff ht).mp hr, rfl⟩
    · rintro ⟨r, hr, rfl⟩
      obtain rfl := ht hr
      exact ⟨r, (mem_all_iff ht).mpr hr, rfl⟩

end RecordTable

end Signpost
