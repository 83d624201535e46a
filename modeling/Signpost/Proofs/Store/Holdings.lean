import Mathlib.Data.List.Nodup
import Mathlib.Data.List.Perm.Subperm
import Signpost.Store.RecordTable

/-!
# What a store holds

A store holds definitions, of which no two have one identifier.  What its answers mean is said
against them: a store shows its holdings if it answers every question from them, each definition in
its record, in whatever order, unless it fails.  What it selects by a filter need not be everything
that matches: this is said of each filter alone, for a store that has a filter evaluated elsewhere
may miss some definitions by one filter and none by another.

## Main definitions

* `Holdings`, `Holdings.get?`, `Holdings.among`, `Holdings.matching`
* `Store.Shows`: what a store answers, if it answers.
* `Store.SelectsAll`: by some filter a store selects everything that matches.
* `RecordTable.Tagged`, `RecordTable.holdings`: a table of the records of definitions.

## Main results

* `RecordTable.shows`, `RecordTable.selectsAll`: such a table shows its holdings, and misses none.
* `RecordTable.Tagged.put`, `RecordTable.Tagged.delete`
-/

namespace Signpost

/-- Among items with distinct keys every one is found by its key. -/
theorem find?_key_eq_some_iff {ι κ : Type} [DecidableEq κ] {key : ι → κ} {items : List ι}
    (hdistinct : (items.map key).Nodup) {k : κ} {x : ι} :
    items.find? (fun x => decide (key x = k)) = some x ↔ x ∈ items ∧ key x = k := by
  constructor
  · intro hfind
    exact ⟨List.mem_of_find?_eq_some hfind, by simpa using List.find?_some hfind⟩
  · rintro ⟨hx, rfl⟩
    cases hfind : items.find? fun y => decide (key y = key x) with
    | none =>
      have hother := List.find?_eq_none.mp hfind x hx
      simp at hother
    | some y =>
      have hkey : key y = key x := by simpa using List.find?_some hfind
      rw [List.inj_on_of_nodup_map hdistinct (List.mem_of_find?_eq_some hfind) hx hkey]

/-- The definitions that a store holds. -/
structure Holdings (α : Type) [Definition α] where
  definitions : List α
  /-- No two of them have one identifier. -/
  distinct : (definitions.map Definition.id).Nodup

namespace Holdings

variable {α : Type} [Definition α] {h : Holdings α} {a a' : α} {id : Uuid}

/-- The definition with an identifier. -/
def get? (h : Holdings α) (id : Uuid) : Option α :=
  h.definitions.find? fun a => decide (Definition.id a = id)

/-- The definitions with some identifiers. -/
def among (h : Holdings α) (ids : List Uuid) : List α :=
  h.definitions.filter fun a => decide (Definition.id a ∈ ids)

/-- The definitions that a filter selects. -/
def matching (h : Holdings α) (f : Filter α) : List α := h.definitions.filter (Definition.matches f)

theorem nodup (h : Holdings α) : h.definitions.Nodup := h.distinct.of_map _

theorem eq_of_id_eq (ha : a ∈ h.definitions) (ha' : a' ∈ h.definitions)
    (hid : Definition.id a = Definition.id a') : a = a' :=
  List.inj_on_of_nodup_map h.distinct ha ha' hid

theorem get?_eq_some_iff : h.get? id = some a ↔ a ∈ h.definitions ∧ Definition.id a = id :=
  find?_key_eq_some_iff h.distinct

theorem get?_id (ha : a ∈ h.definitions) : h.get? (Definition.id a) = some a :=
  get?_eq_some_iff.mpr ⟨ha, rfl⟩

@[simp] theorem mem_among {ids : List Uuid} :
    a ∈ h.among ids ↔ a ∈ h.definitions ∧ Definition.id a ∈ ids := by
  simp [among]

@[simp] theorem mem_matching {f : Filter α} :
    a ∈ h.matching f ↔ a ∈ h.definitions ∧ Definition.matches f a = true := by
  simp [matching]

/-- The definitions of some identifiers, found one after another. -/
theorem perm_filterMap_get? (h : Holdings α) {ids : List Uuid} (hids : ids.Nodup) :
    (ids.filterMap h.get?).Perm (h.among ids) := by
  have hnodup : (ids.filterMap h.get?).Nodup := hids.filterMap fun id id' a hid hid' =>
    (get?_eq_some_iff.mp hid).2.symm.trans (get?_eq_some_iff.mp hid').2
  refine (List.perm_ext_iff_of_nodup hnodup (h.nodup.filter _)).mpr fun a => ?_
  · show _ ↔ a ∈ h.among ids
    rw [mem_among, List.mem_filterMap]
    constructor
    · rintro ⟨id, hmem, hget⟩
      obtain ⟨ha, rfl⟩ := get?_eq_some_iff.mp hget
      exact ⟨ha, hmem⟩
    · rintro ⟨ha, hmem⟩
      exact ⟨_, hmem, get?_id ha⟩

/-- The order and the number of the identifiers do not matter. -/
theorem among_congr {ids ids' : List Uuid} (hids : ∀ id, id ∈ ids ↔ id ∈ ids') :
    h.among ids = h.among ids' :=
  List.filter_congr fun a _ => by simp only [hids]

theorem isSome_get?_iff : (h.get? id).isSome = true ↔ id ∈ h.definitions.map Definition.id := by
  rw [Option.isSome_iff_exists, List.mem_map]
  simp only [get?_eq_some_iff]

/-- Among the definitions of some identifiers every known one is there once. -/
theorem count_map_id_among (h : Holdings α) (ids : List Uuid) (id : Uuid) :
    ((h.among ids).map Definition.id).count id =
      if id ∈ ids ∧ (h.get? id).isSome = true then 1 else 0 := by
  have hdistinct : ((h.among ids).map Definition.id).Nodup :=
    (List.filter_sublist.map Definition.id).nodup h.distinct
  have hmem : id ∈ (h.among ids).map Definition.id ↔ id ∈ ids ∧ (h.get? id).isSome = true := by
    rw [isSome_get?_iff, List.mem_map, List.mem_map]
    simp only [mem_among]
    grind
  rw [hdistinct.count]
  simp only [hmem]

/-- Definitions that are held are told by their identifiers. -/
theorem filterMap_map_id {l : List α} (hl : ∀ a ∈ l, a ∈ h.definitions) :
    (l.map Definition.id).filterMap h.get? = l := by
  induction l with
  | nil => rfl
  | cons a rest ih =>
    rw [List.map_cons, List.filterMap_cons_some (get?_id (hl a List.mem_cons_self)),
      ih fun a ha => hl a (List.mem_cons_of_mem _ ha)]

theorem perm_of_map_id {l l' : List α} (hl : ∀ a ∈ l, a ∈ h.definitions)
    (hl' : ∀ a ∈ l', a ∈ h.definitions)
    (hids : (l.map Definition.id).Perm (l'.map Definition.id)) : l.Perm l' := by
  rw [← filterMap_map_id hl, ← filterMap_map_id hl']
  exact hids.filterMap h.get?

theorem matches_all (a : α) : Definition.matches .all a = true := rfl

@[simp] theorem matching_all (h : Holdings α) : h.matching .all = h.definitions :=
  List.filter_eq_self.mpr fun a _ => matches_all a

end Holdings

variable {α : Type} [Definition α]

theorem Record.map_payload_map_of (definitions : List α) :
    (definitions.map Record.of).map Record.payload = definitions := by
  rw [List.map_map]
  exact List.map_id definitions

/-! ## Answers -/

/-- By some filter a store selects everything that matches, as it should, if it answers. -/
def Store.SelectsAll (store : Store α) (h : Holdings α) (f : Filter α) : Prop :=
  ∀ records, store.query f = .ok records → records.Perm ((h.matching f).map Record.of)

/-- A store shows its holdings: whatever it answers, it answers from them. -/
structure Store.Shows (store : Store α) (h : Holdings α) : Prop where
  get : ∀ {id found}, store.get id = .ok found → found = (h.get? id).map Record.of
  /-- Every identifier is asked for once, and unknown ones are skipped. -/
  getMany : ∀ {ids records}, ids.Nodup → store.getMany ids = .ok records →
    records.Perm ((h.among ids).map Record.of)
  /-- Whatever is selected matches, and is selected once. -/
  query : ∀ {f records}, store.query f = .ok records →
    records.Subperm ((h.matching f).map Record.of)
  all : store.SelectsAll h .all
  headers : ∀ {listing}, store.headers = .ok listing →
    listing.Perm (h.definitions.map fun a => (Record.of a).header)

/-! ## Tables of records -/

namespace RecordTable

variable {t : RecordTable α}

/-- Every record of a table is that of its definition. -/
def Tagged (t : RecordTable α) : Prop :=
  ∀ id r, t.records.get? id = some r → r = Record.of r.payload ∧ r.id = id

theorem tagged_empty : (empty : RecordTable α).Tagged := nofun

theorem Tagged.put (ht : t.Tagged) (a : α) : (t.put a).Tagged := by
  intro id r hget
  have hput : (t.records.put (Definition.id a) (Record.of a)).get? id = some r := hget
  rw [Dict.get?_put] at hput
  split at hput
  · next hid =>
    cases hput
    exact ⟨rfl, hid.symm⟩
  · exact ht id r hput

theorem Tagged.delete (ht : t.Tagged) (id : Uuid) : (t.delete id).1.Tagged := by
  intro k r hget
  have herase : (t.records.erase id).get? k = some r := hget
  rw [Dict.get?_erase] at herase
  split at herase
  · cases herase
  · exact ht k r herase

theorem Tagged.of_mem_entries (ht : t.Tagged) {e : Uuid × Record α} (he : e ∈ t.records.entries) :
    e.2 = Record.of e.2.payload ∧ e.2.id = e.1 :=
  ht e.1 e.2 ((t.records.mem_entries_iff e.1 e.2).mp he)

/-- What a table holds. -/
def holdings (t : RecordTable α) (ht : t.Tagged) : Holdings α where
  definitions := t.records.values.map Record.payload
  distinct := by
    have hkeys : (t.records.values.map Record.payload).map Definition.id =
        t.records.entries.map Prod.fst := by
      rw [Dict.values, List.map_map, List.map_map]
      refine List.map_congr_left fun e he => ?_
      obtain ⟨hrecord, hid⟩ := ht.of_mem_entries he
      exact (congrArg Record.id hrecord).symm.trans hid
    rw [hkeys]
    exact t.records.distinct

variable (ht : t.Tagged)

theorem map_of_definitions : (t.holdings ht).definitions.map Record.of = t.records.values := by
  show (t.records.values.map Record.payload).map Record.of = t.records.values
  rw [Dict.values, List.map_map, List.map_map]
  exact List.map_congr_left fun e he => (ht.of_mem_entries he).1.symm

theorem records_get? (id : Uuid) :
    t.records.get? id = ((t.holdings ht).get? id).map Record.of := by
  ext r
  rw [Option.map_eq_some_iff, ← Dict.mem_entries_iff]
  constructor
  · intro hmem
    obtain ⟨hrecord, hid⟩ := ht.of_mem_entries hmem
    refine ⟨r.payload, Holdings.get?_eq_some_iff.mpr ⟨?_, ?_⟩, hrecord.symm⟩
    · exact List.mem_map.mpr ⟨r, List.mem_map.mpr ⟨_, hmem, rfl⟩, rfl⟩
    · exact (congrArg Record.id hrecord).symm.trans hid
  · rintro ⟨a, hget, rfl⟩
    obtain ⟨ha, rfl⟩ := Holdings.get?_eq_some_iff.mp hget
    have hvalue : Record.of a ∈ t.records.values := by
      rw [← map_of_definitions ht]
      exact List.mem_map_of_mem ha
    obtain ⟨e, he, hsnd⟩ := List.mem_map.mp hvalue
    have hkey : e.1 = Definition.id a := by rw [← (ht.of_mem_entries he).2, hsnd]; rfl
    rwa [← hkey, ← hsnd]

theorem perm_all : t.all.Perm ((t.holdings ht).definitions.map Record.of) := by
  rw [map_of_definitions]
  exact List.mergeSort_perm _ _

/-- The records that satisfy a condition are those of the definitions whose records do. -/
theorem perm_filter_all (p : Record α → Bool) : (t.all.filter p).Perm
    (((t.holdings ht).definitions.filter fun a => p (Record.of a)).map Record.of) :=
  ((perm_all ht).filter p).trans (.of_eq List.filter_map)

theorem perm_map_header_all : (t.all.map Record.header).Perm
    ((t.holdings ht).definitions.map fun a => (Record.of a).header) :=
  ((perm_all ht).map Record.header).trans (.of_eq (List.map_map ..))

theorem mem_map_payload_all_iff {a : α} :
    a ∈ t.all.map Record.payload ↔ a ∈ (t.holdings ht).definitions := by
  rw [((perm_all ht).map Record.payload).mem_iff, Record.map_payload_map_of]

/-- A table selects everything that matches. -/
theorem selectsAll (f : Filter α) : t.store.SelectsAll (t.holdings ht) f := by
  intro records hquery
  rw [← answer_eq_ok hquery]
  exact perm_filter_all ht _

/-- **A table of the records of definitions shows what it holds**. -/
theorem shows : t.store.Shows (t.holdings ht) where
  get hget := by rw [← answer_eq_ok hget, records_get? ht]
  getMany {ids records} hids hget := by
    rw [← answer_eq_ok hget, funext (records_get? ht), ← List.map_filterMap]
    exact ((t.holdings ht).perm_filterMap_get? hids).map Record.of
  query {f records} hquery := (selectsAll ht f records hquery).subperm
  all := selectsAll ht .all
  headers hheaders := by
    rw [← answer_eq_ok hheaders]
    exact perm_map_header_all ht

end RecordTable

end Signpost
