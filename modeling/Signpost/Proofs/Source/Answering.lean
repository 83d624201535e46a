import Signpost.Proofs.Source.Coherence

/-!
# Sources that answer

A source in memory keeps every definition under its own identifier, and answers from what it keeps.
A persistent source that caches only what its store holds answers every question from what is held,
as long as the store does not fail.

## Main definitions

* `MemorySource.Keyed`: a source in memory that keeps definitions under their identifiers.
* `Store.Up`: a store that does not fail.

## Main results

* `MemorySource.keyed_ofList`, `MemorySource.Keyed.insert`, `MemorySource.Keyed.remove`
* `RecordTable.up`, `Backed.query_of_table`
* `Backed.find_of_up`, `Backed.findMany_of_up`, `Backed.queryFirst_of_up`
-/

namespace Signpost

/-! ## In memory -/

namespace MemorySource

variable {α : Type} [Definition α] {s : MemorySource α}

/-- Every definition is kept under its own identifier. -/
def Keyed (s : MemorySource α) : Prop := ∀ id a, s.cache.get? id = some a → Definition.id a = id

theorem Keyed.insert (h : s.Keyed) (definitions : List α) : (s.insert definitions).Keyed := by
  intro id a hget
  have hput : (s.cache.put (items definitions)).get? id = some a := hget
  rw [Cache.get?_put, Option.or_eq_some_iff] at hput
  rcases hput with hnew | ⟨-, hold⟩
  · have hmem := Dict.mem_of_find? hnew
    rw [List.mem_reverse, items, List.mem_map] at hmem
    obtain ⟨b, -, heq⟩ := hmem
    cases heq
    rfl
  · exact h id a hold

theorem keyed_ofList (name : String) (definitions : List α) : (ofList name definitions).Keyed :=
  Keyed.insert (s := ⟨name, .empty, .new⟩) nofun definitions

theorem Keyed.remove (h : s.Keyed) (ids : List Uuid) : (s.remove ids).1.Keyed := by
  intro id a hget
  have hleft : (s.cache.remove ids).1.get? id = some a := hget
  rw [Cache.get?_remove] at hleft
  split at hleft
  · cases hleft
  · exact h id a hleft

end MemorySource

/-! ## In front of a store -/

/-- A store that answers every look-up. -/
structure Store.Up {α : Type} (store : Store α) : Prop where
  get : ∀ id e, store.get id ≠ .error e
  getMany : ∀ ids e, store.getMany ids ≠ .error e
  query : ∀ f e, store.query f ≠ .error e

variable {α : Type} [Definition α] {now : Holdings α}

/-- A table that is in order is up. -/
theorem RecordTable.up {t : RecordTable α} (h : t.failure = none) : t.store.Up := by
  have hanswer : ∀ {β : Type} (b : β) (e : Failure), t.answer b ≠ .error e := by
    intro β b e
    rw [answer, h]
    exact nofun
  exact ⟨fun _ => hanswer _, fun _ => hanswer _, fun _ => hanswer _⟩

namespace Backed

variable {b : Backed α}

theorem find_of_up (hshows : b.store.Shows now) (hholds : b.source.Holds (· ∈ now.definitions))
    (hup : b.store.Up) (id : Uuid) : (b.find id).1 = .ok (now.get? id) := by
  rcases delivers_find hshows hholds id with ⟨found, hfound, rfl⟩ | ⟨e, hget, -⟩
  · exact hfound
  · exact absurd hget (hup.get id e)

/-- What is found of several identifiers is what is held under them, whichever of them is cached. -/
theorem findMany_of_up (hshows : b.store.Shows now)
    (hholds : b.source.Holds (· ∈ now.definitions)) (hup : b.store.Up) (ids : List Uuid) :
    ∃ found, (b.findMany ids).1 = .ok found ∧ ∀ a, a ∈ found ↔ a ∈ now.among ids := by
  have hfound : ∃ found, (b.findMany ids).1 = .ok found := by
    rcases findMany_cases hshows ids with ⟨-, heq⟩ | ⟨e, hget, -⟩ | ⟨records, -, heq⟩
    · exact ⟨_, congrArg Prod.fst heq⟩
    · exact absurd hget (hup.getMany _ e)
    · exact ⟨_, congrArg Prod.fst heq⟩
  obtain ⟨found, hfound⟩ := hfound
  refine ⟨found, hfound, fun a => ?_⟩
  rw [(perm_of_findMany hshows hfound).mem_iff, List.mem_append, List.mem_filterMap,
    Holdings.mem_among, Holdings.mem_among, PersistentSource.mem_missing]
  constructor
  · rintro (⟨id, hid, hprobe⟩ | ⟨ha, hid, -⟩)
    · obtain ⟨ha, rfl⟩ := hholds.of_probe hprobe
      exact ⟨ha, hid⟩
    · exact ⟨ha, hid⟩
  · rintro ⟨ha, hid⟩
    cases hprobe : b.source.probe (Definition.id a) with
    | none => exact .inr ⟨ha, hid, rfl⟩
    | some a' =>
      -- what is cached under the identifier is what is held under it
      obtain ⟨ha', hid'⟩ := hholds.of_probe hprobe
      rw [Holdings.eq_of_id_eq ha' ha hid'] at hprobe
      exact .inl ⟨_, hid, hprobe⟩

theorem queryFirst_of_up (hshows : b.store.Shows now)
    (hholds : b.source.Holds (· ∈ now.definitions)) (hup : b.store.Up) {f : Filter α}
    (hall : b.store.SelectsAll now f) :
    ∃ found, (b.queryFirst f).1 = .ok found ∧
      (found.isSome = true ↔ ∃ a ∈ now.definitions, Definition.matches f a = true) ∧
      ∀ a, found = some a → a ∈ now.definitions ∧ Definition.matches f a = true := by
  rcases delivers_queryFirst hshows hholds f with ⟨found, hfound, hfirst, hsome⟩ | ⟨e, hquery, -⟩
  · exact ⟨found, hfound, hsome hall, hfirst⟩
  · exact absurd hquery (hup.query f e)

/-- What the table behind a source selects, it selects from all that it has. -/
theorem query_of_table {t : RecordTable α} (hstore : b.store = t.store) (hup : t.failure = none)
    (f : Filter α) :
    (b.query f).1 = .ok ((t.all.map Record.payload).filter (Definition.matches f)) := by
  have hquery : b.store.query f =
      .ok (t.all.filter fun r => Definition.matches f r.payload) := by
    rw [hstore]
    simp [RecordTable.store, RecordTable.answer, hup]
  simp only [query, ask, hquery, List.filter_map]
  rfl

end Backed

end Signpost
