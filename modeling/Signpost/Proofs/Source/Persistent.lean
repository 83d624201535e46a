import Signpost.Proofs.Store.Holdings
import Signpost.Source.Persistent

/-!
# Calls of a persistent source

A definition is cached under its identifier, with its own tag, whichever call fetched it.  What a
call answers, and what it leaves in the cache, is told by what is cached and by what the store
holds, unless the store fails.

## Main definitions

* `PersistentSource.Holds`: every entry of a cache is a definition of some kind.
* `Backed.Quiet`: a call, or the store failing or answering again.

## Main results

* `PersistentSource.Holds.remember`, `PersistentSource.Holds.evict`: the steps keep this.
* `Backed.find_cases`, `Backed.findMany_cases`, `Backed.query_cases`, `Backed.queryFirst_cases`,
  `Backed.refresh_cases`: all that a call can lead to.
* `Backed.Quiet.holds`: every call keeps to what is cached and what is held.
-/

namespace Signpost

variable {α : Type} [Definition α] {p q : α → Prop} {now : Holdings α}

/-! ## What is cached -/

namespace PersistentSource

variable {s : PersistentSource α} {id : Uuid} {a : α}

/-- Every definition that is cached is of some kind, and is cached as in its record. -/
def Holds (s : PersistentSource α) (p : α → Prop) : Prop :=
  ∀ id entry, s.cache.get? id = some entry →
    p entry.payload ∧ entry.etag = Definition.etag entry.payload ∧ id = Definition.id entry.payload

theorem holds_new (name : String) : (new name : PersistentSource α).Holds p := nofun

namespace Holds

theorem mono (h : s.Holds p) (hpq : ∀ a, p a → q a) : s.Holds q := fun id entry hget =>
  ⟨hpq _ (h id entry hget).1, (h id entry hget).2⟩

/-- Records are remembered as they are. -/
theorem remember (h : s.Holds p) {definitions : List α} {records : List (Record α)}
    (hrecords : records ⊆ definitions.map Record.of) (hp : ∀ a ∈ definitions, p a) :
    (s.remember records).Holds p := by
  intro id entry hget
  rw [PersistentSource.remember, Cache.get?_put, Option.or_eq_some_iff] at hget
  rcases hget with hput | ⟨-, hkept⟩
  · have hmem := List.mem_reverse.mp (Dict.mem_of_find? hput)
    obtain ⟨r, hr, heq⟩ := List.mem_map.mp hmem
    obtain ⟨a, ha, rfl⟩ := List.mem_map.mp (hrecords hr)
    cases heq
    exact ⟨hp a ha, rfl, rfl⟩
  · exact h id entry hkept

theorem evict (h : s.Holds p) (evicted : Uuid → CachedDefinition α → Bool) :
    (s.evict evicted).Holds p := by
  intro id entry hget
  have hfilter : (s.cache.evictWhere evicted).1.get? id = some entry := hget
  rw [Cache.get?_evictWhere, Option.filter_eq_some_iff] at hfilter
  exact h id entry hfilter.1

theorem of_probe (h : s.Holds p) (hprobe : s.probe id = some a) : p a ∧ Definition.id a = id := by
  obtain ⟨entry, hget, rfl⟩ := Option.map_eq_some_iff.mp hprobe
  obtain ⟨hp, -, hid⟩ := h id entry hget
  exact ⟨hp, hid.symm⟩

end Holds

end PersistentSource

/-! ## Calls -/

namespace PersistentSource

variable {s : PersistentSource α} {ids : List Uuid} {id : Uuid}

omit [Definition α] in
theorem nodup_missing (s : PersistentSource α) (ids : List Uuid) : (s.missing ids).Nodup :=
  Cache.nodup_firsts _ _

omit [Definition α] in
theorem mem_missing : id ∈ s.missing ids ↔ id ∈ ids ∧ s.probe id = none := by
  rw [missing, Cache.mem_firsts, List.mem_filter]
  simp

end PersistentSource

namespace Backed

variable {b b' : Backed α} {id : Uuid} {ids : List Uuid} {f : Filter α}

/-- A definition comes from the cache, or else from the store. -/
theorem find_cases (hshows : b.store.Shows now) (id : Uuid) :
    (∃ a, b.source.probe id = some a ∧ b.find id = (.ok (some a), b)) ∨
    (b.source.probe id = none ∧
      ((∃ e, b.store.get id = .error e ∧ b.find id = (.error e, b.ask (.get id))) ∨
        (now.get? id = none ∧ b.find id = (.ok none, b.ask (.get id))) ∨
        ∃ a, now.get? id = some a ∧
          b.find id = (.ok (some a), (b.ask (.get id)).remember [.of a]))) := by
  unfold find
  cases hprobe : b.source.probe id with
  | some a => exact .inl ⟨a, rfl, rfl⟩
  | none =>
    refine .inr ⟨rfl, ?_⟩
    simp only [ask]
    cases hget : b.store.get id with
    | error e => exact .inl ⟨e, rfl, rfl⟩
    | ok found =>
      have hfound := hshows.get hget
      cases hheld : now.get? id with
      | none =>
        rw [hheld] at hfound
        subst hfound
        exact .inr (.inl ⟨rfl, rfl⟩)
      | some a =>
        rw [hheld] at hfound
        subst hfound
        exact .inr (.inr ⟨a, rfl, rfl⟩)

/-- Definitions come from the cache, followed by those that the store has of the others. -/
theorem findMany_cases (hshows : b.store.Shows now) (ids : List Uuid) :
    (b.source.missing ids = [] ∧
      b.findMany ids = (.ok (ids.filterMap b.source.probe), b)) ∨
    (∃ e, b.store.getMany (b.source.missing ids) = .error e ∧
      b.findMany ids = (.error e, b.ask (.getMany (b.source.missing ids)))) ∨
    ∃ records, records.Perm ((now.among (b.source.missing ids)).map Record.of) ∧
      b.findMany ids = (.ok (ids.filterMap b.source.probe ++ records.map Record.payload),
        (b.ask (.getMany (b.source.missing ids))).remember records) := by
  have hdistinct := b.source.nodup_missing ids
  unfold findMany
  cases hmissing : b.source.missing ids with
  | nil => exact .inl ⟨rfl, rfl⟩
  | cons id rest =>
    rw [hmissing] at hdistinct
    simp only [ask]
    cases hget : b.store.getMany (id :: rest) with
    | error e => exact .inr (.inl ⟨e, rfl, rfl⟩)
    | ok records => exact .inr (.inr ⟨records, hshows.getMany hdistinct hget, rfl⟩)

omit [Definition α] in
/-- A selection comes from the store. -/
theorem query_cases (b : Backed α) (f : Filter α) :
    (∃ e, b.store.query f = .error e ∧ b.query f = (.error e, b.ask (.query f.expr?))) ∨
    ∃ records, b.store.query f = .ok records ∧
      b.query f = (.ok (records.map Record.payload),
        (b.ask (.query f.expr?)).remember records) := by
  unfold query
  simp only [ask]
  cases hquery : b.store.query f with
  | error e => exact .inl ⟨e, rfl, rfl⟩
  | ok records => exact .inr ⟨records, rfl, rfl⟩

theorem queryFirst_cases (b : Backed α) (f : Filter α) :
    (∃ entry, (b.source.cache.find? fun entry => Definition.matches f entry.payload) = some entry ∧
      b.queryFirst f = (.ok (some entry.payload), b)) ∨
    ((b.source.cache.find? fun entry => Definition.matches f entry.payload) = none ∧
      b.queryFirst f = ((b.query f).1.map List.head?, (b.query f).2)) := by
  unfold queryFirst
  cases b.source.cache.find? fun entry => Definition.matches f entry.payload with
  | some entry => exact .inl ⟨entry, rfl, rfl⟩
  | none => exact .inr ⟨rfl, rfl⟩

omit [Definition α] in
theorem refresh_cases (b : Backed α) :
    (∃ e, b.store.headers = .error e ∧ b.refresh = (.error e, b.ask .headers)) ∨
    ∃ listing, b.store.headers = .ok listing ∧
      b.refresh = (.ok (), { b.ask .headers with source := b.source.evictStale listing }) := by
  unfold refresh
  simp only [ask]
  cases b.store.headers with
  | error e => exact .inl ⟨e, rfl, rfl⟩
  | ok listing => exact .inr ⟨listing, rfl, rfl⟩

/-! ## One call after another -/

/-- A call, or the store failing or answering again while it holds the same definitions. -/
inductive Quiet (now : Holdings α) (b : Backed α) : Backed α → Prop
  | find (id : Uuid) : Quiet now b (b.find id).2
  | findMany (ids : List Uuid) : Quiet now b (b.findMany ids).2
  | query (f : Filter α) : Quiet now b (b.query f).2
  | queryFirst (f : Filter α) : Quiet now b (b.queryFirst f).2
  | refresh : Quiet now b b.refresh.2
  | clear : Quiet now b { b with source := b.source.clear }
  /-- Somebody subscribes to the announcements, or receives one. -/
  | listen (changes : Channel DataChanged) :
      Quiet now b { b with source := { b.source with changes } }
  | store {store : Store α} (hshows : store.Shows now) : Quiet now b { b with store }

/-- A call keeps a cache of definitions of some kind, if the store has only such. -/
theorem Quiet.holds (h : Quiet now b b') (hshows : b.store.Shows now) (hholds : b.source.Holds p)
    (hp : ∀ a ∈ now.definitions, p a) : b'.store.Shows now ∧ b'.source.Holds p := by
  have hquery : ∀ f, (b.query f).2.store.Shows now ∧ (b.query f).2.source.Holds p := by
    intro f
    rcases b.query_cases f with ⟨e, -, heq⟩ | ⟨records, hquery, heq⟩ <;> rw [heq]
    · exact ⟨hshows, hholds⟩
    · exact ⟨hshows, hholds.remember (hshows.query hquery).subset fun a ha =>
        hp a (Holdings.mem_matching.mp ha).1⟩
  cases h with
  | find id =>
    rcases find_cases hshows id with
      ⟨a, -, heq⟩ | ⟨-, ⟨e, -, heq⟩ | ⟨-, heq⟩ | ⟨a, hget, heq⟩⟩ <;> rw [heq]
    · exact ⟨hshows, hholds⟩
    · exact ⟨hshows, hholds⟩
    · exact ⟨hshows, hholds⟩
    · have hrecords : [Record.of a] ⊆ [a].map Record.of := List.Subset.refl _
      refine ⟨hshows, hholds.remember hrecords fun a' ha' => ?_⟩
      cases List.mem_singleton.mp ha'
      exact hp a (Holdings.get?_eq_some_iff.mp hget).1
  | findMany ids =>
    rcases findMany_cases hshows ids with ⟨-, heq⟩ | ⟨e, -, heq⟩ | ⟨records, hrecords, heq⟩ <;>
      rw [heq]
    · exact ⟨hshows, hholds⟩
    · exact ⟨hshows, hholds⟩
    · exact ⟨hshows, hholds.remember hrecords.subset fun a ha =>
        hp a (Holdings.mem_among.mp ha).1⟩
  | query f => exact hquery f
  | queryFirst f =>
    rcases queryFirst_cases b f with ⟨entry, -, heq⟩ | ⟨-, heq⟩ <;> rw [heq]
    · exact ⟨hshows, hholds⟩
    · exact hquery f
  | refresh =>
    rcases refresh_cases b with ⟨e, -, heq⟩ | ⟨listing, -, heq⟩ <;> rw [heq]
    · exact ⟨hshows, hholds⟩
    · exact ⟨hshows, hholds.evict _⟩
  | clear => exact ⟨hshows, hholds.evict _⟩
  | listen changes => exact ⟨hshows, hholds⟩
  | store hstore => exact ⟨hstore, hholds⟩

end Backed

end Signpost
