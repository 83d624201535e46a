import Signpost.Proofs.Source.Persistent
import Signpost.Source.Memory

/-!
# Bulk look-ups

A source in memory gives every definition that is asked for once, however often it is asked for.
So does the store behind a persistent source, and the persistent source asks it for every missing
identifier once; but what is cached is given as often as it is asked for.  The two sources agree
just on the requests that ask for no cached definition twice.

## Main results

* `MemorySource.perm_among`: what a source in memory answers.
* `Backed.findMany_perm_among_iff`: when a persistent source answers the same.
* `Backed.findMany_depends_on_cache`: how often a persistent source gives a definition.
* `Backed.cached_twice_comes_twice`
-/

namespace Signpost

variable {α : Type} [Definition α] {now : Holdings α} {id : Uuid} {ids : List Uuid} {found : List α}

/-! ## In memory -/

theorem MemorySource.get?_ofList (now : Holdings α) (name : String) (id : Uuid) :
    (ofList name now.definitions).cache.get? id = now.get? id := by
  have hdistinct : ((items now.definitions).map Prod.fst).Nodup := by
    rw [items, List.map_map]
    exact now.distinct
  ext a
  rw [ofList, Cache.ofList, Cache.get?_put, Cache.get?, Cache.empty, Dict.get?_empty,
    Option.or_none, Dict.find?_reverse_eq_some_iff hdistinct, Holdings.get?_eq_some_iff, items,
    List.mem_map]
  constructor
  · rintro ⟨b, hb, heq⟩
    cases heq
    exact ⟨hb, rfl⟩
  · rintro ⟨ha, rfl⟩
    exact ⟨a, ha, rfl⟩

/-- A source in memory gives every known definition that is asked for once. -/
theorem MemorySource.perm_among (now : Holdings α) (name : String) (ids : List Uuid) :
    ((ofList name now.definitions).cache.getMany ids).Perm (now.among ids) := by
  rw [Cache.getMany, funext (get?_ofList now name),
    ← now.among_congr fun id => Cache.mem_firsts.trans (and_iff_left List.not_mem_nil)]
  exact now.perm_filterMap_get? (Cache.nodup_firsts [] ids)

/-! ## In front of a store -/

theorem PersistentSource.Holds.map_id_filterMap_probe {s : PersistentSource α} {p : α → Prop}
    (h : s.Holds p) (ids : List Uuid) :
    (ids.filterMap s.probe).map Definition.id = ids.filter fun id => (s.probe id).isSome := by
  induction ids with
  | nil => rfl
  | cons id rest ih =>
    cases hprobe : s.probe id with
    | none => simp [hprobe, ih]
    | some a => simp [hprobe, ih, (h.of_probe hprobe).2]

namespace Backed

variable {b : Backed α}

/-- A bulk look-up that succeeds gives what is cached, and of the rest what is held. -/
theorem perm_of_findMany (hshows : b.store.Shows now) (h : (b.findMany ids).1 = .ok found) :
    found.Perm (ids.filterMap b.source.probe ++ now.among (b.source.missing ids)) := by
  rcases findMany_cases hshows ids with
    ⟨hmissing, heq⟩ | ⟨e, -, heq⟩ | ⟨records, hrecords, heq⟩ <;> rw [heq] at h <;> cases h
  · rw [hmissing, Holdings.among]
    simp
  · refine List.Perm.append_left _ ((hrecords.map Record.payload).trans ?_)
    rw [Record.map_payload_map_of]

/-- What a bulk look-up gives is held. -/
theorem mem_of_mem_findMany (hshows : b.store.Shows now)
    (hholds : b.source.Holds (· ∈ now.definitions)) (h : (b.findMany ids).1 = .ok found) :
    ∀ a ∈ found, a ∈ now.definitions := by
  intro a ha
  rcases List.mem_append.mp ((perm_of_findMany hshows h).mem_iff.mp ha) with hcached | hfetched
  · obtain ⟨id, -, hprobe⟩ := List.mem_filterMap.mp hcached
    exact (hholds.of_probe hprobe).1
  · exact (Holdings.mem_among.mp hfetched).1

/-- A cached definition is given as often as it is asked for, and any other known one once. -/
theorem count_findMany (hshows : b.store.Shows now)
    (hholds : b.source.Holds (· ∈ now.definitions)) (h : (b.findMany ids).1 = .ok found)
    (id : Uuid) :
    (found.map Definition.id).count id =
      if (b.source.probe id).isSome = true then ids.count id
      else if id ∈ ids ∧ (now.get? id).isSome = true then 1 else 0 := by
  rw [((perm_of_findMany hshows h).map Definition.id).count_eq, List.map_append, List.count_append,
    hholds.map_id_filterMap_probe, Holdings.count_map_id_among]
  simp only [PersistentSource.mem_missing]
  cases hprobe : b.source.probe id with
  | none =>
    have hnone : id ∉ ids.filter fun id => (b.source.probe id).isSome := by simp [hprobe]
    simp [List.count_eq_zero.mpr hnone]
  | some a =>
    rw [List.count_filter (by simp [hprobe])]
    simp

/-- A bulk look-up gives the known definitions once just if no cached one is asked for twice. -/
theorem findMany_perm_among_iff (hshows : b.store.Shows now)
    (hholds : b.source.Holds (· ∈ now.definitions)) (h : (b.findMany ids).1 = .ok found) :
    found.Perm (now.among ids) ↔
      ∀ id, (b.source.probe id).isSome = true → ids.count id ≤ 1 := by
  have hcount := count_findMany hshows hholds h
  constructor
  · intro hperm id hcached
    have honce := (hperm.map Definition.id).count_eq id
    rw [hcount, if_pos hcached, Holdings.count_map_id_among] at honce
    split at honce <;> omega
  -- both are definitions that are held, so it is enough to count identifiers
  · intro honce
    refine now.perm_of_map_id (mem_of_mem_findMany hshows hholds h)
      (fun a ha => (Holdings.mem_among.mp ha).1) (List.perm_iff_count.mpr fun id => ?_)
    rw [hcount, Holdings.count_map_id_among]
    split
    · next hcached =>
      obtain ⟨a, hprobe⟩ := Option.isSome_iff_exists.mp hcached
      obtain ⟨ha, hid⟩ := hholds.of_probe hprobe
      have hknown : (now.get? id).isSome = true := by rw [← hid, Holdings.get?_id ha]; rfl
      have hle := honce id hcached
      by_cases hmem : id ∈ ids
      · have hpos := List.count_pos_iff.mpr hmem
        rw [if_pos ⟨hmem, hknown⟩]
        omega
      · rw [if_neg fun h => hmem h.1, List.count_eq_zero.mpr hmem]
    · rfl

/-- **What a bulk look-up gives depends on what is cached.**  The cache and the store agreeing, a
look-up that succeeds gives definitions that are held: every cached one as often as it is asked
for, and every other one once, whatever the order of the request and whatever else is in it.  That
is what a source in memory with the same definitions gives just if the request asks for no cached
definition twice. -/
theorem findMany_depends_on_cache (hshows : b.store.Shows now)
    (hholds : b.source.Holds (· ∈ now.definitions)) (h : (b.findMany ids).1 = .ok found) :
    (∀ a ∈ found, a ∈ now.definitions) ∧
    (∀ id, (found.map Definition.id).count id =
      if (b.source.probe id).isSome = true then ids.count id
      else if id ∈ ids ∧ (now.get? id).isSome = true then 1 else 0) ∧
    ∀ name, ∃ answer,
      (Source.findMany ids (MemorySource.ofList name now.definitions)).course.result = .ok answer ∧
      (∀ id, (answer.map Definition.id).count id =
        if id ∈ ids ∧ (now.get? id).isSome = true then 1 else 0) ∧
      (found.Perm answer ↔ ∀ id, (b.source.probe id).isSome = true → ids.count id ≤ 1) := by
  refine ⟨mem_of_mem_findMany hshows hholds h, count_findMany hshows hholds h, fun name => ?_⟩
  have hmemory := MemorySource.perm_among now name ids
  refine ⟨_, rfl, fun id => ?_, ?_⟩
  · rw [(hmemory.map Definition.id).count_eq, Holdings.count_map_id_among]
  · rw [← findMany_perm_among_iff hshows hholds h]
    exact ⟨fun hperm => hperm.trans hmemory, fun hperm => hperm.trans hmemory.symm⟩

/-! ## Two signals -/

/-- A table of two signals. -/
def twoSignals : RecordTable Signal :=
  (RecordTable.empty.put ⟨.ofNat 1, "opened"⟩).put ⟨.ofNat 2, "closed"⟩

theorem tagged_twoSignals : twoSignals.Tagged := (RecordTable.tagged_empty.put _).put _

/-- A source in front of the two signals that has found the first of them. -/
def withFirstSignal : Backed Signal :=
  ((⟨.new "durable", twoSignals.store, []⟩ : Backed Signal).find (.ofNat 1)).2

theorem holds_withFirstSignal :
    withFirstSignal.store.Shows (twoSignals.holdings tagged_twoSignals) ∧
      withFirstSignal.source.Holds (· ∈ (twoSignals.holdings tagged_twoSignals).definitions) :=
  (Quiet.find (.ofNat 1)).holds (RecordTable.shows tagged_twoSignals)
    (PersistentSource.holds_new "durable") fun _ ha => ha

/-- A request for both signals and an unknown one. -/
def eachTwice : List Uuid := [.ofNat 2, .ofNat 1, .ofNat 3, .ofNat 2, .ofNat 1]

/-- Both signals are asked for twice, and the one that is cached comes twice. -/
theorem findMany_depends_on_cache_eachTwice :
    ∃ found, (withFirstSignal.findMany eachTwice).1 = .ok found ∧
      (found.map Definition.id).count (.ofNat 1) = 2 ∧
      (found.map Definition.id).count (.ofNat 2) = 1 ∧
      (found.map Definition.id).count (.ofNat 3) = 0 := by
  obtain ⟨hshows, hholds⟩ := holds_withFirstSignal
  have hfound : (withFirstSignal.findMany eachTwice).1 = .ok _ := rfl
  obtain ⟨-, hcount, -⟩ := findMany_depends_on_cache hshows hholds hfound
  exact ⟨_, rfl, hcount (.ofNat 1), hcount (.ofNat 2), hcount (.ofNat 3)⟩

/-- **A cached definition that is asked for twice comes twice**, though a source in memory gives it
once. -/
theorem cached_twice_comes_twice :
    ∃ now : Holdings Signal, withFirstSignal.store.Shows now ∧
      withFirstSignal.source.Holds (· ∈ now.definitions) ∧
      ∃ found answer, (withFirstSignal.findMany [.ofNat 1, .ofNat 1]).1 = .ok found ∧
        (Source.findMany [.ofNat 1, .ofNat 1]
          (MemorySource.ofList "memory" now.definitions)).course.result = .ok answer ∧
        found.map Signal.name = ["opened", "opened"] ∧ answer.map Signal.name = ["opened"] := by
  obtain ⟨hshows, hholds⟩ := holds_withFirstSignal
  exact ⟨_, hshows, hholds, _, _, rfl, rfl, rfl, rfl⟩

end Backed

end Signpost
