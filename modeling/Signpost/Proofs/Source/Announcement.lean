import Mathlib.Data.Set.Insert
import Signpost.Proofs.Source.Coherence

/-!
# Announced changes

A call of a persistent source can change what is cached in three ways.  A look-up adds what was
missing; a reconciliation evicts, and announces just what it evicts; and a selection remembers what
the store selects, also in place of what is cached, and announces nothing.  So a definition that
disappears has always been announced, but one that is replaced by another never has.  Whoever keeps
copies, and drops those that are announced, has outdated ones just where a selection has come in
between.

## Main definitions

* `Store.Keyed`: a store that gives what it is asked for by identifier.
* `Backed.Call`, `Backed.after`, `Backed.announced`: the calls, and what they announce.
* `Backed.selected`: what a call has the store select.
* `Backed.Listening`: runs with a listener that keeps copies.

## Main results

* `Backed.effect_after`: all that a call does to its source.
* `Backed.announces_iff`: what is announced has disappeared, and nothing else has.
* `Backed.Listening.outdated_only_if_renewed`: which copies are outdated.
* `Backed.selection_replaces_silently`
-/

namespace Signpost

variable {α : Type}

/-- A store gives records under the identifiers that it is asked for. -/
structure Store.Keyed (store : Store α) : Prop where
  get : ∀ {id r}, store.get id = .ok (some r) → r.id = id
  getMany : ∀ {ids records}, ids.Nodup → store.getMany ids = .ok records → ∀ r ∈ records, r.id ∈ ids

theorem Store.Shows.keyed [Definition α] {store : Store α} {now : Holdings α}
    (h : store.Shows now) : store.Keyed where
  get {id r} hget := by
    obtain ⟨a, ha, rfl⟩ := Option.map_eq_some_iff.mp (h.get hget).symm
    exact (Holdings.get?_eq_some_iff.mp ha).2
  getMany {ids records} hids hget r hr := by
    obtain ⟨a, ha, rfl⟩ := List.mem_map.mp ((h.getMany hids hget).mem_iff.mp hr)
    exact (Holdings.mem_among.mp ha).2

/-! ## The steps of a source -/

namespace PersistentSource

variable {s : PersistentSource α} {records : List (Record α)} {id : Uuid}

/-- The definition that an answer has for an identifier, the last one if there are several. -/
def fetched (records : List (Record α)) (id : Uuid) : Option α :=
  Dict.find? id (records.map fun r => (r.id, r.payload)).reverse

theorem exists_of_fetched {a : α} (h : fetched records id = some a) :
    ∃ r ∈ records, r.id = id ∧ r.payload = a := by
  have hmem := List.mem_reverse.mp (Dict.mem_of_find? h)
  obtain ⟨r, hr, heq⟩ := List.mem_map.mp hmem
  cases heq
  exact ⟨r, hr, rfl, rfl⟩

/-- What is cached after an answer has been remembered is in the answer, or was cached. -/
theorem probe_remember (s : PersistentSource α) (records : List (Record α)) (id : Uuid) :
    (s.remember records).probe id = (fetched records id).or (s.probe id) := by
  rw [probe, remember, Cache.get?_put, fetched, ← List.map_reverse, ← List.map_reverse]
  -- the last record counts, so the induction is over the records from the last one on
  induction records.reverse with
  | nil => rfl
  | cons r rest ih =>
    simp only [List.map_cons, Dict.find?]
    split
    · rfl
    · exact ih

theorem probe_remember_of_new (hnew : ∀ r ∈ records, s.probe r.id = none) {a : α}
    (hcached : s.probe id = some a) : (s.remember records).probe id = some a := by
  rw [probe_remember]
  cases hfetched : fetched records id with
  | none => exact hcached
  | some new =>
    obtain ⟨r, hr, rfl, -⟩ := exists_of_fetched hfetched
    exact nomatch (hnew r hr).symm.trans hcached

variable (p : Uuid → CachedDefinition α → Bool)

/-- What is evicted was cached, and is not any longer. -/
theorem mem_evicted_iff :
    id ∈ (s.cache.evictWhere p).2 ↔ (s.probe id).isSome = true ∧ (s.evict p).probe id = none := by
  have hkept : (s.evict p).cache.get? id = (s.cache.get? id).filter fun v => !p id v :=
    Cache.get?_evictWhere s.cache p id
  rw [Cache.mem_evictWhere, probe, probe, hkept]
  cases s.cache.get? id with
  | none => simp
  | some entry => cases hp : p id entry <;> simp [Option.filter, hp]

/-- What is not evicted stays as it is. -/
theorem probe_evict_eq_or (s : PersistentSource α) (id : Uuid) :
    (s.evict p).probe id = s.probe id ∨ (s.evict p).probe id = none := by
  have hkept : (s.evict p).cache.get? id = (s.cache.get? id).filter fun v => !p id v :=
    Cache.get?_evictWhere s.cache p id
  rw [probe, probe, hkept]
  cases s.cache.get? id with
  | none => exact .inl rfl
  | some entry => cases hp : p id entry <;> simp [Option.filter, hp]

end PersistentSource

/-! ## Calls and what they announce -/

namespace Backed

/-- A call of a source, or the order to forget everything. -/
inductive Call (α : Type) where
  | find (id : Uuid)
  | findMany (ids : List Uuid)
  | query (f : Filter α)
  | queryFirst (f : Filter α)
  | refresh
  | clear

variable [Definition α]

/-- The source and its store after a call. -/
def after (b : Backed α) : Call α → Backed α
  | .find id => (b.find id).2
  | .findMany ids => (b.findMany ids).2
  | .query f => (b.query f).2
  | .queryFirst f => (b.queryFirst f).2
  | .refresh => b.refresh.2
  | .clear => { b with source := b.source.clear }

/-- The announcements that a call makes. -/
def announced (b : Backed α) (c : Call α) : List DataChanged :=
  (b.after c).source.changes.sent.drop b.source.changes.sent.length

/-- A call announces an identifier in the name of its source. -/
def Announces (b : Backed α) (c : Call α) (id : Uuid) : Prop :=
  ∃ e ∈ b.announced c, e.source = b.source.name ∧ id ∈ e.ids

/-- The records that a call has the store select, none if the store fails. -/
def selected (b : Backed α) : Call α → List (Record α)
  | .query f => (b.store.query f).toOption.getD []
  | .queryFirst f =>
    match b.source.cache.find? fun entry => Definition.matches f entry.payload with
    | some _ => []
    | none => (b.store.query f).toOption.getD []
  | .find _ | .findMany _ | .refresh | .clear => []

/-- A call has the store select another definition than the one that is cached. -/
def Renews (b : Backed α) (c : Call α) (id : Uuid) : Prop :=
  ∃ old new, b.source.probe id = some old ∧
    PersistentSource.fetched (b.selected c) id = some new ∧ new ≠ old

/-- What a call does to its source. -/
inductive Effect (b : Backed α) (c : Call α) : PersistentSource α → Prop
  /-- It remembers definitions that were not cached. -/
  | filled {records : List (Record α)} (hselected : b.selected c = [])
      (hnew : ∀ r ∈ records, b.source.probe r.id = none) : Effect b c (b.source.remember records)
  /-- It remembers what the store selects. -/
  | selected : Effect b c (b.source.remember (b.selected c))
  | evicted (hselected : b.selected c = []) (p : Uuid → CachedDefinition α → Bool) :
      Effect b c (b.source.evict p)

variable {b : Backed α} {c : Call α} {id : Uuid} {a : α}

/-- Every call does one of these things. -/
theorem effect_after (hkeyed : b.store.Keyed) (c : Call α) :
    Effect b c (b.after c).source := by
  have hquery : ∀ f, (b.query f).2.source =
      b.source.remember ((b.store.query f).toOption.getD []) := by
    intro f
    simp only [query, ask]
    cases b.store.query f <;> rfl
  -- nothing has been remembered
  have hsame : b.selected c = [] → Effect b c b.source := fun h =>
    @Effect.filled _ _ b c [] h fun _ hr => (List.not_mem_nil hr).elim
  cases c with
  | find k =>
    simp only [after, find, ask]
    cases hprobe : b.source.probe k with
    | some a => exact hsame rfl
    | none =>
      cases hget : b.store.get k with
      | error e => exact hsame rfl
      | ok found =>
        cases found with
        | none => exact hsame rfl
        | some r =>
          -- the record is under the identifier that was not cached
          refine .filled rfl fun r' hr' => ?_
          rw [List.mem_singleton.mp hr', hkeyed.get hget, hprobe]
  | findMany ids =>
    simp only [after, findMany]
    cases hmissing : b.source.missing ids with
    | nil => exact hsame rfl
    | cons k rest =>
      simp only [ask]
      cases hget : b.store.getMany (k :: rest) with
      | error e => exact hsame rfl
      | ok records =>
        have hdistinct : (k :: rest).Nodup := hmissing ▸ b.source.nodup_missing ids
        -- so are the records that the store has of the missing identifiers
        refine .filled rfl fun r hr => ?_
        have hmem := hkeyed.getMany hdistinct hget r hr
        rw [← hmissing] at hmem
        exact (PersistentSource.mem_missing.mp hmem).2
  | query f =>
    show Effect b (.query f) (b.query f).2.source
    rw [hquery]
    exact .selected
  | queryFirst f =>
    rcases queryFirst_cases b f with ⟨entry, hfind, heq⟩ | ⟨hfind, heq⟩
    · have hselected : b.selected (.queryFirst f) = [] := by rw [selected, hfind]
      rw [after, heq]
      exact hsame hselected
    · have hselected : b.selected (.queryFirst f) = (b.store.query f).toOption.getD [] := by
        rw [selected, hfind]
      rw [after, heq, hquery, ← hselected]
      exact .selected
  | refresh =>
    rcases refresh_cases b with ⟨e, -, heq⟩ | ⟨listing, -, heq⟩ <;> rw [after, heq]
    · exact hsame rfl
    · exact .evicted rfl _
  | clear => exact .evicted rfl _

omit [Definition α] in
theorem drop_announce (changes : Channel DataChanged) (name : String) (ids : List Uuid) :
    (changes.announce name ids).sent.drop changes.sent.length =
      if ids = [] then [] else [⟨name, ids⟩] := by
  cases ids <;> simp [Channel.announce, Channel.send]

/-- A call that remembers announces nothing. -/
theorem announced_of_remember {records : List (Record α)}
    (h : (b.after c).source = b.source.remember records) : b.announced c = [] := by
  rw [announced, h]
  exact List.drop_length

theorem announced_of_evict {p : Uuid → CachedDefinition α → Bool}
    (h : (b.after c).source = b.source.evict p) :
    b.announced c = if (b.source.cache.evictWhere p).2 = [] then []
      else [⟨b.source.name, (b.source.cache.evictWhere p).2⟩] := by
  rw [announced, h]
  exact drop_announce _ _ _

/-- What is announced has disappeared, and nothing disappears that is not announced. -/
theorem announces_iff (hkeyed : b.store.Keyed) :
    b.Announces c id ↔
      (b.source.probe id).isSome = true ∧ (b.after c).source.probe id = none := by
  -- what is only remembered makes nothing disappear
  have hremember : ∀ records, (b.after c).source = b.source.remember records →
      (b.Announces c id ↔
        (b.source.probe id).isSome = true ∧ (b.after c).source.probe id = none) := by
    intro records heq
    rw [Announces, announced_of_remember heq, heq, PersistentSource.probe_remember]
    cases b.source.probe id <;> simp
  generalize hsource : (b.after c).source = s at hremember ⊢
  cases hsource ▸ effect_after hkeyed c with
  | filled _ _ | selected => exact hremember _ rfl
  | evicted _ p =>
    rw [Announces, announced_of_evict hsource, ← PersistentSource.mem_evicted_iff]
    split
    · next hnone => simp [hnone]
    · simp

/-- A call makes at most one announcement, which has every identifier once. -/
theorem announced_cases (hkeyed : b.store.Keyed) (c : Call α) :
    b.announced c = [] ∨ ∃ ids, ids.Nodup ∧ b.announced c = [⟨b.source.name, ids⟩] := by
  generalize hsource : (b.after c).source = s
  cases hsource ▸ effect_after hkeyed c with
  | filled _ _ | selected => exact .inl (announced_of_remember hsource)
  | evicted _ p =>
    rw [announced_of_evict hsource]
    split
    · exact .inl rfl
    · exact .inr ⟨_, b.source.cache.nodup_evictWhere p, rfl⟩

/-- What is selected is cached. -/
theorem probe_of_fetched (hkeyed : b.store.Keyed)
    (h : PersistentSource.fetched (b.selected c) id = some a) :
    (b.after c).source.probe id = some a := by
  generalize hsource : (b.after c).source = s
  cases hsource ▸ effect_after hkeyed c with
  | filled hselected _ | evicted hselected _ =>
    rw [hselected] at h
    cases h
  | selected => rw [PersistentSource.probe_remember, h, Option.some_or]

/-- What is cached stays as it is, unless it disappears or the store selects something else. -/
theorem probe_after_cases (hkeyed : b.store.Keyed) (c : Call α)
    (hcached : b.source.probe id = some a) :
    (b.after c).source.probe id = some a ∨ (b.after c).source.probe id = none ∨
      ∃ new, PersistentSource.fetched (b.selected c) id = some new ∧ new ≠ a ∧
        (b.after c).source.probe id = some new := by
  generalize hsource : (b.after c).source = s
  cases hsource ▸ effect_after hkeyed c with
  | filled _ hnew => exact .inl (PersistentSource.probe_remember_of_new hnew hcached)
  | selected =>
    rw [PersistentSource.probe_remember]
    cases hfetched : PersistentSource.fetched (b.selected c) id with
    | none => exact .inl hcached
    | some new =>
      by_cases hnew : new = a
      · exact .inl (congrArg some hnew)
      · exact .inr (.inr ⟨new, rfl, hnew, rfl⟩)
  | evicted _ p =>
    rcases PersistentSource.probe_evict_eq_or p b.source id with hsame | hgone
    · exact .inl (hsame.trans hcached)
    · exact .inr (.inl hgone)

/-! ## A listener -/

/-- Drops the copies of what has been announced. -/
def heed (events : List DataChanged) (copies : Dict Uuid α) : Dict Uuid α :=
  copies.filter fun id _ => !events.any fun e => e.ids.contains id

/-- A run of a source that began with nothing cached, with the copies of a listener who drops what
is announced, and the identifiers that have been renewed since they were copied. -/
inductive Listening : Backed α → Dict Uuid α → Set Uuid → Prop
  | start (name : String) {store : Store α} {asked : List StoreCall} (hkeyed : store.Keyed) :
      Listening ⟨.new name, store, asked⟩ .empty ∅
  | call {b : Backed α} {copies : Dict Uuid α} {renewed : Set Uuid}
      (h : Listening b copies renewed) (c : Call α) :
      Listening (b.after c) (heed (b.announced c) copies) (renewed ∪ {id | b.Renews c id})
  /-- The listener copies what is cached. -/
  | copy {b : Backed α} {copies : Dict Uuid α} {renewed : Set Uuid} {id : Uuid} {a : α}
      (h : Listening b copies renewed) (hcached : b.source.probe id = some a) :
      Listening b (copies.put id a) (renewed \ {id})
  /-- The store is written, or fails, or answers again. -/
  | write {b : Backed α} {copies : Dict Uuid α} {renewed : Set Uuid} {store : Store α}
      (h : Listening b copies renewed) (hkeyed : store.Keyed) :
      Listening { b with store } copies renewed

variable {copies : Dict Uuid α} {renewed : Set Uuid}

theorem store_after (b : Backed α) (c : Call α) : (b.after c).store = b.store := by
  have hquery : ∀ f, (b.query f).2.store = b.store := by
    intro f
    simp only [query, ask]
    cases b.store.query f <;> rfl
  cases c with
  | find id =>
    simp only [after, find, ask]
    split
    · rfl
    · split <;> rfl
  | findMany ids =>
    simp only [after, findMany, ask]
    split
    · rfl
    · split <;> rfl
  | query f => exact hquery f
  | queryFirst f =>
    rcases queryFirst_cases b f with ⟨entry, -, heq⟩ | ⟨-, heq⟩ <;> rw [after, heq]
    exact hquery f
  | refresh =>
    rcases refresh_cases b with ⟨e, -, heq⟩ | ⟨listing, -, heq⟩ <;> rw [after, heq] <;> rfl
  | clear => rfl

theorem Listening.keyed (h : Listening b copies renewed) : b.store.Keyed := by
  induction h with
  | start _ hkeyed | write _ hkeyed => exact hkeyed
  | call _ c ih => exact (store_after _ c).symm ▸ ih
  | copy _ _ ih => exact ih

/-- The copies that are kept are those that have not been announced. -/
theorem get?_heed_eq_some_iff (hkeyed : b.store.Keyed) :
    (heed (b.announced c) copies).get? id = some a ↔
      copies.get? id = some a ∧ ¬b.Announces c id := by
  have hany : ((b.announced c).any fun e => e.ids.contains id) = true ↔ b.Announces c id := by
    rcases announced_cases hkeyed c with hnone | ⟨ids, -, hone⟩
    · simp [Announces, hnone]
    · simp [Announces, hone]
  rw [heed, Dict.get?_filter, Option.filter_eq_some_iff, ← hany]
  simp

/-- A copy is of what is cached, or its definition has been renewed since, but not lost. -/
theorem Listening.cached_or_renewed (h : Listening b copies renewed)
    (hcopy : copies.get? id = some a) :
    b.source.probe id = some a ∨ id ∈ renewed ∧ (b.source.probe id).isSome = true := by
  induction h generalizing a with
  | start => cases hcopy
  | @call b copies renewed h c ih =>
    obtain ⟨hkept, hquiet⟩ := (get?_heed_eq_some_iff h.keyed).mp hcopy
    -- what has not been announced has not disappeared
    have hstays : (b.source.probe id).isSome = true →
        ((b.after c).source.probe id).isSome = true := fun hsome =>
      Option.isSome_iff_ne_none.mpr fun hnone => hquiet ((announces_iff h.keyed).mpr ⟨hsome, hnone⟩)
    rcases ih hkept with hcached | ⟨hrenewed, hsome⟩
    · have hsome := hstays (hcached ▸ rfl)
      rcases probe_after_cases h.keyed c hcached with hsame | hgone | ⟨new, hfetched, hnew, -⟩
      · exact .inl hsame
      · rw [hgone] at hsome
        cases hsome
      · exact .inr ⟨.inr ⟨a, new, hcached, hfetched, hnew⟩, hsome⟩
    · exact .inr ⟨.inl hrenewed, hstays hsome⟩
  | @copy b copies renewed k a' h hcached ih =>
    rw [Dict.get?_put] at hcopy
    split at hcopy
    · next hk =>
      cases hcopy
      exact .inl (hk ▸ hcached)
    -- a copy of another definition is what it was
    · next hk =>
      exact (ih hcopy).imp_right fun hrenewed => ⟨⟨hrenewed.1, hk⟩, hrenewed.2⟩
  | write _ _ ih => exact ih hcopy

/-- **Copies are outdated only where a selection has renewed what is cached.**  Whatever is called
and however the store is written in between, a call announces just the identifiers that it makes
disappear from the cache; it replaces a cached definition by another only if it has the store select
the other one, and does not announce this; and whatever a listener who drops what is announced has
copied is still cached, and a look-up gives just the copy unless it has been renewed in this way. -/
theorem Listening.outdated_only_if_renewed (h : Listening b copies renewed) :
    (∀ c id, b.Announces c id ↔
      (b.source.probe id).isSome = true ∧ (b.after c).source.probe id = none) ∧
    (∀ c id a a', b.source.probe id = some a → (b.after c).source.probe id = some a' → a' ≠ a →
      ¬b.Announces c id ∧ PersistentSource.fetched (b.selected c) id = some a') ∧
    (∀ c id a, PersistentSource.fetched (b.selected c) id = some a →
      (b.after c).source.probe id = some a) ∧
    ∀ id a, copies.get? id = some a →
      ∃ a', b.find id = (.ok (some a'), b) ∧ (id ∉ renewed → a' = a) := by
  refine ⟨fun c id => announces_iff h.keyed, fun c id a a' hcached hafter hne => ⟨?_, ?_⟩,
    fun c id a => probe_of_fetched h.keyed, fun id a hcopy => ?_⟩
  · rw [announces_iff h.keyed, hafter]
    simp
  · rcases probe_after_cases h.keyed c hcached with hsame | hgone | ⟨new, hfetched, -, hnew⟩
    · exact absurd (Option.some.inj (hafter.symm.trans hsame)) hne
    · exact nomatch hafter.symm.trans hgone
    · rwa [← hafter.symm.trans hnew] at hfetched
  · rcases h.cached_or_renewed hcopy with hcached | ⟨hrenewed, hsome⟩
    · exact ⟨a, by rw [find, hcached], fun _ => rfl⟩
    · obtain ⟨a', hcached⟩ := Option.isSome_iff_exists.mp hsome
      exact ⟨a', by rw [find, hcached], fun hkept => absurd hrenewed hkept⟩

/-! ## An edited signal -/

/-- A listener has copied the signal before it was edited. -/
theorem listening_withEdited :
    ∃ renewed, Listening withEdited (Dict.empty.put (.ofNat 1) opened) renewed := by
  have hstart : Listening (⟨.new "durable", beforeEdit.store, []⟩ : Backed Signal) .empty ∅ :=
    .start "durable" (RecordTable.shows tagged_beforeEdit).keyed
  have hfound := hstart.call (.find (.ofNat 1))
  have hcached : ((⟨.new "durable", beforeEdit.store, []⟩ : Backed Signal).after
      (.find (.ofNat 1))).source.probe (.ofNat 1) = some opened := rfl
  exact ⟨_, (hfound.copy hcached).write (RecordTable.shows tagged_afterEdit).keyed⟩

/-- A reconciliation announces the edited signal, and a listing does not. -/
theorem outdated_only_if_renewed_edited :
    withEdited.Announces .refresh (.ofNat 1) ∧ ¬withEdited.Announces (.query .all) (.ofNat 1) := by
  obtain ⟨renewed, hrun⟩ := listening_withEdited
  obtain ⟨hannounces, hreplaces, -, -⟩ := hrun.outdated_only_if_renewed
  refine ⟨(hannounces .refresh (.ofNat 1)).mpr ⟨rfl, by decide +kernel⟩, ?_⟩
  exact (hreplaces (.query .all) (.ofNat 1) opened reopened rfl
    (by decide +kernel) (by decide)).1

/-- **A definition can be replaced silently**: a listing puts the edited signal into the place of
the one that is cached, and neither this nor the reconciliation after it announces anything. -/
theorem selection_replaces_silently :
    ∃ (b : Backed Signal) (copies : Dict Uuid Signal) (renewed : Set Uuid),
      Listening b copies renewed ∧
      b.source.probe (.ofNat 1) = some opened ∧
      (b.after (.query .all)).source.probe (.ofNat 1) = some reopened ∧
      b.announced (.query .all) = [] ∧ (b.after (.query .all)).announced .refresh = [] ∧
      copies.get? (.ofNat 1) = some opened := by
  obtain ⟨renewed, hrun⟩ := listening_withEdited
  refine ⟨withEdited, _, renewed, hrun, rfl, ?_, rfl, ?_, rfl⟩
  · decide +kernel
  · decide +kernel

end Backed

end Signpost
