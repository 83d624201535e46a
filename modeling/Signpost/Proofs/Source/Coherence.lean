import Mathlib.Data.Set.Function
import Mathlib.Logic.Relation
import Signpost.Proofs.Source.Bulk

/-!
# Coherence of a persistent source

A cached definition was in the store when it was fetched, and is cached with the tag of just this
definition, whichever call fetched it.  So the tags that the store lists tell which entries are
outdated, if no two definitions that the store has held have one tag; and after they have been
evicted every answer is as good as the store's, until the store is written again.

## Main definitions

* `Holdings.Ever`: the definitions that were held at some time.
* `Backed.Serving`: runs of calls and of writes to the store.
* `Backed.AnswersFrom`: what a source answers, if it answers.

## Main results

* `PersistentSource.Holds.evictStale`: what a reconciliation leaves is what the store holds.
* `Backed.Serving.holds`: what is cached was held.
* `Backed.answersFrom`: a source that caches only what the store holds answers from it.
* `Backed.Serving.reconciled`
-/

namespace Signpost

/-- The definitions that were held at some time. -/
def Holdings.Ever {α : Type} [Definition α] (history : List (Holdings α)) (a : α) : Prop :=
  ∃ h ∈ history, a ∈ h.definitions

variable {α : Type} [Definition α] {p : α → Prop} {now next : Holdings α}
  {past : List (Holdings α)}

/-! ## Reconciliation -/

namespace PersistentSource

variable {s : PersistentSource α} {id : Uuid}

/-- The tag that a listing of holdings gives an identifier is that of the definition held. -/
theorem listedTag_eq_some_iff {listing : List Header} {tag : ETag}
    (hlisting : listing.Perm (now.definitions.map fun a => (Record.of a).header)) :
    listedTag listing id = some tag ↔
      ∃ a ∈ now.definitions, Definition.id a = id ∧ Definition.etag a = tag := by
  have hentries : (listing.map fun h => (h.id, h.etag)).Perm
      (now.definitions.map fun a => (Definition.id a, Definition.etag a)) :=
    (hlisting.map _).trans (.of_eq (List.map_map ..))
  have hdistinct : ((listing.map fun h => (h.id, h.etag)).map Prod.fst).Nodup := by
    refine (hentries.map Prod.fst).nodup_iff.mpr ?_
    rw [List.map_map]
    exact now.distinct
  rw [listedTag, Dict.get?_ofList_eq_some_iff hdistinct, hentries.mem_iff, List.mem_map]
  simp only [Prod.mk.injEq]

/-- **What a reconciliation leaves is what the store holds**, if tags tell the definitions that are
cached from those that are held. -/
theorem Holds.evictStale (h : s.Holds p) {listing : List Header}
    (hlisting : listing.Perm (now.definitions.map fun a => (Record.of a).header))
    (htags : ∀ a, p a → ∀ b ∈ now.definitions, Definition.etag b = Definition.etag a → b = a) :
    (s.evictStale listing).Holds (· ∈ now.definitions) := by
  intro id entry hget
  have hfilter : (s.cache.evictWhere fun id entry =>
      decide (listedTag listing id ≠ some entry.etag)).1.get? id = some entry := hget
  rw [Cache.get?_evictWhere, Option.filter_eq_some_iff] at hfilter
  obtain ⟨hcached, hkept⟩ := hfilter
  obtain ⟨hp, htag, hid⟩ := h id entry hcached
  have hlisted : listedTag listing id = some entry.etag := by simpa using hkept
  obtain ⟨b, hb, -, hsame⟩ := (listedTag_eq_some_iff hlisting).mp hlisted
  -- the definition that is listed has the tag of the one that is cached, so they are the same
  rw [htag] at hsame
  rw [← htags _ hp b hb hsame] at htag hid ⊢
  exact ⟨hb, htag, hid⟩

end PersistentSource

namespace Backed

variable {b b' : Backed α} {f : Filter α}

/-! ## Runs -/

/-- A run of a source that began with nothing cached, with what its store holds and has held, the
last one first. -/
inductive Serving : Backed α → List (Holdings α) → Prop
  | start (name : String) {store : Store α} {asked : List StoreCall} {now : Holdings α}
      (hshows : store.Shows now) : Serving ⟨.new name, store, asked⟩ [now]
  | quiet {b b' : Backed α} {now : Holdings α} {past : List (Holdings α)}
      (h : Serving b (now :: past)) (hquiet : Quiet now b b') : Serving b' (now :: past)
  /-- The store is written. -/
  | write {b : Backed α} {store : Store α} {now next : Holdings α} {past : List (Holdings α)}
      (h : Serving b (now :: past)) (hshows : store.Shows next) :
      Serving { b with store } (next :: now :: past)

/-- **What is cached was held**, in every run. -/
theorem Serving.holds (h : Serving b (now :: past)) :
    b.store.Shows now ∧ b.source.Holds (Holdings.Ever (now :: past)) := by
  generalize hhistory : now :: past = history at h
  induction h generalizing now past with
  | start name hshows =>
    cases hhistory
    exact ⟨hshows, PersistentSource.holds_new name⟩
  | quiet h hquiet ih =>
    cases hhistory
    obtain ⟨hshows, hholds⟩ := ih rfl
    exact hquiet.holds hshows hholds fun a ha => ⟨_, List.mem_cons_self, ha⟩
  | write h hshows ih =>
    cases hhistory
    -- what is cached stays as it is, and was held before the write
    obtain ⟨-, hholds⟩ := ih rfl
    refine ⟨hshows, hholds.mono ?_⟩
    rintro a ⟨g, hg, ha⟩
    exact ⟨g, List.mem_cons_of_mem _ hg, ha⟩

/-! ## Answers -/

/-- A call gives what it should, or fails as the store does when it is asked. -/
def Delivers {β γ : Type} (result : Except Failure β) (asked : Except Failure γ) (p : β → Prop) :
    Prop :=
  (∃ found, result = .ok found ∧ p found) ∨ ∃ e, asked = .error e ∧ result = .error e

/-- A source answers from what is held: each call gives just the definitions asked for, unless the
store fails.  By a filter it gives none that does not match, and all that match if the store selects
them all. -/
structure AnswersFrom (b : Backed α) (now : Holdings α) : Prop where
  find : ∀ id, Delivers (b.find id).1 (b.store.get id) (· = now.get? id)
  findMany : ∀ ids, ids.Nodup → Delivers (b.findMany ids).1
    (b.store.getMany (b.source.missing ids)) fun found => found.Perm (now.among ids)
  query : ∀ f, Delivers (b.query f).1 (b.store.query f) fun found =>
    found.Subperm (now.matching f) ∧ (b.store.SelectsAll now f → found.Perm (now.matching f))
  queryFirst : ∀ f, Delivers (b.queryFirst f).1 (b.store.query f) fun found =>
    (∀ a, found = some a → a ∈ now.definitions ∧ Definition.matches f a = true) ∧
      (b.store.SelectsAll now f →
        (found.isSome = true ↔ ∃ a ∈ now.definitions, Definition.matches f a = true))
  all : Delivers (Source.all b).course.result (b.store.query .all)
    fun found => found.Perm now.definitions

theorem delivers_find (hshows : b.store.Shows now) (hholds : b.source.Holds (· ∈ now.definitions))
    (id : Uuid) : Delivers (b.find id).1 (b.store.get id) (· = now.get? id) := by
  rcases find_cases hshows id with
    ⟨a, hprobe, heq⟩ | ⟨-, ⟨e, hget, heq⟩ | ⟨hnone, heq⟩ | ⟨a, hget, heq⟩⟩ <;> rw [heq]
  · exact .inl ⟨_, rfl, (Holdings.get?_eq_some_iff.mpr (hholds.of_probe hprobe)).symm⟩
  · exact .inr ⟨e, hget, rfl⟩
  · exact .inl ⟨_, rfl, hnone.symm⟩
  · exact .inl ⟨_, rfl, hget.symm⟩

theorem delivers_findMany (hshows : b.store.Shows now)
    (hholds : b.source.Holds (· ∈ now.definitions)) {ids : List Uuid} (hids : ids.Nodup) :
    Delivers (b.findMany ids).1 (b.store.getMany (b.source.missing ids))
      fun found => found.Perm (now.among ids) := by
  have hperm : ∀ {found}, (b.findMany ids).1 = .ok found → found.Perm (now.among ids) :=
    fun h => (findMany_perm_among_iff hshows hholds h).mpr fun id _ =>
      List.nodup_iff_count_le_one.mp hids id
  rcases findMany_cases hshows ids with ⟨-, heq⟩ | ⟨e, hget, heq⟩ | ⟨records, -, heq⟩ <;>
    rw [heq] at hperm ⊢
  · exact .inl ⟨_, rfl, hperm rfl⟩
  · exact .inr ⟨e, hget, rfl⟩
  · exact .inl ⟨_, rfl, hperm rfl⟩

theorem delivers_query (hshows : b.store.Shows now) (f : Filter α) :
    Delivers (b.query f).1 (b.store.query f) fun found =>
      found.Subperm (now.matching f) ∧
        (b.store.SelectsAll now f → found.Perm (now.matching f)) := by
  have hsame := Record.map_payload_map_of (now.matching f)
  rcases b.query_cases f with ⟨e, hquery, heq⟩ | ⟨records, hquery, heq⟩ <;> rw [heq]
  · exact .inr ⟨e, hquery, rfl⟩
  · refine .inl ⟨_, rfl, ?_, fun hall => ?_⟩
    · obtain ⟨selected, hperm, hsublist⟩ := hshows.query hquery
      exact hsame ▸ ⟨_, hperm.map Record.payload, hsublist.map Record.payload⟩
    · exact hsame ▸ (hall records hquery).map Record.payload

theorem delivers_queryFirst (hshows : b.store.Shows now)
    (hholds : b.source.Holds (· ∈ now.definitions)) (f : Filter α) :
    Delivers (b.queryFirst f).1 (b.store.query f) fun found =>
      (∀ a, found = some a → a ∈ now.definitions ∧ Definition.matches f a = true) ∧
        (b.store.SelectsAll now f →
          (found.isSome = true ↔ ∃ a ∈ now.definitions, Definition.matches f a = true)) := by
  rcases queryFirst_cases b f with ⟨entry, hfind, heq⟩ | ⟨-, heq⟩ <;> rw [heq]
  -- a cached definition is selected
  · obtain ⟨id, hget⟩ := (b.source.cache.mem_values_iff entry).mp (List.mem_of_find?_eq_some hfind)
    have hheld := (hholds id entry hget).1
    have hselected := List.find?_some hfind
    refine .inl ⟨_, rfl, ?_, fun _ => ⟨fun _ => ⟨_, hheld, hselected⟩, fun _ => rfl⟩⟩
    rintro a ⟨⟩
    exact ⟨hheld, hselected⟩
  -- the first of those that the store selects, if there is one
  · rcases delivers_query hshows f with ⟨found, hfound, hsub, hperm⟩ | ⟨e, hquery, herror⟩
    · have hfirst : ∀ a, found.head? = some a →
          a ∈ now.definitions ∧ Definition.matches f a = true :=
        fun a ha => Holdings.mem_matching.mp (hsub.subset (List.mem_of_head? ha))
      rw [hfound]
      refine .inl ⟨_, rfl, hfirst, fun hall => ⟨fun hsome => ?_, ?_⟩⟩
      · obtain ⟨a, ha⟩ := Option.isSome_iff_exists.mp hsome
        exact ⟨a, hfirst a ha⟩
      · rintro ⟨a, ha⟩
        have hmem : a ∈ found := (hperm hall).mem_iff.mpr (Holdings.mem_matching.mpr ha)
        exact List.isSome_head?.mpr (List.ne_nil_of_mem hmem)
    · rw [herror]
      exact .inr ⟨e, hquery, rfl⟩

/-- **A source that caches only what is held answers from what is held**. -/
theorem answersFrom (hshows : b.store.Shows now)
    (hholds : b.source.Holds (· ∈ now.definitions)) : b.AnswersFrom now where
  find := delivers_find hshows hholds
  findMany _ := delivers_findMany hshows hholds
  query := delivers_query hshows
  queryFirst := delivers_queryFirst hshows hholds
  all := by
    rcases delivers_query hshows .all with ⟨found, hfound, -, hperm⟩ | herror
    · exact .inl ⟨found, hfound, now.matching_all ▸ hperm hshows.all⟩
    · exact .inr herror

/-- **Reconciliation restores coherence.**  After a reconciliation that succeeds in whatever run,
whatever is cached then, the source answers from what the store holds through every further call
and every failure of the store, until the store is written; if no two definitions that the store
has held have one tag. -/
theorem Serving.reconciled (h : Serving b (now :: past))
    (htags : Set.InjOn Definition.etag {a | Holdings.Ever (now :: past) a})
    (hrefresh : b.refresh.1 = .ok ()) (hquiet : Relation.ReflTransGen (Quiet now) b.refresh.2 b') :
    b'.AnswersFrom now := by
  suffices hcoherent : b'.store.Shows now ∧ b'.source.Holds (· ∈ now.definitions) from
    answersFrom hcoherent.1 hcoherent.2
  obtain ⟨hshows, hholds⟩ := h.holds
  -- the reconciliation leaves nothing but what is held, and every quiet call keeps to that
  induction hquiet with
  | refl =>
    rcases refresh_cases b with ⟨e, -, heq⟩ | ⟨listing, hlisting, heq⟩ <;> rw [heq] at hrefresh ⊢
    · cases hrefresh
    · refine ⟨hshows, hholds.evictStale (hshows.headers hlisting) fun a ha c hc heq => ?_⟩
      exact htags ⟨now, List.mem_cons_self, hc⟩ ha heq
  | tail _ hnext ih => exact hnext.holds ih.1 ih.2 fun _ ha => ha

/-! ## An edited signal -/

/-- A signal, and what it is renamed to. -/
def opened : Signal := ⟨.ofNat 1, "opened"⟩

@[inherit_doc opened]
def reopened : Signal := ⟨.ofNat 1, "reopened"⟩

/-- The table before the edit. -/
def beforeEdit : RecordTable Signal := RecordTable.empty.put opened

/-- The table after the edit. -/
def afterEdit : RecordTable Signal := beforeEdit.put reopened

theorem tagged_beforeEdit : beforeEdit.Tagged := RecordTable.tagged_empty.put opened

theorem tagged_afterEdit : afterEdit.Tagged := tagged_beforeEdit.put reopened

/-- What the table held before the edit and holds after it, the latter first. -/
def editedHoldings : List (Holdings Signal) :=
  [afterEdit.holdings tagged_afterEdit, beforeEdit.holdings tagged_beforeEdit]

/-- A source that has found the signal before it was edited. -/
def withEdited : Backed Signal :=
  { ((⟨.new "durable", beforeEdit.store, []⟩ : Backed Signal).find (.ofNat 1)).2 with
    store := afterEdit.store }

/-- The source gives the old signal until it is reconciled, and the new one after that. -/
theorem reconciled_edited :
    Serving withEdited editedHoldings ∧
      (withEdited.find (.ofNat 1)).1 = .ok (some opened) ∧
      (withEdited.refresh.2.find (.ofNat 1)).1 = .ok (some reopened) := by
  have hrun : Serving withEdited editedHoldings :=
    ((Serving.start "durable" (RecordTable.shows tagged_beforeEdit)).quiet
      (.find (.ofNat 1))).write (RecordTable.shows tagged_afterEdit)
  have hever : ∀ a, Holdings.Ever editedHoldings a → a = reopened ∨ a = opened := by
    rintro a ⟨h, hmem, ha⟩
    rcases List.mem_pair.mp hmem with rfl | rfl
    · exact .inl (List.mem_singleton.mp ha)
    · exact .inr (List.mem_singleton.mp ha)
  have htags : Definition.etag reopened ≠ Definition.etag opened := by decide +kernel
  have hinj : Set.InjOn Definition.etag {a | Holdings.Ever editedHoldings a} := by
    intro a ha c hc heq
    rcases hever a ha with rfl | rfl <;> rcases hever c hc with rfl | rfl
    · rfl
    · exact absurd heq htags
    · exact absurd heq.symm htags
    · rfl
  refine ⟨hrun, rfl, ?_⟩
  rcases (hrun.reconciled hinj rfl .refl).find (.ofNat 1) with ⟨found, hfound, heq⟩ | ⟨e, hget, -⟩
  · rw [hfound, heq]
    rfl
  · cases hget

end Backed

end Signpost
