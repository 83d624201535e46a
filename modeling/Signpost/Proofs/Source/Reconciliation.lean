import Signpost.Proofs.Prevails
import Signpost.Proofs.Source.Persistent

/-!
# What a reconciliation evicts

A reconciliation compares the tag of every entry with the one that the store's listing gives its
identifier, the last one if there are several.  It evicts an entry if the two differ or if there is
none, and nothing else: entries, known keys and the announcement all come from the one comparison.
So the same listing has nothing more to evict a second time.  Nothing is asked of the cache or of
the listing; the tags need not be those of the definitions.

## Main definitions

* `LastListed`: the tag that a listing gives an identifier last.
* `PersistentSource.Stale`: an entry is not listed last with its own tag.
* `PersistentSource.Reconciles`: all that a reconciliation with a listing does to a source.

## Main results

* `PersistentSource.reconciles_evictStale`
* `PersistentSource.evictStale_evictStale`: a second reconciliation with a listing does nothing.
* `Backed.refresh_evicts_stale`
-/

namespace Signpost

variable {α : Type}

/-- A listing gives an identifier a tag, and does not give it another one later on. -/
def LastListed (listing : List Header) (id : Uuid) (tag : ETag) : Prop :=
  ∃ earlier later, listing = earlier ++ ⟨id, tag⟩ :: later ∧ ∀ h ∈ later, h.id ≠ id

namespace PersistentSource

variable {s s' : PersistentSource α} {listing : List Header} {id : Uuid} {tag : ETag}

/-- The tag that counts is the last one that is listed. -/
theorem listedTag_eq_some_iff_lastListed :
    listedTag listing id = some tag ↔ LastListed listing id tag := by
  have hlist : ∀ (d : Dict Uuid ETag) (h : Header), (d.put h.id h.etag).get? id = some tag ↔
      h = ⟨id, tag⟩ ∨ h.id ≠ id ∧ d.get? id = some tag := by
    rintro d ⟨id', tag'⟩
    rw [Header.mk.injEq]
    exact d.get?_put_eq_some_iff
  have hempty : ¬ (Dict.empty : Dict Uuid ETag).get? id = some tag := nofun
  rw [listedTag, Dict.ofList, List.foldl_map]
  exact (foldl_iff_prevails_of_not (P := fun d : Dict Uuid ETag => d.get? id = some tag) hlist
    hempty listing).trans prevails_eq_iff

/-- An entry is not listed, or last with another tag. -/
def Stale (listing : List Header) (s : PersistentSource α) (id : Uuid) : Prop :=
  ∃ entry, s.cache.get? id = some entry ∧ ¬LastListed listing id entry.etag

/-- All that a reconciliation with a listing does to a source. -/
structure Reconciles (listing : List Header) (before after : PersistentSource α) : Prop where
  name : after.name = before.name
  /-- Entries stay as they are, definition and tag, if they are listed last with this tag. -/
  entries : ∀ id entry, after.cache.get? id = some entry ↔
    before.cache.get? id = some entry ∧ LastListed listing id entry.etag
  /-- The keys of all others are forgotten, and no more. -/
  keys : ∀ id, after.cache.contains id = true ↔
    before.cache.contains id = true ∧ ¬Stale listing before id
  /-- What is evicted is announced in one piece, each identifier once. -/
  announced : ∃ evicted, evicted.Nodup ∧ (∀ id, id ∈ evicted ↔ Stale listing before id) ∧
    after.changes = if evicted = [] then before.changes
      else before.changes.send ⟨before.name, evicted⟩

theorem mem_evictStale_iff :
    id ∈ (s.cache.evictWhere fun id entry =>
        decide (listedTag listing id ≠ some entry.etag)).2 ↔ Stale listing s id := by
  rw [Cache.mem_evictWhere]
  simp only [decide_eq_true_eq, Stale, ne_eq, listedTag_eq_some_iff_lastListed]

/-- **A reconciliation evicts just the entries that are not listed with their tags**. -/
theorem reconciles_evictStale (listing : List Header) (s : PersistentSource α) :
    Reconciles listing s (s.evictStale listing) where
  name := rfl
  entries id entry := by
    show (s.cache.evictWhere _).1.get? id = some entry ↔ _
    rw [Cache.get?_evictWhere, Option.filter_eq_some_iff, ← listedTag_eq_some_iff_lastListed]
    simp
  keys id := by
    show (s.cache.evictWhere _).1.contains id = true ↔ _
    rw [Cache.contains_evictWhere, mem_evictStale_iff]
  announced := by
    refine ⟨_, s.cache.nodup_evictWhere _, fun id => mem_evictStale_iff, ?_⟩
    simp only [evictStale, evict, Channel.announce, List.isEmpty_iff]

/-- A second reconciliation with a listing does nothing. -/
theorem evictStale_evictStale (listing : List Header) (s : PersistentSource α) :
    (s.evictStale listing).evictStale listing = s.evictStale listing := by
  have hkept : ∀ id entry, (s.evictStale listing).cache.get? id = some entry →
      decide (listedTag listing id ≠ some entry.etag) = false := by
    intro id entry hget
    have hlisted := ((reconciles_evictStale listing s).entries id entry).mp hget |>.2
    simpa using listedTag_eq_some_iff_lastListed.mpr hlisted
  generalize s.evictStale listing = t at hkept ⊢
  rw [evictStale, evict, t.cache.evictWhere_of_kept hkept]
  rfl

end PersistentSource

namespace Backed

/-- **A reconciliation evicts and announces just what the listing shows to be outdated.**  If the
store cannot list what it has, then its failure is returned and the source is as it was.  Otherwise
the entries that are not listed last with their own tags are gone, with their keys, and all others
are as they were; if there were any, one event is sent that has each of them once, and none if there
were not; and a second reconciliation, of a store that gives the same listing, changes and announces
nothing more. -/
theorem refresh_evicts_stale (b : Backed α) :
    (∀ e, b.store.headers = .error e → b.refresh.1 = .error e ∧ b.refresh.2.source = b.source) ∧
    ∀ listing, b.store.headers = .ok listing →
      b.refresh.1 = .ok () ∧ PersistentSource.Reconciles listing b.source b.refresh.2.source ∧
        ∀ store : Store α, store.headers = .ok listing →
          ({ b.refresh.2 with store }).refresh.1 = .ok () ∧
            ({ b.refresh.2 with store }).refresh.2.source = b.refresh.2.source := by
  refine ⟨fun e hdown => ?_, fun listing hlists => ?_⟩
  · rcases b.refresh_cases with ⟨e', hdown', heq⟩ | ⟨_, hlists, -⟩
    · cases hdown.symm.trans hdown'
      rw [heq]
      exact ⟨rfl, rfl⟩
    · cases hdown.symm.trans hlists
  · have hrefresh : ∀ {b : Backed α}, b.store.headers = .ok listing →
        b.refresh.1 = .ok () ∧ b.refresh.2.source = b.source.evictStale listing := by
      intro b hlists
      rcases b.refresh_cases with ⟨_, hdown, -⟩ | ⟨listing', hlists', heq⟩
      · cases hlists.symm.trans hdown
      · cases hlists.symm.trans hlists'
        rw [heq]
        exact ⟨rfl, rfl⟩
    obtain ⟨hok, hsource⟩ := hrefresh hlists
    refine ⟨hok, hsource ▸ PersistentSource.reconciles_evictStale listing b.source,
      fun store hagain => ?_⟩
    obtain ⟨hok', hsource'⟩ := hrefresh (b := { b.refresh.2 with store }) hagain
    refine ⟨hok', hsource'.trans ?_⟩
    show b.refresh.2.source.evictStale listing = _
    rw [hsource, PersistentSource.evictStale_evictStale]

/-- Three cached signals.  The store lists the first one twice, the second time with the tag that it
is cached with, the second one with another tag, and the third one not at all. -/
def threeCached : Backed Signal where
  source := (PersistentSource.new "durable").remember
    [⟨.ofNat 1, ⟨"a"⟩, ⟨.ofNat 1, "opened"⟩⟩, ⟨.ofNat 2, ⟨"b"⟩, ⟨.ofNat 2, "paid"⟩⟩,
      ⟨.ofNat 3, ⟨"c"⟩, ⟨.ofNat 3, "closed"⟩⟩]
  store := ⟨fun _ => .ok none, fun _ => .ok [], fun _ => .ok [],
    .ok [⟨.ofNat 1, ⟨"z"⟩⟩, ⟨.ofNat 2, ⟨"y"⟩⟩, ⟨.ofNat 1, ⟨"a"⟩⟩, ⟨.ofNat 4, ⟨"x"⟩⟩]⟩
  asked := []

/-- The second and the third signal are announced, the first time, and the first one stays. -/
theorem refresh_evicts_stale_threeCached :
    PersistentSource.Reconciles [⟨.ofNat 1, ⟨"z"⟩⟩, ⟨.ofNat 2, ⟨"y"⟩⟩, ⟨.ofNat 1, ⟨"a"⟩⟩,
        ⟨.ofNat 4, ⟨"x"⟩⟩] threeCached.source threeCached.refresh.2.source ∧
      threeCached.refresh.2.source.changes.sent = [⟨"durable", [.ofNat 2, .ofNat 3]⟩] ∧
      threeCached.refresh.2.refresh.2.source = threeCached.refresh.2.source := by
  obtain ⟨-, hreconciles, hagain⟩ := (refresh_evicts_stale threeCached).2 _ rfl
  exact ⟨hreconciles, by decide, (hagain threeCached.store rfl).2⟩

end Backed

end Signpost
