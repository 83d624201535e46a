import Signpost.Proofs.Catalog.Runs
import Signpost.Proofs.Resolver.Refresh
import Signpost.Proofs.Source.Reconciliation

/-!
# Refreshes of all kinds

A refresh of all kinds goes through the kinds in their order, and through the sources of each kind
by priority.  Every source takes exactly one turn, and a turn that fails, or runs out of time, keeps
no later one from being taken: not one of its own kind, nor one of another.  The first failure is
all that is told of failures.  So whatever else fails, each cache in front of a store that can list
what it has is reconciled with it.

## Main definitions

* `Catalog.TakeTurns`: the sources of several kinds take their turns one after another.
* `Catalog.Refreshes`: what a refresh of several kinds does to each source, and what it tells.

## Main results

* `Catalog.exists_takeTurns`: the turns are there, if every call is over at some time.
* `Catalog.refreshKinds_of_turns`: a refresh of several kinds is the turns of their sources.
* `Catalog.refreshes_every_source`
-/

namespace Signpost

namespace Catalog

open Resolver (Turn InSeries firstFailure)

section Turns

variable {σ : Kind → Type} [∀ k, Source (σ k) k.Payload] {resolvers : (k : Kind) → Resolver (σ k)}
  {turns : (k : Kind) → List (Turn (σ k))} {kinds : List Kind} {start ends : Nat}

/-- The sources of several kinds take their turns one after another, each of them one. -/
structure TakeTurns (resolvers : (k : Kind) → Resolver (σ k)) (start : Nat) (kinds : List Kind)
    (turns : (k : Kind) → List (Turn (σ k))) (ends : Nat) : Prop where
  /-- The turns of a kind are those of its sources, in the order of priority. -/
  once : ∀ k ∈ kinds, (turns k).map Turn.source = (resolvers k).sources
  goes : ∀ k ∈ kinds, ∀ t ∈ turns k, t.Goes (resolvers k).limit
  /-- Each turn begins when the one before it is over, and those of a kind when the kind before it
  is through. -/
  inSeries : InSeries start (kinds.flatMap fun k => (turns k).map Turn.span) ends

theorem refresh_of_turns {k : Kind} (hsources : (turns k).map Turn.source = (resolvers k).sources)
    (hgoes : ∀ t ∈ turns k, t.Goes (resolvers k).limit)
    (hseries : InSeries start ((turns k).map Turn.span) ends) :
    (resolvers k).refresh .never start =
      (⟨firstFailure ((turns k).filterMap Turn.failure?), some ends⟩,
        { resolvers k with sources := (turns k).map Turn.left }) := by
  rw [Resolver.refresh, ← hsources, Resolver.refreshFrom_of_turns hgoes hseries]

/-- What a refresh of several kinds gives, and what it leaves, if the first kind is through at some
moment. -/
theorem refreshKinds_cons {k : Kind} {rest : List Kind} {value : Except Failure Unit} {t : Nat}
    {left : Resolver (σ k)}
    (hfirst : (resolvers k).refresh .never start = (⟨value, some t⟩, left)) :
    refreshKinds .never start resolvers (k :: rest) =
      (⟨value.bind fun _ => (refreshKinds .never t (replace resolvers k left) rest).1.value,
        (refreshKinds .never t (replace resolvers k left) rest).1.ends⟩,
        (refreshKinds .never t (replace resolvers k left) rest).2) := by
  rw [refreshKinds, hfirst]
  cases value <;> rfl

namespace TakeTurns

variable {k : Kind} {rest : List Kind}

/-- The first of several kinds takes its turns, and from then on the others. -/
theorem of_cons (h : TakeTurns resolvers start (k :: rest) turns ends) :
    ∃ middle, InSeries start ((turns k).map Turn.span) middle ∧
      TakeTurns resolvers middle rest turns ends := by
  obtain ⟨middle, hfirst, hrest⟩ := Resolver.inSeries_append_iff.mp h.inSeries
  exact ⟨middle, hfirst, fun k' hk' => h.once k' (List.mem_cons_of_mem _ hk'),
    fun k' hk' => h.goes k' (List.mem_cons_of_mem _ hk'), hrest⟩

theorem cons {middle : Nat} (honce : (turns k).map Turn.source = (resolvers k).sources)
    (hgoes : ∀ t ∈ turns k, t.Goes (resolvers k).limit)
    (hseries : InSeries start ((turns k).map Turn.span) middle)
    (h : TakeTurns resolvers middle rest turns ends) :
    TakeTurns resolvers start (k :: rest) turns ends :=
  ⟨List.forall_mem_cons.mpr ⟨honce, h.once⟩, List.forall_mem_cons.mpr ⟨hgoes, h.goes⟩,
    Resolver.inSeries_append_iff.mpr ⟨middle, hseries, h.inSeries⟩⟩

/-- Only the resolvers and the turns of the kinds themselves matter. -/
theorem congr {resolvers' : (k : Kind) → Resolver (σ k)} {turns' : (k : Kind) → List (Turn (σ k))}
    (h : TakeTurns resolvers start kinds turns ends)
    (hresolvers : ∀ k ∈ kinds, resolvers' k = resolvers k)
    (hturns : ∀ k ∈ kinds, turns' k = turns k) : TakeTurns resolvers' start kinds turns' ends := by
  refine ⟨fun k hk => ?_, fun k hk => ?_, ?_⟩
  · rw [hresolvers k hk, hturns k hk]
    exact h.once k hk
  · rw [hresolvers k hk, hturns k hk]
    exact h.goes k hk
  · have hspans : (kinds.flatMap fun k => (turns' k).map Turn.span) =
        kinds.flatMap fun k => (turns k).map Turn.span :=
      List.flatMap_congr fun k hk => by rw [hturns k hk]
    rw [hspans]
    exact h.inSeries

end TakeTurns

/-- **A refresh of several kinds is the turns of their sources**. -/
theorem refreshKinds_of_turns (hnodup : kinds.Nodup)
    (h : TakeTurns resolvers start kinds turns ends) :
    (refreshKinds .never start resolvers kinds).1 =
        ⟨firstFailure (kinds.flatMap fun k => (turns k).filterMap Turn.failure?), some ends⟩ ∧
      ∀ k ∈ kinds, (refreshKinds .never start resolvers kinds).2 k =
        { resolvers k with sources := (turns k).map Turn.left } := by
  induction kinds generalizing start resolvers with
  | nil =>
    obtain rfl : start = ends := h.inSeries
    exact ⟨rfl, nofun⟩
  | cons k rest ih =>
    obtain ⟨hk, hrest⟩ := List.nodup_cons.mp hnodup
    obtain ⟨middle, hseries, hothers⟩ := h.of_cons
    have hfirst := refresh_of_turns (h.once k List.mem_cons_self) (h.goes k List.mem_cons_self)
      hseries
    rw [refreshKinds_cons hfirst]
    -- what the first kind leaves is not seen by the others
    have hleft : ∀ k' ∈ rest, replace resolvers k { resolvers k with
        sources := (turns k).map Turn.left } k' = resolvers k' :=
      fun k' hk' => replace_other resolvers _ fun heq => hk (heq ▸ hk')
    obtain ⟨htimed, hkinds⟩ := ih hrest (hothers.congr hleft fun _ _ => rfl)
    refine ⟨?_, fun k' hk' => ?_⟩
    · rw [htimed, List.flatMap_cons]
      cases hvalue : firstFailure ((turns k).filterMap Turn.failure?) with
      | ok => rw [Resolver.firstFailure_append_of_ok hvalue]; rfl
      | error f => rw [Resolver.firstFailure_append_of_error hvalue]; rfl
    · rcases List.mem_cons.mp hk' with rfl | hk'
      · rw [refreshKinds_other _ _ _ hk, replace_same]
      · rw [hkinds k' hk', hleft k' hk']

/-- There are turns to be taken, if every call is over at some time. -/
theorem exists_takeTurns (hnodup : kinds.Nodup)
    (h : ∀ k ∈ kinds, ∀ s ∈ (resolvers k).sources,
      ∃ d, (Source.refresh s).course.EndsAt (resolvers k).limit d) (start : Nat) :
    ∃ turns ends, TakeTurns resolvers start kinds turns ends := by
  induction kinds generalizing start with
  | nil => exact ⟨fun _ => [], start, nofun, nofun, rfl⟩
  | cons k rest ih =>
    obtain ⟨hk, hrest⟩ := List.nodup_cons.mp hnodup
    obtain ⟨hfirst, hothers⟩ := List.forall_mem_cons.mp h
    obtain ⟨first, middle, honce, hgoes, hseries⟩ := Resolver.exists_turns hfirst start
    obtain ⟨turns, ends, hturns⟩ := ih hrest hothers middle
    have hother : ∀ k' ∈ rest, replace turns k first k' = turns k' :=
      fun k' hk' => replace_other turns first fun heq => hk (heq ▸ hk')
    have hturns := hturns.congr (fun _ _ => rfl) hother
    refine ⟨replace turns k first, ends, .cons ?_ ?_ ?_ hturns⟩ <;> rw [replace_same]
    exacts [honce, hgoes, hseries]

/-- What a refresh of all kinds does: every source of every kind takes one turn, in the order of the
kinds and of priority, the first failure is told, and each source is left as its turn leaves it. -/
structure Refreshes (resolvers : (k : Kind) → Resolver (σ k))
    (result : Timed (Except Failure Unit) × ((k : Kind) → Resolver (σ k))) : Prop where
  turns : ∃ turns ends, TakeTurns resolvers 0 Kind.all turns ends ∧
    result.1 =
      ⟨firstFailure (Kind.all.flatMap fun k => (turns k).filterMap Turn.failure?), some ends⟩ ∧
    ∀ k, (result.2 k).sources = (turns k).map Turn.left
  /-- There is nothing to tell just if every source answers in time. -/
  ok_iff : result.1.value = .ok () ↔ ∀ k, ∀ s ∈ (resolvers k).sources,
    ∃ d, (Source.refresh s).course.Answers (resolvers k).limit d ()

theorem refreshes_refreshKinds (h : ∀ k, ∀ s ∈ (resolvers k).sources,
      ∃ d, (Source.refresh s).course.EndsAt (resolvers k).limit d) :
    Refreshes resolvers (refreshKinds .never 0 resolvers Kind.all) := by
  have hnodup : Kind.all.Nodup := by decide
  obtain ⟨turns, ends, hturns⟩ := exists_takeTurns hnodup (fun k _ => h k) 0
  obtain ⟨hresult, hleft⟩ := refreshKinds_of_turns hnodup hturns
  refine ⟨⟨turns, ends, hturns, hresult, fun k => by rw [hleft k k.mem_all]⟩, ?_⟩
  have honce : ∀ k, (turns k).map Turn.source = (resolvers k).sources :=
    fun k => hturns.once k k.mem_all
  have hgoes : ∀ k, ∀ t ∈ turns k, t.Goes (resolvers k).limit := fun k => hturns.goes k k.mem_all
  rw [hresult, Resolver.firstFailure_eq_ok_iff, List.flatMap_eq_nil_iff]
  refine ⟨fun hnone k s hs => ?_, fun hall k _ => ?_⟩
  · rw [← honce k] at hs
    obtain ⟨t, ht, rfl⟩ := List.mem_map.mp hs
    have hfailure := List.filterMap_eq_nil_iff.mp (hnone k k.mem_all) t ht
    exact (hgoes k t ht).failure?_eq_none_iff.mp hfailure
  · refine List.filterMap_eq_nil_iff.mpr fun t ht => ?_
    refine (hgoes k t ht).failure?_eq_none_iff.mpr (hall k _ ?_)
    rw [← honce k]
    exact List.mem_map_of_mem ht

/-- Sources whose calls are all over in time are left as their own replies leave them. -/
theorem Refreshes.sources_eq_map_after
    {result : Timed (Except Failure Unit) × ((k : Kind) → Resolver (σ k))}
    (h : Refreshes resolvers result) {k : Kind}
    (hin : ∀ s ∈ (resolvers k).sources,
      ∃ d, (Source.refresh s).course.InTime (resolvers k).limit d) :
    (result.2 k).sources = (resolvers k).sources.map fun s => (Source.refresh s).after := by
  obtain ⟨turns, ends, hturns, -, hleft⟩ := h.turns
  have honce := hturns.once k k.mem_all
  rw [← honce] at hin ⊢
  refine (hleft k).trans ?_
  rw [List.map_map]
  refine List.map_congr_left fun t ht => ?_
  obtain ⟨d, hd⟩ := hin t.source (List.mem_map_of_mem ht)
  exact (hturns.goes k k.mem_all t ht).left_eq hd

end Turns

/-! ## Persistent sources -/

/-- Whatever becomes of the other sources, a persistent source asks its store once, and is left as
this leaves it. -/
theorem Refreshes.getElem?_backed {layers : (k : Kind) → Resolver (Layer k.Payload)}
    {result : Timed (Except Failure Unit) × ((k : Kind) → Resolver (Layer k.Payload))}
    (h : Refreshes layers result) {k : Kind} {i : Nat} {b : Backed k.Payload}
    (hb : (layers k).sources[i]? = some (.backed b)) :
    (result.2 k).sources[i]? = some (.backed b.refresh.2) := by
  obtain ⟨turns, ends, hturns, -, hleft⟩ := h.turns
  rw [← hturns.once k k.mem_all, List.getElem?_map] at hb
  obtain ⟨t, ht, hsource⟩ := Option.map_eq_some_iff.mp hb
  have hgoes := hturns.goes k k.mem_all t (List.mem_of_getElem? ht)
  -- its reply is there at once
  have hin : (Source.refresh t.source).course.InTime (layers k).limit 0 := by
    rw [hsource]
    exact ⟨rfl, fun l _ => Nat.zero_le l⟩
  rw [hleft k, List.getElem?_map, ht, Option.map_some, hgoes.left_eq hin, hsource]
  rfl

end Catalog

namespace Backed

variable {α : Type} (b : Backed α)

/-- A refresh asks the store for its listing, once. -/
theorem asked_refresh : b.refresh.2.asked = b.asked ++ [.headers] := by
  rcases b.refresh_cases with ⟨e, -, heq⟩ | ⟨listing, -, heq⟩ <;> rw [heq] <;> rfl

/-- A store that can list what it has is reconciled with. -/
theorem reconciles_refresh {listing : List Header} (h : b.store.headers = .ok listing) :
    PersistentSource.Reconciles listing b.source b.refresh.2.source := by
  rcases b.refresh_cases with ⟨e, hdown, -⟩ | ⟨listing', hlists, heq⟩
  · cases h.symm.trans hdown
  · cases h.symm.trans hlists
    rw [heq]
    exact PersistentSource.reconciles_evictStale listing b.source

end Backed

namespace Catalog

section Caches

variable {c : Catalog} {db : Database} {k : Kind}

/-- The layers of a catalog reply at once. -/
theorem inTime_layer {layer : Layer k.Payload} (h : layer ∈ (c.resolver db k).sources) :
    (Source.refresh layer).course.InTime (c.resolver db k).limit 0 := by
  rcases mem_sources_iff.mp h with rfl | ⟨-, rfl⟩
  · exact ⟨rfl, fun l _ => Nat.zero_le l⟩
  · exact ⟨rfl, fun l _ => Nat.zero_le l⟩

/-- The caches of a catalog into which layers have been taken back. -/
theorem cached_foldl_takeBackAll {left : (k : Kind) → Resolver (Layer k.Payload)}
    {shipped : (k : Kind) → MemorySource k.Payload} {backed : (k : Kind) → Backed k.Payload}
    (hleft : ∀ k, (left k).sources = [.memory (shipped k), .backed (backed k)]) (kinds : List Kind)
    (c : Catalog) (k : Kind) :
    (kinds.foldl (fun c k => c.takeBackAll (left k)) c).cached k =
      if k ∈ kinds then (backed k).source else c.cached k := by
  induction kinds generalizing c with
  | nil => rfl
  | cons first rest ih =>
    have hfirst : (c.takeBackAll (left first)).cached =
        replace c.cached first (backed first).source := by
      simp [takeBackAll, hleft, takeBack]
    rw [List.foldl_cons, ih, hfirst]
    by_cases hrest : k ∈ rest
    · rw [if_pos hrest, if_pos (List.mem_cons_of_mem _ hrest)]
    · by_cases hk : first = k
      · subst hk
        rw [if_neg hrest, if_pos List.mem_cons_self, replace_same]
      · rw [if_neg hrest, replace_other _ _ hk, if_neg]
        exact fun hmem => (List.mem_cons.mp hmem).elim (Ne.symm hk) hrest

/-- A refresh of all kinds leaves every cache of a catalog with a database as a call of its own
persistent source would. -/
theorem cached_refreshAll (hstored : c.stored = true) :
    (c.refreshAll db .never).2.cached k = (c.behind db k).refresh.2.source := by
  have hrefreshes : Refreshes (c.resolver db) (refreshKinds .never 0 (c.resolver db) Kind.all) :=
    refreshes_refreshKinds fun _ _ hs => ⟨0, (inTime_layer hs).endsAt⟩
  have hsources : ∀ k, (c.resolver db k).sources =
      [.memory (c.bootstrap k), .backed (c.behind db k)] := by
    intro k
    rw [resolver, if_pos hstored]
    rfl
  have hleft : ∀ k, ((refreshKinds .never 0 (c.resolver db) Kind.all).2 k).sources =
      [.memory (c.bootstrap k), .backed (c.behind db k).refresh.2] := by
    intro k
    rw [hrefreshes.sources_eq_map_after fun _ hs => ⟨0, inTime_layer hs⟩, hsources k]
    rfl
  exact (cached_foldl_takeBackAll hleft Kind.all c k).trans (if_pos k.mem_all)

end Caches

/-- **A source that fails keeps no other one from being reconciled.**  Whatever sources the four
kinds have, and whether a refresh of each succeeds, fails or runs out of time, if only it is over at
some time, and nobody gives up: every source of every kind is called once, in the order of the kinds
and of priority; the refresh goes well just if all calls do, and otherwise gives the first failure
in this order, which names its source.  So every persistent source, wherever it stands, asks its
store once, and is reconciled with what the store lists, if it can list it; and so is every cache of
a catalog with a database. -/
theorem refreshes_every_source :
    (∀ (σ : Kind → Type) [∀ k, Source (σ k) k.Payload] (resolvers : (k : Kind) → Resolver (σ k)),
      (∀ k, ∀ s ∈ (resolvers k).sources,
        ∃ d, (Source.refresh s).course.EndsAt (resolvers k).limit d) →
      Refreshes resolvers (refreshKinds .never 0 resolvers Kind.all)) ∧
    (∀ layers : (k : Kind) → Resolver (Layer k.Payload),
      (∀ k, ∀ s ∈ (layers k).sources,
        ∃ d, (Source.refresh s).course.EndsAt (layers k).limit d) →
      ∀ k (i : Nat) (b : Backed k.Payload), (layers k).sources[i]? = some (.backed b) →
        ∃ b', ((refreshKinds .never 0 layers Kind.all).2 k).sources[i]? = some (.backed b') ∧
          b'.asked = b.asked ++ [.headers] ∧
          ∀ listing, b.store.headers = .ok listing →
            PersistentSource.Reconciles listing b.source b'.source) ∧
    ∀ (c : Catalog) (db : Database), c.stored = true →
      Refreshes (c.resolver db) ((c.refreshAll db .never).1,
        (refreshKinds .never 0 (c.resolver db) Kind.all).2) ∧
      ∀ k listing, (db.store k).headers = .ok listing →
        PersistentSource.Reconciles listing (c.cached k) ((c.refreshAll db .never).2.cached k) := by
  refine ⟨fun σ _ resolvers hends => refreshes_refreshKinds hends,
    fun layers hends k i b hb => ?_, fun c db hstored => ⟨?_, fun k listing hlists => ?_⟩⟩
  · exact ⟨b.refresh.2, (refreshes_refreshKinds hends).getElem?_backed hb, b.asked_refresh,
      fun listing hlists => b.reconciles_refresh hlists⟩
  · exact refreshes_refreshKinds fun _ _ hs => ⟨0, (inTime_layer hs).endsAt⟩
  · rw [cached_refreshAll hstored]
    exact (c.behind db k).reconciles_refresh hlists

/-- A cache of two signals, of which the store still lists the second one. -/
def halfListed : Backed Signal where
  source := (PersistentSource.new "durable").remember
    [⟨.ofNat 1, ⟨"a"⟩, ⟨.ofNat 1, "opened"⟩⟩, ⟨.ofNat 2, ⟨"b"⟩, ⟨.ofNat 2, "paid"⟩⟩]
  store := ⟨fun _ => .ok none, fun _ => .ok [], fun _ => .ok [], .ok [⟨.ofNat 2, ⟨"b"⟩⟩]⟩
  asked := []

/-- A source of workflows fails and one of signals never answers, before a persistent one. -/
def uneven : (k : Kind) → Resolver (Layer k.Payload)
  | .workflow => ⟨[.memory (.ofList "shipped" []),
      .hindered ⟨⟨some 3, some (.root "disk full")⟩, .ofList "broken" []⟩], some 10⟩
  | .signal => ⟨[.hindered ⟨⟨none, none⟩, .ofList "hanging" []⟩, .backed halfListed], some 10⟩
  | .trigger | .boardTemplate => ⟨[], none⟩

/-- The failure of the first kind is told, and the cache behind the call that runs out of time is
reconciled. -/
theorem refreshes_every_source_uneven :
    (refreshKinds .never 0 uneven Kind.all).1 =
      ⟨.error ((Failure.root "disk full").within "refreshing source broken"), some 13⟩ ∧
    Refreshes uneven (refreshKinds .never 0 uneven Kind.all) ∧
    ∃ b' : Backed Signal,
      ((refreshKinds .never 0 uneven Kind.all).2 .signal).sources[1]? = some (.backed b') ∧
        b'.asked = [.headers] ∧
        PersistentSource.Reconciles [⟨.ofNat 2, ⟨"b"⟩⟩] halfListed.source b'.source := by
  have hends : ∀ k, ∀ s ∈ (uneven k).sources,
      ∃ d, (Source.refresh s).course.EndsAt (uneven k).limit d := by
    intro k s hs
    cases k with
    | workflow | signal => exact Course.exists_endsAt (.inl rfl)
    | trigger | boardTemplate => cases hs
  obtain ⟨hrefreshes, hreconciles, -⟩ := refreshes_every_source
  obtain ⟨b', hb', hasked, hlists⟩ := hreconciles uneven hends .signal 1 halfListed rfl
  exact ⟨rfl, hrefreshes _ uneven hends, b', hb', hasked, hlists _ rfl⟩

end Catalog

end Signpost
