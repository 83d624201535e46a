import Signpost.Catalog
import Signpost.Proofs.Resolver.Search
import Signpost.Proofs.Source.Announcement
import Signpost.Proofs.Store.Writes

/-!
# Runs of a catalog

Whatever a catalog is asked, and whenever its callers give up, a call changes nothing but the cache
of its own kind, and that just as some call of the persistent source of this kind would.  So through
every run the shipped definitions stay as they are, and everything that is cached was put into the
database as a definition of its own kind, however old it is by now.

## Main definitions

* `Resolver.Call`, `Resolver.after`: the calls of a resolver.
* `Catalog.asked`: the catalog after a call for a kind.
* `Catalog.Run`: runs of a catalog and its database.

## Main results

* `Resolver.forall₂_after`: what a call leaves of each source.
* `Catalog.exists_asked_eq`: what a call leaves of a catalog.
* `Catalog.Run.keeps`: what holds of every run.
-/

namespace Signpost

/-! ## Calls of a source -/

/-- Each call of a source is one that keeps to what is cached and what is held. -/
theorem Backed.quiet_after {α : Type} [Definition α] (now : Holdings α) (b : Backed α)
    (q : Call α) : Quiet now b (b.after q) := by
  cases q with
  | find id => exact .find id
  | findMany ids => exact .findMany ids
  | query f => exact .query f
  | queryFirst f => exact .queryFirst f
  | refresh => exact .refresh
  | clear => exact .clear

/-! ## Calls of a resolver -/

namespace Resolver

/-- A call of a resolver. -/
inductive Call (α : Type) where
  | find (id : Uuid)
  | findMany (ids : List Uuid)
  | select (f : Filter α)
  | selectFirst (f : Filter α)
  | all
  | refresh (start : Nat)

variable {σ α β : Type} [Source σ α]

/-- A source after it has been asked what a call asks. -/
def Call.asked (s : σ) : Call α → σ
  | .find id => (Source.find id s).after
  | .findMany ids => (Source.findMany ids s).after
  | .select f => (Source.select f s).after
  | .selectFirst f => (Source.selectFirst f s).after
  | .all => (Source.all s).after
  | .refresh _ => (Source.refresh s).after

/-- The resolver after a call. -/
def after [Definition α] (r : Resolver σ) (cancel : Cancel) : Call α → Resolver σ
  | .find id => (r.find cancel id).2
  | .findMany ids => (r.findMany cancel ids).2
  | .select f => (r.select cancel f).2
  | .selectFirst f => (r.selectFirst cancel f).2
  | .all => (r.all cancel).2
  | .refresh start => (r.refresh cancel start).2

/-- A source is as it was, or as a question leaves it. -/
def LeftBy (ask : σ → σ) (s s' : σ) : Prop := s' = s ∨ s' = ask s

variable {sources : List σ}

omit [Source σ α] in
theorem leftBy_attempt (limit : Option Nat) (cancel : Cancel) (start : Nat) (s : σ)
    (ask : σ → Reply σ β) :
    LeftBy (fun s => (ask s).after) s (attempt limit cancel start s ask).2 := by
  unfold attempt
  split
  · exact .inl rfl
  · dsimp only
    split
    · exact .inr rfl
    · exact .inr rfl
    · exact .inl rfl

omit [Source σ α] in
theorem forall₂_leftBy_self (ask : σ → σ) (sources : List σ) :
    List.Forall₂ (LeftBy ask) sources sources :=
  List.forall₂_same.mpr fun _ _ => .inl rfl

/-- A search asks some of the sources, and leaves the others alone. -/
theorem forall₂_searchFrom (limit : Option Nat) (cancel : Cancel) (ask : σ → Reply σ (Option β))
    (start : Nat) (failed : List String) (sources : List σ) :
    List.Forall₂ (LeftBy fun s => (ask s).after) sources
      (searchFrom limit cancel ask start failed sources).2 := by
  induction sources generalizing start failed with
  | nil => exact .nil
  | cons s rest ih =>
    have hfirst := leftBy_attempt limit cancel start s ask
    -- where the search ends, the later sources are not asked
    have halone := List.Forall₂.cons hfirst (forall₂_leftBy_self (fun s => (ask s).after) rest)
    rw [searchFrom]
    dsimp only
    split
    · exact halone
    · split
      · exact halone
      · exact .cons hfirst (ih _ _)
      · exact halone
      · exact .cons hfirst (ih _ _)

theorem forall₂_refreshFrom (limit : Option Nat) (cancel : Cancel) (start : Nat)
    (sources : List σ) :
    List.Forall₂ (LeftBy fun s => (Source.refresh s).after) sources
      (refreshFrom limit cancel start sources).2 := by
  induction sources generalizing start cancel with
  | nil => exact .nil
  | cons s rest ih =>
    have hfirst := leftBy_attempt limit cancel start s Source.refresh
    rw [refreshFrom]
    dsimp only
    split
    · exact .cons hfirst (forall₂_leftBy_self _ rest)
    · split <;> exact .cons hfirst (ih _ _)

omit [Source σ α] in
theorem forall₂_fanOut [Definition α] (r : Resolver σ) (cancel : Cancel)
    (ask : σ → Reply σ (List α)) :
    List.Forall₂ (LeftBy fun s => (ask s).after) r.sources (r.fanOut cancel ask).2.sources := by
  show List.Forall₂ _ r.sources ((r.sources.map _).map Prod.snd)
  rw [List.map_map, List.forall₂_map_right_iff]
  exact List.forall₂_same.mpr fun s _ => leftBy_attempt r.limit cancel 0 s ask

/-- A call leaves every source as it was, or as its question leaves it. -/
theorem forall₂_after [Definition α] (r : Resolver σ) (cancel : Cancel) (call : Call α) :
    List.Forall₂ (LeftBy call.asked) r.sources (r.after cancel call).sources := by
  cases call with
  | find id =>
    show List.Forall₂ _ r.sources (findFrom r.limit cancel id 0 [] r.sources).2
    rw [findFrom_eq_searchFrom]
    exact forall₂_searchFrom ..
  | findMany ids =>
    show List.Forall₂ _ r.sources (r.findMany cancel ids).2.sources
    rw [findMany]
    split
    · exact forall₂_leftBy_self _ _
    · exact forall₂_fanOut r cancel (Source.findMany ids)
  | select f => exact forall₂_fanOut r cancel (Source.select f)
  | selectFirst f =>
    show List.Forall₂ _ r.sources (selectFirstFrom r.limit cancel f 0 r.sources).2
    rw [selectFirstFrom_eq_searchFrom _ _ _ _ []]
    exact forall₂_searchFrom ..
  | all => exact forall₂_fanOut r cancel Source.all
  | refresh start => exact forall₂_refreshFrom r.limit cancel start r.sources

/-- What a call asks of a persistent source. -/
def Call.question : Call α → Backed.Call α
  | .find id => .find id
  | .findMany ids => .findMany ids
  | .select f => .query f
  | .selectFirst f => .queryFirst f
  | .all => .query .all
  | .refresh _ => .refresh

variable [Definition α]

/-- A source in memory is left as it is, whatever it is asked. -/
theorem Call.asked_memory (s : MemorySource α) (call : Call α) :
    call.asked (Layer.memory s) = .memory s := by cases call <;> rfl

theorem Call.asked_backed (b : Backed α) (call : Call α) :
    call.asked (Layer.backed b) = .backed (b.after call.question) := by cases call <;> rfl

end Resolver

/-! ## Calls of a catalog -/

namespace Catalog

variable {c : Catalog} {db : Database} {k : Kind} {cancel : Cancel}

/-- The catalog after a call for a kind. -/
def asked (c : Catalog) (db : Database) (k : Kind) (cancel : Cancel)
    (call : Resolver.Call k.Payload) : Catalog :=
  c.takeBackAll ((c.resolver db k).after cancel call)

section Families

variable {F : Kind → Type} (f : (k : Kind) → F k) {k' : Kind}

@[simp] theorem replace_same (k : Kind) (value : F k) : replace f k value k = value :=
  dif_pos rfl

theorem replace_other (value : F k) (hother : k ≠ k') : replace f k value k' = f k' :=
  dif_neg hother

@[simp] theorem replace_self (k : Kind) : replace f k (f k) = f := by
  funext k'
  unfold replace
  split
  · next h => cases h; rfl
  · rfl

end Families

/-- The persistent source of a kind, in front of the database. -/
def behind (c : Catalog) (db : Database) (k : Kind) : Backed k.Payload :=
  ⟨c.cached k, db.store k, []⟩

theorem mem_sources_iff {layer : Layer k.Payload} : layer ∈ (c.resolver db k).sources ↔
    layer = .memory (c.bootstrap k) ∨ c.stored = true ∧ layer = .backed (c.behind db k) := by
  rw [resolver, List.mem_cons]
  by_cases hstored : c.stored = true
  · rw [if_pos hstored, List.mem_singleton, and_iff_right hstored]
    rfl
  · rw [if_neg hstored]
    simp [hstored]

/-- What a call leaves of a catalog: its cache of one kind may be as some call of the persistent
source leaves it, and the rest is as it was. -/
theorem exists_asked_eq (c : Catalog) (db : Database) (k : Kind) (cancel : Cancel)
    (call : Resolver.Call k.Payload) :
    ∃ s, (s = c.cached k ∨ s = ((c.behind db k).after call.question).source) ∧
      c.asked db k cancel call = { c with cached := replace c.cached k s } := by
  have hleft := (c.resolver db k).forall₂_after cancel call
  rw [resolver] at hleft
  obtain ⟨first, rest, hfirst, hrest, hsources⟩ := List.forall₂_cons_left_iff.mp hleft
  have hmemory : first = .memory (c.bootstrap k) := by
    rcases hfirst with h | h
    · exact h
    · exact h.trans (call.asked_memory _)
  rw [asked, takeBackAll, resolver, hsources, hmemory]
  -- without a database there is only the layer in memory, which is as it was
  by_cases hstored : c.stored = true
  · rw [if_pos hstored] at hrest
    obtain ⟨second, others, hsecond, hothers, rfl⟩ := List.forall₂_cons_left_iff.mp hrest
    cases hothers
    rcases hsecond with rfl | rfl
    · exact ⟨_, .inl rfl, by simp [takeBack]⟩
    · exact ⟨_, .inr rfl, by simp [takeBack, call.asked_backed, behind]⟩
  · rw [if_neg hstored] at hrest
    cases hrest
    exact ⟨_, .inl rfl, by simp [takeBack]⟩

/-- The layers of other kinds are as they were. -/
theorem resolver_asked {k' : Kind} (call : Resolver.Call k.Payload) (hother : k ≠ k') :
    (c.asked db k cancel call).resolver db k' = c.resolver db k' := by
  obtain ⟨s, -, heq⟩ := c.exists_asked_eq db k cancel call
  rw [heq]
  simp only [resolver, replace_other _ _ hother]

/-- Layers that are taken back as they were leave the catalog as it was. -/
theorem takeBackAll_resolver (c : Catalog) (db : Database) (k : Kind) :
    c.takeBackAll (c.resolver db k) = c := by
  rw [takeBackAll, resolver]
  split <;> simp [takeBack]

section Refreshing

variable {σ : Kind → Type} [∀ k, Source (σ k) k.Payload] (cancel : Cancel) (start : Nat)
  (resolvers : (k : Kind) → Resolver (σ k)) {kinds : List Kind}

/-- The resolver of the first kind is refreshed and then, unless that takes for ever, the others. -/
theorem snd_refreshKinds_cons (k : Kind) (rest : List Kind) :
    (refreshKinds cancel start resolvers (k :: rest)).2 =
        replace resolvers k ((resolvers k).refresh cancel start).2 ∨
      ∃ t, (refreshKinds cancel start resolvers (k :: rest)).2 =
        (refreshKinds cancel t (replace resolvers k ((resolvers k).refresh cancel start).2)
          rest).2 := by
  rw [refreshKinds]
  dsimp only
  split
  · exact .inl rfl
  · next t _ => exact .inr ⟨t, by split <;> rfl⟩

theorem refreshKinds_other (hk : k ∉ kinds) :
    (refreshKinds cancel start resolvers kinds).2 k = resolvers k := by
  induction kinds generalizing start resolvers with
  | nil => rfl
  | cons first rest ih =>
    rw [List.mem_cons, not_or] at hk
    have hleft := replace_other resolvers ((resolvers first).refresh cancel start).2 (Ne.symm hk.1)
    rcases snd_refreshKinds_cons cancel start resolvers first rest with heq | ⟨t, heq⟩
    · rw [heq, hleft]
    · rw [heq, ih _ _ hk.2, hleft]

/-- The resolver of a kind is left alone, or as a refresh leaves it. -/
theorem refreshKinds_cases (hnodup : kinds.Nodup) (k : Kind) :
    (refreshKinds cancel start resolvers kinds).2 k = resolvers k ∨
      ∃ t, (refreshKinds cancel start resolvers kinds).2 k =
        ((resolvers k).refresh cancel t).2 := by
  induction kinds generalizing start resolvers with
  | nil => exact .inl rfl
  | cons first rest ih =>
    obtain ⟨hfirst, hrest⟩ := List.nodup_cons.mp hnodup
    by_cases hk : first = k
    · subst hk
      refine .inr ⟨start, ?_⟩
      rcases snd_refreshKinds_cons cancel start resolvers first rest with heq | ⟨t, heq⟩
      · rw [heq, replace_same]
      · rw [heq, refreshKinds_other _ _ _ hfirst, replace_same]
    · have hleft := replace_other resolvers ((resolvers first).refresh cancel start).2 hk
      rcases snd_refreshKinds_cons cancel start resolvers first rest with heq | ⟨t, heq⟩
      · exact .inl (by rw [heq, hleft])
      · rw [heq, ← hleft]
        exact ih t _ hrest

end Refreshing

/-! ## Runs -/

/-- A run of a catalog that began with nothing cached, and of its database, which began without
rows; and the definitions that have been put into the database, the last one first.  A call that
fails, or that is given up, leaves the catalog as it was. -/
inductive Run (bundle : Bundle) (stored : Bool) (limit : Option Nat) :
    Catalog → Database → List ((k : Kind) × k.Payload) → Prop
  | start : Run bundle stored limit (.new bundle stored limit) .empty []
  /-- The catalog is asked for definitions of a kind, or told to refresh its cache. -/
  | ask {c : Catalog} {db : Database} {written : List ((k : Kind) × k.Payload)}
      (h : Run bundle stored limit c db written) (k : Kind) (cancel : Cancel)
      (call : Resolver.Call k.Payload) :
      Run bundle stored limit (c.asked db k cancel call) db written
  | put {c : Catalog} {db : Database} {written : List ((k : Kind) × k.Payload)}
      (h : Run bundle stored limit c db written) {k : Kind} (a : k.Payload) :
      Run bundle stored limit c (db.put a).1 (⟨k, a⟩ :: written)
  | delete {c : Catalog} {db : Database} {written : List ((k : Kind) × k.Payload)}
      (h : Run bundle stored limit c db written) (k : Kind) (id : Uuid) :
      Run bundle stored limit c (db.delete k id) written
  /-- An instance saves its document. -/
  | save {c : Catalog} {db : Database} {written : List ((k : Kind) × k.Payload)}
      (h : Run bundle stored limit c db written) (key : String) (state : Json) :
      Run bundle stored limit c (db.saveState key state) written

variable {bundle : Bundle} {stored : Bool} {limit : Option Nat}
  {written : List ((k : Kind) × k.Payload)}

namespace Run

theorem find (h : Run bundle stored limit c db written) (k : Kind) (cancel : Cancel) (id : Uuid) :
    Run bundle stored limit (c.find db k cancel id).2 db written := h.ask k cancel (.find id)

theorem all (h : Run bundle stored limit c db written) (k : Kind) (cancel : Cancel) :
    Run bundle stored limit (c.all db k cancel).2 db written := h.ask k cancel .all

/-- Caches are refreshed by a call for every kind. -/
theorem refreshAll (h : Run bundle stored limit c db written) (cancel : Cancel) :
    Run bundle stored limit (c.refreshAll db cancel).2 db written := by
  show Run bundle stored limit (Kind.all.foldl (fun c' k =>
    c'.takeBackAll ((refreshKinds cancel 0 (c.resolver db) Kind.all).2 k)) c) db written
  generalize hleft : (refreshKinds cancel 0 (c.resolver db) Kind.all).2 = left
  -- the layers of a kind are taken back into a catalog that still has them as they were called
  suffices hkinds : ∀ (kinds : List Kind) (c' : Catalog), kinds.Nodup →
      (∀ k ∈ kinds, c'.resolver db k = c.resolver db k) → Run bundle stored limit c' db written →
      Run bundle stored limit (kinds.foldl (fun c' k => c'.takeBackAll (left k)) c') db written from
    hkinds Kind.all c (by decide) (fun _ _ => rfl) h
  intro kinds
  induction kinds with
  | nil => exact fun c' _ _ h' => h'
  | cons k rest ih =>
    intro c' hnodup hsame h'
    obtain ⟨hk, hrest⟩ := List.nodup_cons.mp hnodup
    obtain ⟨hfirst, hothers⟩ := List.forall_mem_cons.mp hsame
    rw [List.foldl_cons]
    rcases refreshKinds_cases cancel 0 (c.resolver db) (by decide : Kind.all.Nodup) k with
      heq | ⟨start, heq⟩
    · rw [← hleft, heq, ← hfirst, takeBackAll_resolver, hleft]
      exact ih c' hrest hothers h'
    · rw [← hleft, heq, ← hfirst, hleft]
      refine ih _ hrest (fun k' hk' => ?_) (h'.ask k cancel (.refresh start))
      have hother : k ≠ k' := fun heq => hk (heq ▸ hk')
      rw [← hothers k' hk']
      exact resolver_asked (.refresh start) hother

theorem refreshTimes (h : Run bundle stored limit c db written) (count : Nat) :
    Run bundle stored limit (Catalog.refreshTimes db count c) db written := by
  induction count generalizing c with
  | zero => exact h
  | succ count ih => exact ih (h.refreshAll .never)

/-- What the caches are refreshed to in the course of time is reached by a run. -/
theorem ticks (h : Run bundle stored limit c db written) (period time : Nat) :
    Run bundle stored limit (c.ticks db period time) db written := h.refreshTimes (time / period)

theorem putAll (h : Run bundle stored limit c db written) (definitions : List k.Payload) :
    Run bundle stored limit c (db.putAll definitions).1
      ((definitions.map (Sigma.mk k)).reverse ++ written) := by
  induction definitions generalizing db written with
  | nil => exact h
  | cons a rest ih =>
    rw [List.map_cons, List.reverse_cons, List.append_assoc]
    exact ih (h.put a)

/-- A bundle is imported by putting its definitions, kind by kind. -/
theorem importBundle (h : Run bundle stored limit c db written) (b : Bundle) :
    ∃ imported, Run bundle stored limit c (db.importBundle b).1 (imported ++ written) := by
  suffices hkinds : ∀ (kinds : List Kind) (db : Database) written,
      Run bundle stored limit c db written → ∃ imported,
        Run bundle stored limit c (kinds.foldl (fun db k => (db.putAll (b.ofKind k)).1) db)
          (imported ++ written) by
    rw [Database.importBundle_eq]
    exact hkinds Kind.all db written h
  intro kinds
  induction kinds with
  | nil => exact fun db written h => ⟨[], h⟩
  | cons k rest ih =>
    intro db written h
    obtain ⟨imported, hrest⟩ := ih _ _ (h.putAll (b.ofKind k))
    exact ⟨_, by rwa [← List.append_assoc] at hrest⟩

end Run

/-- What holds of every run: the shipped definitions are as they were, the rows of every kind are
those of some table, and whatever the database has, or a cache, has been put as a definition of this
kind. -/
structure Keeps (bundle : Bundle) (stored : Bool) (c : Catalog) (db : Database)
    (written : List ((k : Kind) × k.Payload)) : Prop where
  bootstrap : ∀ k, c.bootstrap k = .ofList ("bootstrap:" ++ k.name) (bundle.ofKind k)
  stored : c.stored = stored
  mirrored : ∀ k, ∃ t, db.Mirrors k t
  had : ∀ {k} (a : k.Payload), db.Has a → ⟨k, a⟩ ∈ written
  cached : ∀ k, (c.cached k).Holds fun a => ⟨k, a⟩ ∈ written

namespace Keeps

theorem new (bundle : Bundle) (stored : Bool) (limit : Option Nat) :
    Keeps bundle stored (.new bundle stored limit) .empty [] where
  bootstrap _ := rfl
  stored := rfl
  mirrored k := ⟨_, Database.mirrors_empty k⟩
  had _ h := nomatch h
  cached k := PersistentSource.holds_new ("store:" ++ k.name)

theorem asked (h : Keeps bundle stored c db written) (k : Kind) (cancel : Cancel)
    (call : Resolver.Call k.Payload) :
    Keeps bundle stored (c.asked db k cancel call) db written := by
  obtain ⟨s, hs, heq⟩ := c.exists_asked_eq db k cancel call
  rw [heq]
  refine { h with cached := fun k' => ?_ }
  -- only the cache of the kind itself is touched
  by_cases hk : k = k'
  · subst hk
    show (replace c.cached k s k).Holds _
    rw [replace_same]
    obtain ⟨t, ht⟩ := h.mirrored k
    have hcached := h.cached k
    rcases hs with rfl | rfl
    · exact hcached
    -- whatever the database shows it has, and that has been put
    · have hquiet := (c.behind db k).quiet_after (t.holdings ht.tagged) call.question
      exact (hquiet.holds ht.shows hcached fun a ha => h.had a (ht.mem_holdings_iff.mp ha)).2
  · show (replace c.cached k s k').Holds _
    rw [replace_other c.cached s hk]
    exact h.cached k'

theorem put (h : Keeps bundle stored c db written) {k : Kind} (a : k.Payload) :
    Keeps bundle stored c (db.put a).1 (⟨k, a⟩ :: written) where
  bootstrap := h.bootstrap
  stored := h.stored
  mirrored k' := Database.exists_mirrors_write (h.mirrored k') (.put a)
  had b hb := by
    rcases (Database.has_write_iff (w := .put a)).mp hb with heq | ⟨-, hb⟩
    · cases heq
      exact List.mem_cons_self
    · exact List.mem_cons_of_mem _ (h.had b hb)
  cached k' := (h.cached k').mono fun _ => List.mem_cons_of_mem _

theorem delete (h : Keeps bundle stored c db written) (k : Kind) (id : Uuid) :
    Keeps bundle stored c (db.delete k id) written where
  bootstrap := h.bootstrap
  stored := h.stored
  mirrored k' := Database.exists_mirrors_write (h.mirrored k') (.delete k id)
  had b hb := by
    rcases (Database.has_write_iff (w := .delete k id)).mp hb with heq | ⟨-, hb⟩
    · cases heq
    · exact h.had b hb
  cached := h.cached

theorem save (h : Keeps bundle stored c db written) (key : String) (state : Json) :
    Keeps bundle stored c (db.saveState key state) written where
  bootstrap := h.bootstrap
  stored := h.stored
  mirrored k := by
    obtain ⟨t, ht⟩ := h.mirrored k
    exact ⟨t, ht.works, ht.tagged, ht.keyed, ht.entries⟩
  had := h.had
  cached := h.cached

end Keeps

/-- Every run keeps to what has been shipped and put. -/
theorem Run.keeps (h : Run bundle stored limit c db written) :
    Keeps bundle stored c db written := by
  induction h with
  | start => exact .new bundle stored limit
  | ask _ k cancel call ih => exact ih.asked k cancel call
  | put _ a ih => exact ih.put a
  | delete _ k id ih => exact ih.delete k id
  | save _ key state ih => exact ih.save key state

end Catalog

end Signpost
