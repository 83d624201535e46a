import Signpost.Proofs.Catalog.Runs
import Signpost.Proofs.Resolver.Shadowing

/-!
# What is listed and what is found

A listing joins what is shipped with what the database has, and a look-up may be answered from a
cache that was filled at any time before.  The two agree all the same: a listing caches whatever it
lists, also in place of older copies, and a shipped definition comes first in both.  So right after
a listing every look-up of what is listed finds just that.

## Main definitions

* `Bundle.shipped?`: the definition that is shipped under an identifier.
* `Resolver.NoneFails`: no source fails at a question.
* `Catalog.Uppermost`: the definitions that are to be listed.

## Main results

* `Catalog.all_eq`: what a listing gives, and what it leaves cached.
* `Catalog.noneFails_all_iff`, `Catalog.noneFails_find_iff`: when no source fails.
* `Catalog.Keeps.find_eq_found`: a look-up of what is shipped, or cached.
* `Catalog.Keeps.of_found`: whatever is found is of its own kind.
* `Catalog.Run.finds_what_is_listed`
-/

namespace Signpost

open Resolver (copy?)

/-! ## What is shipped -/

theorem MemorySource.get?_ofList_eq_copy? {α : Type} [Definition α] (name : String)
    (definitions : List α) (id : Uuid) :
    (ofList name definitions).cache.get? id = copy? id definitions.reverse := by
  show (Cache.empty.put (items definitions)).get? id = _
  rw [Cache.get?_put, items, ← List.map_reverse]
  induction definitions.reverse with
  | nil => rfl
  | cons a rest ih =>
    rw [List.map_cons, Dict.find?, Resolver.copy?_cons, ← ih]
    split <;> rfl

/-- The definition that is shipped under an identifier: the last one if there are several. -/
def Bundle.shipped? (b : Bundle) (k : Kind) (id : Uuid) : Option k.Payload :=
  copy? id (b.ofKind k).reverse

theorem Bundle.isSome_shipped? {b : Bundle} {k : Kind} {a : k.Payload} (ha : a ∈ b.ofKind k) :
    (b.shipped? k (Definition.id a)).isSome = true :=
  Resolver.copy?_isSome_iff.mpr (List.mem_map_of_mem (List.mem_reverse.mpr ha))

/-! ## What the database has -/

namespace Database.Mirrors

variable {k : Kind} {db : Database} {t : RecordTable k.Payload} {a : k.Payload} {id : Uuid}

theorem copy?_all_eq_some_iff (h : db.Mirrors k t) :
    copy? id (t.all.map Record.payload) = some a ↔ db.Has a ∧ Definition.id a = id := by
  have hmem : ∀ b, b ∈ t.all.map Record.payload ↔
      b ∈ (t.holdings h.tagged).definitions ∧ True := fun b => by
    rw [and_true, RecordTable.mem_map_payload_all_iff]
  rw [Resolver.copy?_of_mem_iff hmem, and_true, Holdings.get?_eq_some_iff, h.mem_holdings_iff]

/-- Whatever the database has is cached once all records have been remembered. -/
theorem probe_remember_all (h : db.Mirrors k t) (s : PersistentSource k.Payload) (ha : db.Has a) :
    (s.remember t.all).probe (Definition.id a) = some a := by
  have hdistinct : ((t.all.map fun r => (r.id, r.payload)).map Prod.fst).Nodup := by
    rw [List.map_map]
    exact RecordTable.nodup_map_id_all h.tagged.keyed
  have hfetched : PersistentSource.fetched t.all (Definition.id a) = some a :=
    (Dict.find?_reverse_eq_some_iff hdistinct).mpr
      (List.mem_map.mpr ⟨Record.of a, h.has_iff.mp ha, rfl⟩)
  rw [PersistentSource.probe_remember, hfetched, Option.some_or]

end Database.Mirrors

/-- A definition that is found is cached, or held by the store. -/
theorem Backed.cached_or_held_of_find {α : Type} [Definition α] {now : Holdings α} {b : Backed α}
    (hshows : b.store.Shows now) {id : Uuid} {a : α} (h : (b.find id).1 = .ok (some a)) :
    b.source.probe id = some a ∨ now.get? id = some a := by
  rcases find_cases hshows id with
    ⟨a', hprobe, heq⟩ | ⟨-, ⟨e, -, heq⟩ | ⟨-, heq⟩ | ⟨a', hget, heq⟩⟩ <;> rw [heq] at h <;> cases h
  · exact .inl hprobe
  · exact .inr hget

/-- A look-up does not fail where the store does not. -/
theorem Backed.exists_find_eq {α : Type} {b : Backed α} {id : Uuid}
    (h : ∃ found, b.store.get id = .ok found) : ∃ found, (b.find id).1 = .ok found := by
  simp only [find, ask]
  cases b.source.probe id with
  | some a => exact ⟨_, rfl⟩
  | none =>
    obtain ⟨found, hget⟩ := h
    simp only [hget]
    cases found <;> exact ⟨_, rfl⟩

/-! ## Sources that do not fail -/

namespace Resolver

variable {σ α β : Type}

/-- No source fails at a question, or runs out of time, or is given up. -/
def NoneFails (r : Resolver σ) (cancel : Cancel) (ask : σ → Reply σ β) : Prop :=
  ∀ s ∈ r.sources, ∃ d b, (ask s).course.Answers r.limit d b ∧ cancel.before d = false

end Resolver

namespace Catalog

open Resolver (NoneFails)

variable {bundle : Bundle} {stored : Bool} {limit : Option Nat} {c : Catalog} {db : Database}
  {written : List ((k : Kind) × k.Payload)} {k : Kind} {cancel : Cancel} {id : Uuid}
  {a : k.Payload}

/-- Whoever waits for an answer has not been told to give up before. -/
theorem before_eq_false {β : Type} {ask : Layer k.Payload → Reply (Layer k.Payload) β}
    (h : (c.resolver db k).NoneFails cancel ask) : cancel.before 0 = false := by
  obtain ⟨d, -, -, hcancel⟩ := h (.memory (c.bootstrap k)) List.mem_cons_self
  exact Cancel.before_eq_false_of_le (Nat.zero_le d) hcancel

/-- A definition is to be listed: it is shipped, or the database has it and none with its identifier
is shipped. -/
def Uppermost (bundle : Bundle) (stored : Bool) (db : Database) (a : k.Payload) : Prop :=
  bundle.shipped? k (Definition.id a) = some a ∨
    bundle.shipped? k (Definition.id a) = none ∧ stored = true ∧ db.Has a

/-- What is shipped, or in the database, has its identifier listed. -/
theorem exists_uppermost (ha : a ∈ bundle.ofKind k ∨ stored = true ∧ db.Has a) :
    ∃ b : k.Payload, Uppermost bundle stored db b ∧ Definition.id b = Definition.id a := by
  cases hshipped : bundle.shipped? k (Definition.id a) with
  | some b =>
    have hid := Resolver.id_of_copy? hshipped
    exact ⟨b, .inl (hid ▸ hshipped), hid⟩
  | none =>
    rcases ha with ha | ha
    · have hsome := Bundle.isSome_shipped? ha
      rw [hshipped] at hsome
      cases hsome
    · exact ⟨a, .inr ⟨hshipped, ha⟩, rfl⟩

theorem query_all_behind {t : RecordTable k.Payload} (ht : db.Mirrors k t) :
    (c.behind db k).query .all = (.ok (t.all.map Record.payload),
      ⟨(c.cached k).remember t.all, db.store k, [.query (some .all)]⟩) := by
  simp only [Backed.query, Backed.ask, behind, ht.query_all]
  rfl

/-- If both layers answer at once, none fails unless the caller was told to give up before. -/
theorem noneFails_iff {β : Type} {ask : Layer k.Payload → Reply (Layer k.Payload) β}
    (hmemory : ∃ b, (ask (.memory (c.bootstrap k))).course.Answers c.limit 0 b)
    (hbacked : ∃ b, (ask (.backed (c.behind db k))).course.Answers c.limit 0 b) :
    (c.resolver db k).NoneFails cancel ask ↔ cancel.before 0 = false := by
  refine ⟨before_eq_false, fun hcancel layer hlayer => ⟨0, ?_⟩⟩
  rcases mem_sources_iff.mp hlayer with rfl | ⟨-, rfl⟩
  · exact hmemory.imp fun b hanswers => ⟨hanswers, hcancel⟩
  · exact hbacked.imp fun b hanswers => ⟨hanswers, hcancel⟩

theorem noneFails_all_iff {t : RecordTable k.Payload} (ht : db.Mirrors k t) :
    (c.resolver db k).NoneFails cancel Source.all ↔ cancel.before 0 = false :=
  noneFails_iff ⟨_, Course.answers_prompt c.limit _⟩
    ⟨_, Backed.answers_reply (congrArg Prod.fst (query_all_behind ht)) c.limit⟩

theorem noneFails_find_iff {t : RecordTable k.Payload} (ht : db.Mirrors k t) :
    (c.resolver db k).NoneFails cancel (Source.find id) ↔ cancel.before 0 = false := by
  obtain ⟨found, hfound⟩ := Backed.exists_find_eq (b := c.behind db k) (ht.exists_get_eq id)
  exact noneFails_iff ⟨_, Course.answers_prompt c.limit _⟩
    ⟨found, Backed.answers_reply hfound c.limit⟩

/-! ## Listings -/

/-- What a listing gives, and what it leaves cached.  It comes to an end at once. -/
theorem all_eq {t : RecordTable k.Payload} (ht : db.Mirrors k t)
    (hcancel : cancel.before 0 = false) : c.all db k cancel =
      (⟨Resolver.distinct [] ((c.bootstrap k).cache.values.values ++
          if c.stored then t.all.map Record.payload else []), some 0⟩,
        if c.stored then { c with cached := replace c.cached k ((c.cached k).remember t.all) }
        else c) := by
  have hmemory : Resolver.attempt c.limit cancel 0 (Layer.memory (c.bootstrap k)) Source.all =
      (⟨.ok (c.bootstrap k).cache.values.values, some (0 + 0)⟩, .memory (c.bootstrap k)) :=
    Resolver.attempt_of_answers (Course.answers_prompt c.limit _) hcancel
  have hbacked : Resolver.attempt c.limit cancel 0 (Layer.backed (c.behind db k)) Source.all =
      (⟨.ok (t.all.map Record.payload), some (0 + 0)⟩, .backed ((c.behind db k).query .all).2) :=
    Resolver.attempt_of_answers
      (Backed.answers_reply (congrArg Prod.fst (query_all_behind ht)) c.limit) hcancel
  rw [query_all_behind ht, behind] at hbacked
  rw [all, Resolver.all, Resolver.fanOut, resolver]
  by_cases hstored : c.stored = true
  · simp [if_pos hstored, hmemory, hbacked, Resolver.answered, Resolver.later, takeBackAll,
      takeBack]
  · simp [if_neg hstored, hmemory, Resolver.answered, Resolver.later, takeBackAll, takeBack]

/-- Whatever a listing has taken from the database is cached after it. -/
theorem probe_all {t : RecordTable k.Payload} (ht : db.Mirrors k t)
    (hcancel : cancel.before 0 = false) (hstored : c.stored = true) (ha : db.Has a) :
    ((c.all db k cancel).2.cached k).probe (Definition.id a) = some a := by
  simp only [all_eq ht hcancel, if_pos hstored, replace_same]
  exact ht.probe_remember_all (c.cached k) ha

namespace Keeps

theorem get?_bootstrap (h : Keeps bundle stored c db written) (id : Uuid) :
    (c.bootstrap k).cache.get? id = bundle.shipped? k id := by
  rw [h.bootstrap, MemorySource.get?_ofList_eq_copy?, Bundle.shipped?]

/-- A listing gives just what is to be listed. -/
theorem mem_all_iff (h : Keeps bundle stored c db written) (hcancel : cancel.before 0 = false) :
    a ∈ (c.all db k cancel).1.value ↔ Uppermost bundle stored db a := by
  obtain ⟨t, ht⟩ := h.mirrored k
  have hkeyed : (c.bootstrap k).Keyed := by
    rw [h.bootstrap]
    exact MemorySource.keyed_ofList _ _
  rw [all_eq ht hcancel, Resolver.mem_distinct, and_iff_right List.not_mem_nil]
  -- the first definition with its identifier is shipped, or comes from the database
  rw [copy?, List.find?_append, ← copy?, ← copy?, Option.or_eq_some_iff,
    Resolver.copy?_values hkeyed, h.get?_bootstrap, Uppermost]
  refine or_congr_right (and_congr_right fun _ => ?_)
  rw [h.stored]
  cases stored with
  | false => simp [copy?]
  | true => simp [ht.copy?_all_eq_some_iff]

theorem nodup_all (h : Keeps bundle stored c db written) (hcancel : cancel.before 0 = false) :
    ((c.all db k cancel).1.value.map Definition.id).Nodup := by
  obtain ⟨t, ht⟩ := h.mirrored k
  rw [all_eq ht hcancel, Resolver.map_id_distinct]
  exact Cache.nodup_firsts _ _

/-! ## Look-ups -/

/-- What is shipped is found, and so is what is cached if nothing is shipped in its place. -/
theorem find_eq_found (h : Keeps bundle stored c db written) (hcancel : cancel.before 0 = false)
    (hfirst : bundle.shipped? k id = some a ∨
      bundle.shipped? k id = none ∧ stored = true ∧ (c.cached k).probe id = some a) :
    (c.find db k cancel id).1 = ⟨.found a, some 0⟩ := by
  have hsearch := (c.resolver db k).searches_find cancel id
  -- the layer in memory is asked first
  have hmemory : ∀ found, bundle.shipped? k id = found →
      (Source.find id (Layer.memory (c.bootstrap k))).course.Answers c.limit 0 found := by
    rintro _ rfl
    rw [← h.get?_bootstrap]
    exact Course.answers_prompt c.limit _
  rcases hfirst with hshipped | ⟨hnone, hstored, hprobe⟩
  · exact (hsearch.of_isFirst [] _ _ a 0 rfl
      ⟨0, [], 0, .nil 0, hmemory _ hshipped, hcancel, rfl⟩).1
  -- it does not have the definition, so the search goes on to the layer that has it cached
  · have hbacked : ((c.behind db k).find id).1 = .ok (some a) := by
      rw [Backed.find, show (c.behind db k).source.probe id = some a from hprobe]
    refine (hsearch.of_isFirst [.memory (c.bootstrap k)] (.backed (c.behind db k)) [] a 0 ?_ ?_).1
    · rw [resolver, h.stored, hstored]
      rfl
    · exact ⟨0, [], 0, .lacks (hmemory _ hnone) hcancel (.nil 0),
        Backed.answers_reply hbacked c.limit, hcancel, rfl⟩

/-- Whatever is found has the identifier, and was shipped or put as a definition of the kind. -/
theorem of_found (h : Keeps bundle stored c db written)
    (hfound : (c.find db k cancel id).1.value = .found a) :
    Definition.id a = id ∧ (a ∈ bundle.ofKind k ∨ ⟨k, a⟩ ∈ written) := by
  obtain ⟨before, s, after, t, hsources, -, -, d, -, ⟨-, hanswer⟩, -⟩ :=
    (((c.resolver db k).searches_find cancel id).found_iff a).mp hfound
  have hmem : s ∈ (c.resolver db k).sources := by
    rw [hsources]
    exact List.mem_append_right before List.mem_cons_self
  rcases mem_sources_iff.mp hmem with rfl | ⟨-, rfl⟩
  · have hshipped : bundle.shipped? k id = some a :=
      (h.get?_bootstrap id).symm.trans (Except.ok.inj hanswer)
    exact ⟨Resolver.id_of_copy? hshipped,
      .inl (List.mem_reverse.mp (List.mem_of_find?_eq_some hshipped))⟩
  · obtain ⟨t, ht⟩ := h.mirrored k
    rcases Backed.cached_or_held_of_find (b := c.behind db k) ht.shows hanswer with hprobe | hget
    · exact ((h.cached k).of_probe hprobe).symm.imp_right .inr
    · obtain ⟨ha, hid⟩ := Holdings.get?_eq_some_iff.mp hget
      exact ⟨hid, .inr (h.had a (ht.mem_holdings_iff.mp ha))⟩

end Keeps

/-- **Right after a listing, look-ups find what is listed.**  In whatever run of a catalog and its
database, whatever was cached at any time before, a listing of the definitions of a kind at which no
source fails comes to an end.  It has no identifier twice, has one for every definition that is
shipped and for every one that the database has, and gives of these the shipped one, the last if
there are several, or else the one that the database has.  A look-up of anything listed, right after
that, at which no source fails, finds just this.  And whatever is found before that or then, of any
kind, has the identifier that was asked for and was shipped or put as a definition of this kind. -/
theorem Run.finds_what_is_listed (h : Run bundle stored limit c db written) (k : Kind)
    (hlists : (c.resolver db k).NoneFails cancel Source.all) :
    ∃ listed after, c.all db k cancel = (⟨listed, some 0⟩, after) ∧
      (listed.map Definition.id).Nodup ∧
      (∀ a ∈ bundle.ofKind k, Definition.id a ∈ listed.map Definition.id) ∧
      (stored = true → ∀ a : k.Payload, db.Has a → Definition.id a ∈ listed.map Definition.id) ∧
      (∀ a, a ∈ listed ↔ Uppermost bundle stored db a) ∧
      (∀ a ∈ listed, ∀ cancel',
        (after.resolver db k).NoneFails cancel' (Source.find (Definition.id a)) →
          (after.find db k cancel' (Definition.id a)).1 = ⟨.found a, some 0⟩) ∧
      ∀ (k' : Kind) cancel' id (a : k'.Payload), (c.find db k' cancel' id).1.value = .found a ∨
        (after.find db k' cancel' id).1.value = .found a →
          Definition.id a = id ∧ (a ∈ bundle.ofKind k' ∨ ⟨k', a⟩ ∈ written) := by
  have hkeeps := h.keeps
  have hcancel := before_eq_false hlists
  have hafter : Keeps bundle stored (c.all db k cancel).2 db written := hkeeps.asked k cancel .all
  have hmem : ∀ a, a ∈ (c.all db k cancel).1.value ↔ Uppermost bundle stored db a := fun a =>
    hkeeps.mem_all_iff hcancel
  have hids : ∀ a, (a ∈ bundle.ofKind k ∨ stored = true ∧ db.Has a) →
      Definition.id a ∈ (c.all db k cancel).1.value.map Definition.id := by
    intro a ha
    obtain ⟨b, hb, hid⟩ := exists_uppermost ha
    exact hid ▸ List.mem_map_of_mem ((hmem b).mpr hb)
  obtain ⟨t, ht⟩ := hkeeps.mirrored k
  have hends : (c.all db k cancel).1.ends = some 0 := by rw [all_eq ht hcancel]
  refine ⟨(c.all db k cancel).1.value, (c.all db k cancel).2, by rw [← hends],
    hkeeps.nodup_all hcancel, fun a ha => hids a (.inl ha), fun hstored a ha =>
    hids a (.inr ⟨hstored, ha⟩), hmem, fun a ha cancel' hfinds => ?_,
    fun k' cancel' id a hfound => hfound.elim hkeeps.of_found hafter.of_found⟩
  refine hafter.find_eq_found (before_eq_false hfinds) ?_
  -- a listed definition is shipped, or has just been cached
  rcases (hmem a).mp ha with hshipped | ⟨hnone, hstored, hhas⟩
  · exact .inl hshipped
  · exact .inr ⟨hnone, hstored, probe_all ht hcancel (hkeeps.stored.trans hstored) hhas⟩

/-! ## A renamed signal -/

open Backed (opened reopened)

/-- Two signals with one identifier. -/
def closed : Signal := ⟨.ofNat 2, "closed"⟩

@[inherit_doc closed]
def shut : Signal := ⟨.ofNat 2, "shut"⟩

/-- A bundle of one of them. -/
def shippedClosed : Bundle := { Bundle.empty with signals := [closed] }

/-- The database with the other one, and with a signal that is not shipped. -/
def beforeRenaming : Database :=
  ((Database.empty.put (k := .signal) opened).1.put (k := .signal) shut).1

/-- The catalog after the signals have been listed. -/
def holdingOpened : Catalog :=
  ((new shippedClosed true none).all beforeRenaming .signal .never).2

/-- The database after the signal that is not shipped has been renamed, and a workflow has been put
under its identifier. -/
def afterRenaming : Database :=
  ((beforeRenaming.put (k := .signal) reopened).1.put (k := .workflow) Database.onboarding).1

theorem run_beforeRenaming : Run shippedClosed true none (new shippedClosed true none)
    beforeRenaming [⟨.signal, shut⟩, ⟨.signal, opened⟩] := (Run.start.put _).put _

theorem run_holdingOpened : Run shippedClosed true none holdingOpened afterRenaming
    [⟨.workflow, Database.onboarding⟩, ⟨.signal, reopened⟩, ⟨.signal, shut⟩, ⟨.signal, opened⟩] :=
  ((run_beforeRenaming.all .signal .never).put _).put _

theorem has_opened : beforeRenaming.Has (k := .signal) opened :=
  (Database.has_put _ _).put (by decide)

theorem has_reopened : afterRenaming.Has (k := .signal) reopened :=
  (Database.has_put _ _).put (by decide)

/-- A signal that was listed and then renamed is found under its old name, and under its new name
as soon as the signals have been listed again; a shipped signal hides the other one with its
identifier. -/
theorem finds_what_is_listed_renamed :
    (holdingOpened.find afterRenaming .signal .never (.ofNat 1)).1 = ⟨.found opened, some 0⟩ ∧
    ∃ listed after, holdingOpened.all afterRenaming .signal .never = (⟨listed, some 0⟩, after) ∧
      reopened ∈ listed ∧ opened ∉ listed ∧ closed ∈ listed ∧ shut ∉ listed ∧
      (after.find afterRenaming .signal .never (.ofNat 1)).1 = ⟨.found reopened, some 0⟩ ∧
      (after.find afterRenaming .signal .never (.ofNat 2)).1 = ⟨.found closed, some 0⟩ := by
  -- the first listing has cached the old name
  have hstale : (holdingOpened.cached .signal).probe (.ofNat 1) = some opened := by
    obtain ⟨t, ht⟩ := run_beforeRenaming.keeps.mirrored .signal
    exact probe_all ht rfl rfl has_opened
  obtain ⟨t, ht⟩ := run_holdingOpened.keeps.mirrored .signal
  obtain ⟨listed, after, hlisted, hnodup, -, -, hmem, hfind, -⟩ :=
    run_holdingOpened.finds_what_is_listed .signal
      ((noneFails_all_iff ht).mpr (Cancel.before_never 0))
  have hreopened : reopened ∈ listed := (hmem _).mpr (.inr ⟨rfl, rfl, has_reopened⟩)
  have hclosed : closed ∈ listed := (hmem _).mpr (.inl rfl)
  refine ⟨run_holdingOpened.keeps.find_eq_found rfl (.inr ⟨rfl, rfl, hstale⟩), listed, after,
    hlisted, hreopened, fun hopened => ?_, hclosed, fun hshut => ?_,
    hfind _ hreopened .never ((noneFails_find_iff ht).mpr rfl),
    hfind _ hclosed .never ((noneFails_find_iff ht).mpr rfl)⟩
  -- no identifier is listed twice
  · exact absurd (List.inj_on_of_nodup_map hnodup hopened hreopened rfl) (by decide)
  · exact absurd (List.inj_on_of_nodup_map hnodup hclosed hshut rfl) (by decide)

end Catalog

end Signpost
