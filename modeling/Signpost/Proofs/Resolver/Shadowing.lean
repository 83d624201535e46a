import Signpost.Proofs.Resolver.Agreement

/-!
# Look-ups by a filter

A filter is applied inside every source, before the answers are joined.  So a look-up by a filter
gives, of the definitions with one identifier, the first one that is selected, even where another
one comes before it and hides it from every look-up by identifiers.  It gives just the selected ones
of all definitions if whatever is selected is hidden only by what is selected as well.

## Main definitions

* `Resolver.Selects`: a source that answers every question from one list of definitions.
* `Resolver.FirstsSelected`: no definition that is selected is hidden by one that is not.

## Main results

* `Resolver.filter_eraseDupsBy_eq_iff`: when it does not matter which comes first, to select or to
  join.
* `Resolver.selects_before_joining`
* `Resolver.selected_though_hidden`
-/

namespace Signpost

variable {α : Type} [Definition α]

namespace Resolver

/-! ## To select and to join -/

section Lists

variable {p : α → Bool} {l : List α} {a : α} {seen seen' : List Uuid}

theorem mem_eraseDupsBy_sameId : a ∈ l.eraseDupsBy sameId ↔ copy? (Definition.id a) l = some a := by
  rw [← distinct_nil, mem_distinct, and_iff_right List.not_mem_nil]

/-- Of the identifiers that have occurred, only those of the list matter. -/
theorem distinct_congr (h : ∀ a ∈ l, Definition.id a ∈ seen ↔ Definition.id a ∈ seen') :
    distinct seen l = distinct seen' l := by
  rw [distinct_eq_eraseDupsBy, distinct_eq_eraseDupsBy]
  congr 1
  exact List.filter_congr fun a ha => by simp only [h a ha]

theorem copy?_cons (id : Uuid) (a : α) (l : List α) :
    copy? id (a :: l) = if Definition.id a = id then some a else copy? id l := by
  rw [copy?, List.find?_cons]
  split <;> simp_all [copy?]

/-- To select from what is joined and to join what is selected is the same, if the first definition
with the identifier of a selected one is always selected. -/
theorem distinct_filter (h : ∀ a ∈ l, p a = true → Definition.id a ∉ seen →
      ∃ b, copy? (Definition.id a) l = some b ∧ p b = true) :
    distinct seen (l.filter p) = (distinct seen l).filter p := by
  induction l generalizing seen with
  | nil => rfl
  | cons a rest ih =>
    have hrest : ∀ {seen' : List Uuid}, (∀ id ∈ seen, id ∈ seen') → Definition.id a ∈ seen' →
        ∀ b ∈ rest, p b = true → Definition.id b ∉ seen' →
          ∃ c, copy? (Definition.id b) rest = some c ∧ p c = true := by
      intro seen' hsub ha b hb hpb hnew
      obtain ⟨c, hcopy, hpc⟩ :=
        h b (List.mem_cons_of_mem a hb) hpb fun hmem => hnew (hsub _ hmem)
      have hne : Definition.id a ≠ Definition.id b := fun hid => hnew (hid ▸ ha)
      rw [copy?_cons, if_neg hne] at hcopy
      exact ⟨c, hcopy, hpc⟩
    rw [distinct]
    by_cases hseen : Definition.id a ∈ seen
    · rw [if_pos hseen, ← ih (hrest (fun _ => id) hseen)]
      by_cases hp : p a = true
      · rw [List.filter_cons_of_pos hp, distinct, if_pos hseen]
      · rw [List.filter_cons_of_neg hp]
    · have hothers := ih (hrest (fun _ => List.mem_cons_of_mem (Definition.id a)) List.mem_cons_self)
      rw [if_neg hseen]
      by_cases hp : p a = true
      · rw [List.filter_cons_of_pos hp, List.filter_cons_of_pos hp, distinct, if_neg hseen, hothers]
      -- a definition that is not selected hides none that is
      · rw [List.filter_cons_of_neg hp, List.filter_cons_of_neg hp, ← hothers]
        refine distinct_congr fun b hb => ?_
        obtain ⟨hb, hpb⟩ := List.mem_filter.mp hb
        rw [List.mem_cons, or_iff_right]
        intro hid
        obtain ⟨c, hcopy, hpc⟩ := h b (List.mem_cons_of_mem a hb) hpb (hid ▸ hseen)
        rw [copy?_cons, if_pos hid.symm] at hcopy
        cases hcopy
        exact hp hpc

/-- It does not matter which comes first, to select or to join, just if the first definition with
the identifier of a selected one is always selected. -/
theorem filter_eraseDupsBy_eq_iff :
    (l.filter p).eraseDupsBy sameId = (l.eraseDupsBy sameId).filter p ↔
      ∀ a ∈ l, p a = true → ∃ b, copy? (Definition.id a) l = some b ∧ p b = true := by
  constructor
  · intro heq a ha hp
    have hsome : (copy? (Definition.id a) (l.filter p)).isSome = true :=
      copy?_isSome_iff.mpr (List.mem_map_of_mem (List.mem_filter.mpr ⟨ha, hp⟩))
    obtain ⟨b, hcopy⟩ := Option.isSome_iff_exists.mp hsome
    have hid := id_of_copy? hcopy
    have hmem : b ∈ (l.filter p).eraseDupsBy sameId := mem_eraseDupsBy_sameId.mpr (hid ▸ hcopy)
    rw [heq, List.mem_filter, mem_eraseDupsBy_sameId, hid] at hmem
    exact ⟨b, hmem⟩
  · intro h
    rw [← distinct_nil, ← distinct_nil]
    exact distinct_filter fun a ha hp _ => h a ha hp

theorem eraseDupsBy_sameId_eq_nil_iff : l.eraseDupsBy sameId = [] ↔ l = [] := by
  cases l with
  | nil => exact Iff.rfl
  | cons a rest => simp [List.eraseDupsBy_cons]

/-- What is left of the selected definitions is, of every identifier, the first one that is
selected. -/
theorem mem_eraseDupsBy_filter_iff : a ∈ (l.filter p).eraseDupsBy sameId ↔
    ∃ before after, l = before ++ a :: after ∧ p a = true ∧
      ∀ b ∈ before, Definition.id b = Definition.id a → p b = false := by
  rw [mem_eraseDupsBy_sameId, copy?, List.find?_filter, List.find?_eq_some_iff_append]
  constructor
  · rintro ⟨hp, before, after, hsplit, hbefore⟩
    refine ⟨before, after, hsplit, by simpa using hp, fun b hb hid => ?_⟩
    simpa [hid] using hbefore b hb
  · rintro ⟨before, after, hsplit, hp, hbefore⟩
    refine ⟨by simpa using hp, before, after, hsplit, fun b hb => ?_⟩
    by_cases hid : Definition.id b = Definition.id a
    · simp [hbefore b hb hid]
    · simp [hid]

end Lists

/-! ## Sources that select -/

/-- What is found is some definition of a list that is selected, or there is no such definition. -/
def Picks (f : Filter α) (l : List α) (found : Option α) : Prop :=
  (found = none → l.filter (Definition.matches f) = []) ∧
    ∀ a, found = some a → a ∈ l.filter (Definition.matches f)

/-- A source answers every question in time from one list of definitions. -/
structure Selects {σ : Type} [Source σ α] (limit : Option Nat) (f : Filter α) (s : σ)
    (l : List α) : Prop where
  find : ∀ id, (Source.find id s).course.Yields limit (some (copy? id l))
  all : (Source.all s).course.Yields limit (some l)
  /-- It selects from all that it has. -/
  select : (Source.select f s).course.Yields limit (some (l.filter (Definition.matches f)))
  selectFirst : ∃ found, (Source.selectFirst f s).course.Yields limit (some found) ∧ Picks f l found

/-- In a source in memory, an identifier has the definition that it keeps under it. -/
theorem copy?_values {s : MemorySource α} (h : s.Keyed) (id : Uuid) :
    copy? id s.cache.values.values = s.cache.get? id := by
  have hvalue : ∀ a, copy? id s.cache.values.values = some a → s.cache.get? id = some a := by
    intro a hcopy
    obtain ⟨key, hget⟩ := (s.cache.mem_values_iff a).mp (List.mem_of_find?_eq_some hcopy)
    rwa [← id_of_copy? hcopy, h key a hget]
  cases hcopy : copy? id s.cache.values.values with
  | some a => exact (hvalue a hcopy).symm
  | none =>
    refine (Option.eq_none_iff_forall_ne_some.mpr fun a hget => ?_).symm
    refine copy?_eq_none_iff.mp hcopy (List.mem_map.mpr ⟨a, ?_, h id a hget⟩)
    exact (s.cache.mem_values_iff a).mpr ⟨id, hget⟩

/-- A source in memory selects from what it keeps. -/
theorem Selects.memory {s : MemorySource α} (hkeyed : s.Keyed) (limit : Option Nat)
    (f : Filter α) : Selects limit f s s.cache.values.values where
  find id := ⟨0, copy?_values hkeyed id ▸ Course.answers_prompt limit _⟩
  all := ⟨0, Course.answers_prompt limit _⟩
  select := ⟨0, Course.answers_prompt limit _⟩
  selectFirst := by
    refine ⟨_, ⟨0, Course.answers_prompt limit _⟩, fun hnone => ?_, fun a hfound => ?_⟩
    · exact List.filter_eq_nil_iff.mpr fun a ha => List.find?_eq_none.mp hnone a ha
    · exact List.mem_filter.mpr ⟨List.mem_of_find?_eq_some hfound, List.find?_some hfound⟩

/-- A persistent source whose table is in order selects from what the table has. -/
theorem Selects.backed {t : RecordTable α} {b : Backed α} (hstore : b.store = t.store)
    (ht : t.Tagged) (hup : t.failure = none)
    (hholds : b.source.Holds (· ∈ (t.holdings ht).definitions)) (limit : Option Nat)
    (f : Filter α) : Selects limit f b (t.all.map Record.payload) := by
  have hshows : b.store.Shows (t.holdings ht) := hstore ▸ RecordTable.shows ht
  have hstoreUp : b.store.Up := hstore ▸ RecordTable.up hup
  have hmem : ∀ a, a ∈ t.all.map Record.payload ↔ a ∈ (t.holdings ht).definitions := fun _ =>
    RecordTable.mem_map_payload_all_iff ht
  have hquery := fun f => Backed.answers_reply (Backed.query_of_table hstore hup f) limit
  constructor
  case find =>
    intro id
    have hcopy : copy? id (t.all.map Record.payload) = (t.holdings ht).get? id := by
      ext a
      rw [copy?_of_mem_iff fun a => (hmem a).trans (and_iff_left trivial).symm,
        and_iff_left trivial]
    rw [hcopy]
    exact ⟨0, Backed.answers_reply (Backed.find_of_up hshows hholds hstoreUp id) limit⟩
  case all =>
    have hall := hquery .all
    rw [List.filter_eq_self.mpr fun a _ => Holdings.matches_all a] at hall
    exact ⟨0, hall⟩
  case select => exact ⟨0, hquery f⟩
  case selectFirst =>
    have hall : b.store.SelectsAll (t.holdings ht) f := hstore ▸ RecordTable.selectsAll ht f
    obtain ⟨found, hfound, hsome, hmatches⟩ := Backed.queryFirst_of_up hshows hholds hstoreUp hall
    refine ⟨found, ⟨0, Backed.answers_reply hfound limit⟩, fun hnone => ?_, fun a ha => ?_⟩
    · refine List.filter_eq_nil_iff.mpr fun a ha hp => ?_
      have hex := hsome.mpr ⟨a, (hmem a).mp ha, hp⟩
      rw [hnone] at hex
      cases hex
    · obtain ⟨ha, hp⟩ := hmatches a ha
      exact List.mem_filter.mpr ⟨(hmem a).mpr ha, hp⟩

/-- A layer selects as its source does. -/
theorem Selects.layer_memory {s : MemorySource α} {limit : Option Nat} {f : Filter α} {l : List α}
    (h : Selects limit f s l) : Selects limit f (Layer.memory s) l :=
  ⟨h.find, h.all, h.select, h.selectFirst⟩

@[inherit_doc Selects.layer_memory]
theorem Selects.layer_backed {b : Backed α} {limit : Option Nat} {f : Filter α} {l : List α}
    (h : Selects limit f b l) : Selects limit f (Layer.backed b) l :=
  ⟨h.find, h.all, h.select, h.selectFirst⟩

section Layers

variable {σ : Type} [Source σ α] {r : Resolver σ} {f : Filter α} {layers : List (List α)}

omit [Source σ α] [Definition α] in
/-- Items that are there for every item of a list make up a list. -/
theorem exists_forall₂ {κ β : Type} {R : σ → κ → Prop} {S : σ → β → Prop} {T : κ → β → Prop}
    {l : List σ} {l' : List κ} (h : List.Forall₂ R l l')
    (hex : ∀ x y, R x y → ∃ b, S x b ∧ T y b) :
    ∃ bs, List.Forall₂ S l bs ∧ List.Forall₂ T l' bs := by
  induction h with
  | nil => exact ⟨[], .nil, .nil⟩
  | cons hhead _ ih =>
    obtain ⟨b, hs, ht⟩ := hex _ _ hhead
    obtain ⟨bs, hss, hts⟩ := ih
    exact ⟨b :: bs, .cons hs hss, .cons ht hts⟩

omit [Source σ α] in
/-- What is picked first comes from the first layer of which anything is selected. -/
theorem findSome?_picks {picked : List (Option α)} (h : List.Forall₂ (Picks f) layers picked) :
    (picked.findSome? id = none → layers.flatten.filter (Definition.matches f) = []) ∧
      ∀ a, picked.findSome? id = some a → ∃ before l after, layers = before ++ l :: after ∧
        a ∈ l ∧ Definition.matches f a = true ∧
        before.flatten.filter (Definition.matches f) = [] := by
  induction h with
  | nil => exact ⟨fun _ => rfl, nofun⟩
  | @cons l found rest others hpicks _ ih =>
    rw [List.findSome?_cons]
    cases found with
    | some a =>
      obtain ⟨ha, hp⟩ := List.mem_filter.mp (hpicks.2 a rfl)
      refine ⟨nofun, ?_⟩
      rintro _ ⟨⟩
      exact ⟨[], l, rest, rfl, ha, hp, rfl⟩
    | none =>
      have hnone := hpicks.1 rfl
      refine ⟨fun hrest => ?_, fun a hrest => ?_⟩
      · rw [List.flatten_cons, List.filter_append, hnone, ih.1 hrest]
        rfl
      · obtain ⟨before, l', after, rfl, ha, hp, hbefore⟩ := ih.2 a hrest
        refine ⟨l :: before, l', after, rfl, ha, hp, ?_⟩
        rw [List.flatten_cons, List.filter_append, hnone, hbefore]
        rfl

omit [Source σ α] in
/-- A look-up of many definitions joins the lists that the sources answer with. -/
theorem fanOut_of_answers {ask : σ → Reply σ (List α)} {answers : List (List α)}
    (h : List.Forall₂ (fun s l => (ask s).course.Yields r.limit (some l)) r.sources answers) :
    ∃ t, (r.fanOut .never ask).1 = ⟨answers.flatten.eraseDupsBy sameId, some t⟩ := by
  have hyields : List.Forall₂ (fun s => (ask s).course.Yields r.limit) r.sources
      (answers.map some) := List.forall₂_map_right_iff.mpr h
  obtain ⟨t, heq⟩ := fanOut_of_yields hyields
  refine ⟨t, heq.trans ?_⟩
  rw [List.flatMap_map]
  simp

theorem find?_of_selects (h : List.Forall₂ (Selects r.limit f) r.sources layers) (id : Uuid) :
    ∃ t, (r.find? .never id).1 = ⟨copy? id layers.flatten, some t⟩ := by
  have hyields : List.Forall₂ (fun s => (Source.find id s).course.Yields r.limit) r.sources
      (layers.map fun l => some (copy? id l)) :=
    List.forall₂_map_right_iff.mpr (h.imp fun s l hselects => hselects.find id)
  obtain ⟨t, heq⟩ := find?_of_yields hyields
  refine ⟨t, heq.trans ?_⟩
  rw [List.findSome?_map, copy?, List.find?_flatten]
  rfl

theorem all_of_selects (h : List.Forall₂ (Selects r.limit f) r.sources layers) :
    ∃ t, (r.all .never).1 = ⟨layers.flatten.eraseDupsBy sameId, some t⟩ :=
  fanOut_of_answers (h.imp fun _ _ hselects => hselects.all)

theorem select_of_selects (h : List.Forall₂ (Selects r.limit f) r.sources layers) :
    ∃ t, (r.select .never f).1 =
      ⟨(layers.flatten.filter (Definition.matches f)).eraseDupsBy sameId, some t⟩ := by
  rw [List.filter_flatten]
  exact fanOut_of_answers <| List.forall₂_map_right_iff.mpr <|
    h.imp fun _ _ hselects => hselects.select

theorem selectFirst_of_selects (h : List.Forall₂ (Selects r.limit f) r.sources layers) :
    ∃ found t, (r.selectFirst .never f).1 = ⟨found, some t⟩ ∧
      (found = none → layers.flatten.filter (Definition.matches f) = []) ∧
      ∀ a, found = some a → ∃ before l after, layers = before ++ l :: after ∧ a ∈ l ∧
        Definition.matches f a = true ∧
        before.flatten.filter (Definition.matches f) = [] := by
  obtain ⟨picked, hyields, hpicks⟩ := exists_forall₂ h fun s l hselects => hselects.selectFirst
  obtain ⟨t, heq⟩ := selectFirst_of_yields (List.forall₂_map_right_iff.mpr hyields)
  rw [List.findSome?_map] at heq
  exact ⟨picked.findSome? id, t, heq, findSome?_picks hpicks⟩

/-- The first definition with an identifier is selected, if any definition with it is. -/
def FirstsSelected (f : Filter α) (l : List α) : Prop :=
  ∀ a ∈ l, Definition.matches f a = true →
    ∃ b, copy? (Definition.id a) l = some b ∧ Definition.matches f b = true

omit [Source σ α] in
/-- If the first definition with an identifier is selected whenever another one is, none hides what
comes from the first layer of which anything is selected. -/
theorem FirstsSelected.not_hidden {before after : List (List α)} {l : List α} {a : α}
    (h : FirstsSelected f (before ++ l :: after).flatten) (ha : a ∈ l)
    (hp : Definition.matches f a = true)
    (hbefore : before.flatten.filter (Definition.matches f) = []) :
    ∀ b ∈ before.flatten, Definition.id b ≠ Definition.id a := by
  intro b hb hid
  have hsome : (copy? (Definition.id a) before.flatten).isSome = true :=
    copy?_isSome_iff.mpr (List.mem_map.mpr ⟨b, hb, hid⟩)
  obtain ⟨c, hcopy⟩ := Option.isSome_iff_exists.mp hsome
  obtain ⟨c', hfirst, hp'⟩ := h a (by simp [ha]) hp
  -- what hides it comes before it, where nothing is selected
  rw [copy?, List.flatten_append, List.find?_append, ← copy?, hcopy, Option.some_or] at hfirst
  cases hfirst
  exact List.filter_eq_nil_iff.mp hbefore c (List.mem_of_find?_eq_some hcopy) hp'

/-- **A filter selects before answers are joined.**  Each source answers every question in time from
one list of definitions, and selects from all that it has.  Then a look-up by identifier and a
look-up of everything give of every identifier the first definition there is, and a look-up by a
filter the first one that is selected, though another one may hide it.  It gives what is selected of
all definitions just if the first definition with an identifier is selected whenever another one is;
and then what a look-up of one selected definition finds is not hidden either. -/
theorem selects_before_joining (h : List.Forall₂ (Selects r.limit f) r.sources layers) :
    (∀ id, ∃ t, (r.find? .never id).1 = ⟨copy? id layers.flatten, some t⟩) ∧
    (∃ t, (r.all .never).1 = ⟨layers.flatten.eraseDupsBy sameId, some t⟩) ∧
    (∃ t, (r.select .never f).1 =
      ⟨(layers.flatten.filter (Definition.matches f)).eraseDupsBy sameId, some t⟩) ∧
    (∀ a, a ∈ (r.select .never f).1.value ↔
      ∃ before after, layers.flatten = before ++ a :: after ∧ Definition.matches f a = true ∧
        ∀ b ∈ before, Definition.id b = Definition.id a → Definition.matches f b = false) ∧
    ((r.select .never f).1.value = (r.all .never).1.value.filter (Definition.matches f) ↔
      FirstsSelected f layers.flatten) ∧
    ∃ found t, (r.selectFirst .never f).1 = ⟨found, some t⟩ ∧
      (found = none ↔ (r.select .never f).1.value = []) ∧
      ∀ a, found = some a → ∃ before l after, layers = before ++ l :: after ∧ a ∈ l ∧
        Definition.matches f a = true ∧ before.flatten.filter (Definition.matches f) = [] ∧
        (FirstsSelected f layers.flatten →
          ∀ b ∈ before.flatten, Definition.id b ≠ Definition.id a) := by
  obtain ⟨t, hall⟩ := all_of_selects h
  obtain ⟨t', hselect⟩ := select_of_selects h
  obtain ⟨found, t'', hfirst, hnone, hfound⟩ := selectFirst_of_selects h
  refine ⟨find?_of_selects h, ⟨t, hall⟩, ⟨t', hselect⟩, fun a => ?_, ?_, found, t'', hfirst,
    ⟨fun heq => ?_, fun heq => ?_⟩, fun a heq => ?_⟩
  · rw [hselect]
    exact mem_eraseDupsBy_filter_iff
  · rw [hselect, hall]
    exact filter_eraseDupsBy_eq_iff
  · rw [hselect, hnone heq]
    rfl
  · rw [hselect] at heq
    have hnil := List.filter_eq_nil_iff.mp (eraseDupsBy_sameId_eq_nil_iff.mp heq)
    refine Option.eq_none_iff_forall_ne_some.mpr fun a heq' => ?_
    obtain ⟨before, l, after, rfl, ha, hp, -⟩ := hfound a heq'
    exact hnil a (by simp [ha]) hp
  · obtain ⟨before, l, after, rfl, ha, hp, hbefore⟩ := hfound a heq
    exact ⟨before, l, after, rfl, ha, hp, hbefore, fun hfirsts => hfirsts.not_hidden ha hp hbefore⟩

end Layers

/-! ## A renamed signal -/

/-- Two signals in memory, and a store that has the first one under another name. -/
def overStore : Resolver (Layer Signal) where
  sources :=
    [.memory (.ofList "bootstrap" [⟨.ofNat 1, "opened"⟩, ⟨.ofNat 2, "closed"⟩]),
      .backed ⟨.new "durable", Backed.afterEdit.store, []⟩]
  limit := none

theorem selects_overStore (f : Filter Signal) :
    List.Forall₂ (Selects overStore.limit f) overStore.sources
      [[⟨.ofNat 1, "opened"⟩, ⟨.ofNat 2, "closed"⟩], [⟨.ofNat 1, "reopened"⟩]] := by
  have hmemory := Selects.memory
    (MemorySource.keyed_ofList "bootstrap" [⟨.ofNat 1, "opened"⟩, ⟨.ofNat 2, "closed"⟩])
    overStore.limit f
  have hstore : Backed.afterEdit.all.map Record.payload = [⟨.ofNat 1, "reopened"⟩] := by
    decide +kernel
  have hbacked := Selects.backed (b := ⟨.new "durable", Backed.afterEdit.store, []⟩) rfl
    Backed.tagged_afterEdit rfl (PersistentSource.holds_new "durable") overStore.limit f
  rw [hstore] at hbacked
  exact .cons hmemory.layer_memory (.cons hbacked.layer_backed .nil)

/-- The filter that leaves out what is closed. -/
def notClosed : Filter Signal := .expr (.ne "name" (.string "closed"))

/-- What is left out has no other name, so that the filter gives what is left of all. -/
theorem selects_before_joining_notClosed :
    (overStore.select .never notClosed).1.value =
        (overStore.all .never).1.value.filter (Definition.matches notClosed) ∧
      (overStore.select .never notClosed).1.value = [⟨.ofNat 1, "opened"⟩] ∧
      ∃ t, (overStore.find? .never (.ofNat 1)).1 = ⟨some ⟨.ofNat 1, "opened"⟩, some t⟩ := by
  obtain ⟨hfind, -, -, -, hiff, -⟩ := selects_before_joining (selects_overStore notClosed)
  refine ⟨hiff.mpr fun a ha hp => ?_, by decide +kernel, hfind (.ofNat 1)⟩
  have hopened : Definition.matches notClosed (⟨.ofNat 1, "opened"⟩ : Signal) = true := by
    decide +kernel
  have hclosed : Definition.matches notClosed (⟨.ofNat 2, "closed"⟩ : Signal) = false := by
    decide +kernel
  rcases List.mem_cons.mp ha with rfl | ha
  · exact ⟨_, rfl, hopened⟩
  rcases List.mem_pair.mp ha with rfl | rfl
  · exact absurd hp (by simp [hclosed])
  -- the signal with the other name is hidden by one that is selected as well
  · exact ⟨_, rfl, hopened⟩

/-- The filter that asks for the other name. -/
def isReopened : Filter Signal := .expr (.eq "name" (.string "reopened"))

/-- **A filter gives a definition that is hidden**: asked for by its other name, a signal comes from
the store, though the one in memory hides it from every other look-up. -/
theorem selected_though_hidden :
    List.Forall₂ (Selects overStore.limit isReopened) overStore.sources
        [[⟨.ofNat 1, "opened"⟩, ⟨.ofNat 2, "closed"⟩], [⟨.ofNat 1, "reopened"⟩]] ∧
      (overStore.all .never).1.value = [⟨.ofNat 1, "opened"⟩, ⟨.ofNat 2, "closed"⟩] ∧
      (overStore.find? .never (.ofNat 1)).1.value = some ⟨.ofNat 1, "opened"⟩ ∧
      (overStore.select .never isReopened).1.value = [⟨.ofNat 1, "reopened"⟩] ∧
      (overStore.selectFirst .never isReopened).1.value = some ⟨.ofNat 1, "reopened"⟩ ∧
      (overStore.all .never).1.value.filter (Definition.matches isReopened) = [] :=
  ⟨selects_overStore isReopened, by decide +kernel, by decide +kernel, by decide +kernel,
    by decide +kernel, by decide +kernel⟩

end Resolver

end Signpost
