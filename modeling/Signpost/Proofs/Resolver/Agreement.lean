import Signpost.Proofs.Resolver.Search
import Signpost.Proofs.Resolver.Union
import Signpost.Proofs.Source.Answering
import Signpost.Source.Layer

/-!
# One by one and all at once

A definition can be looked up alone, by a search that ends at the first source that has it, or with
others, by asking all sources at once.  If every source answers both questions from one set of
definitions, or none of them, the two ways find the same: what the first source holds that is up and
holds anything under the identifier.

## Main definitions

* `Resolver.Stands`: what a source answers from, or that it is down.
* `Resolver.uppermost`: the definition that an identifier has in layers of definitions.

## Main results

* `Resolver.find?_of_stands`, `Resolver.mem_findMany_of_stands`: both ways lead to the
  uppermost definition.
* `Resolver.paths_agree`
* `Resolver.Stands.memory`, `Resolver.Stands.backed`, `Resolver.Stands.down`: sources that answer
  from what they hold, and sources that are down.
-/

namespace Signpost

variable {α : Type} [Definition α] {now : Holdings α} {a : α} {id : Uuid} {ids : List Uuid}

omit [Definition α] in
/-- A reply that is there at once is an answer in time. -/
theorem Backed.answers_reply {β : Type} {r : Except Failure β × Backed α} {x : β} (h : r.1 = .ok x)
    (limit : Option Nat) : (Backed.reply r).course.Answers limit 0 x := by
  show (Course.prompt r.1).Answers limit 0 x
  rw [h]
  exact Course.answers_prompt limit x

namespace Resolver

/-- In an answer of some definitions that are held, an identifier has the definition that is held
under it, if that is one of them. -/
theorem copy?_of_mem_iff {p : α → Prop} {l : List α}
    (hl : ∀ a, a ∈ l ↔ a ∈ now.definitions ∧ p a) :
    copy? id l = some a ↔ now.get? id = some a ∧ p a := by
  rw [Holdings.get?_eq_some_iff]
  constructor
  · intro hcopy
    obtain ⟨hmem, hp⟩ := (hl a).mp (List.mem_of_find?_eq_some hcopy)
    exact ⟨⟨hmem, id_of_copy? hcopy⟩, hp⟩
  · rintro ⟨⟨hmem, hid⟩, hp⟩
    have hsome : (copy? id l).isSome = true :=
      copy?_isSome_iff.mpr (List.mem_map.mpr ⟨a, (hl a).mpr ⟨hmem, hp⟩, hid⟩)
    obtain ⟨b, hcopy⟩ := Option.isSome_iff_exists.mp hsome
    -- two definitions that are held and have one identifier are the same
    have hb := (hl b).mp (List.mem_of_find?_eq_some hcopy)
    rw [hcopy, Holdings.eq_of_id_eq hb.1 hmem ((id_of_copy? hcopy).trans hid.symm)]

/-! ## What the sources hold -/

section Known

variable {σ : Type} [Source σ α] {limit : Option Nat} {r r' : Resolver σ}
  {known : List (Option (Holdings α))}

/-- A source answers look-ups of some identifiers, one by one and all at once, from definitions that
it holds; or it is down, and fails or runs out of time at all of them. -/
def Stands (limit : Option Nat) (ids : List Uuid) (s : σ) : Option (Holdings α) → Prop
  | some now =>
    (∀ id ∈ ids, (Source.find id s).course.Yields limit (some (now.get? id))) ∧
      ∃ found, (Source.findMany ids s).course.Yields limit (some found) ∧
        ∀ a, a ∈ found ↔ a ∈ now.among ids
  | none =>
    (∀ id ∈ ids, (Source.find id s).course.Yields limit none) ∧
      (Source.findMany ids s).course.Yields limit none

theorem Stands.find {s : σ} {k : Option (Holdings α)} (h : Stands limit ids s k) (hid : id ∈ ids) :
    (Source.find id s).course.Yields limit (k.map (·.get? id)) := by
  cases k with
  | some now => exact h.1 id hid
  | none => exact h.1 id hid

theorem Stands.exists_yields {s : σ} {k : Option (Holdings α)} (h : Stands limit ids s k) :
    ∃ outcome, (Source.findMany ids s).course.Yields limit outcome := by
  cases k with
  | some now =>
    obtain ⟨found, hyields, -⟩ := h.2
    exact ⟨_, hyields⟩
  | none => exact ⟨_, h.2⟩

/-- What a source adds to a look-up of several definitions. -/
theorem Stands.copy?_contribution {s : σ} {k : Option (Holdings α)} (h : Stands limit ids s k)
    (id : Uuid) :
    copy? id (contribution limit .never (Source.findMany ids) s) =
      if id ∈ ids then k.bind (·.get? id) else none := by
  cases k with
  | none =>
    rw [contribution_of_yields h.2]
    simp [copy?]
  | some now =>
    obtain ⟨-, found, hyields, hfound⟩ := h
    rw [contribution_of_yields hyields]
    have hmem : ∀ a, a ∈ found ↔ a ∈ now.definitions ∧ Definition.id a ∈ ids := fun a => by
      rw [hfound, Holdings.mem_among]
    show copy? id found = _
    ext a
    rw [copy?_of_mem_iff hmem, Holdings.get?_eq_some_iff]
    by_cases hid : id ∈ ids
    · rw [if_pos hid, Option.bind_some, Holdings.get?_eq_some_iff, and_iff_left_of_imp]
      rintro ⟨-, rfl⟩
      exact hid
    · rw [if_neg hid]
      refine iff_of_false ?_ (Option.some_ne_none a).symm
      rintro ⟨⟨-, rfl⟩, hmem⟩
      exact hid hmem

/-- A source in memory answers from its definitions. -/
theorem Stands.memory (now : Holdings α) (name : String) (limit : Option Nat) (ids : List Uuid) :
    Stands limit ids (MemorySource.ofList name now.definitions) (some now) := by
  refine ⟨fun id _ => ⟨0, ?_⟩, _, ⟨0, Course.answers_prompt limit _⟩,
    fun a => (MemorySource.perm_among now name ids).mem_iff⟩
  rw [← MemorySource.get?_ofList now name id]
  exact Course.answers_prompt limit _

/-- A persistent source answers from what its store holds, if it caches nothing else and the store
is up. -/
theorem Stands.backed {b : Backed α} (hshows : b.store.Shows now)
    (hholds : b.source.Holds (· ∈ now.definitions)) (hup : b.store.Up) (limit : Option Nat)
    (ids : List Uuid) : Stands limit ids b (some now) := by
  obtain ⟨found, hfound, hmem⟩ := Backed.findMany_of_up hshows hholds hup ids
  refine ⟨fun id _ => ⟨0, ?_⟩, found, ⟨0, ?_⟩, hmem⟩
  · exact Backed.answers_reply (Backed.find_of_up hshows hholds hup id) limit
  · exact Backed.answers_reply hfound limit

/-- A source whose every call fails, or takes for ever, is down. -/
theorem Stands.down {h : Hindered σ}
    (hdown : h.hindrance.failure.isSome = true ∨ h.hindrance.delay = none) (l : Nat)
    (ids : List Uuid) : Stands (some l) ids h none := by
  have hfails : ∀ {β : Type} (ask : σ → Reply σ β),
      ∃ d, (h.call ask).course.Fails (some l) d := by
    intro β ask
    obtain ⟨d, ⟨b, ⟨hdelay, -⟩, hresult⟩ | hfails⟩ :=
      Course.exists_endsAt (c := (h.call ask).course) (.inl rfl : (some l).isSome = true ∨ _)
    · cases hfailure : h.hindrance.failure with
      | some f => simp [Hindered.call, hfailure] at hresult
      | none =>
        have hnone := hdown.resolve_left (by simp [hfailure])
        simp [Hindered.call, hfailure, Hindered.delayed, hnone] at hdelay
    · exact ⟨d, hfails⟩
  exact ⟨fun id _ => hfails _, hfails _⟩

omit [Source σ α] [Definition α] in
/-- Lists whose items agree have the same first item. -/
theorem findSome?_of_forall₂ {κ β : Type} {f : σ → Option β} {g : κ → Option β} {l : List σ}
    {l' : List κ} (h : List.Forall₂ (fun x y => f x = g y) l l') :
    l.findSome? f = l'.findSome? g := by
  induction h with
  | nil => rfl
  | cons heq _ ih => rw [List.findSome?_cons, List.findSome?_cons, heq, ih]

/-- The definition that an identifier has in the first layer that is up and has any. -/
def uppermost (known : List (Option (Holdings α))) (id : Uuid) : Option α :=
  known.findSome? fun k => k.bind (·.get? id)

theorem id_of_uppermost (h : uppermost known id = some a) : Definition.id a = id := by
  obtain ⟨before, k, after, -, hget, -⟩ := List.findSome?_eq_some_iff.mp h
  obtain ⟨now, -, hget⟩ := Option.bind_eq_some_iff.mp hget
  exact (Holdings.get?_eq_some_iff.mp hget).2

theorem find?_of_stands (h : List.Forall₂ (Stands r.limit ids) r.sources known) (hid : id ∈ ids) :
    ∃ t, (r.find? .never id).1 = ⟨uppermost known id, some t⟩ := by
  have hyields : List.Forall₂ (fun s => (Source.find id s).course.Yields r.limit) r.sources
      (known.map fun k => k.map (·.get? id)) := by
    rw [List.forall₂_map_right_iff]
    exact h.imp fun s k hstands => hstands.find hid
  have hfirst : (known.map fun k => k.map (·.get? id)).findSome? Option.join =
      uppermost known id := by
    rw [uppermost, List.findSome?_map]
    refine congrArg (List.findSome? · known) (funext fun k => ?_)
    cases k <;> rfl
  exact hfirst ▸ find?_of_yields hyields

theorem mem_findMany_of_stands (h : List.Forall₂ (Stands r.limit ids) r.sources known) :
    a ∈ (r.findMany .never ids).1.value ↔
      Definition.id a ∈ ids ∧ uppermost known (Definition.id a) = some a := by
  by_cases hids : ids = []
  · subst hids
    exact ⟨nofun, fun h => nomatch h.1⟩
  · rw [findMany, if_neg (by simpa using hids), mem_fanOut_iff,
      findSome?_of_forall₂ (h.imp fun s k hstands => hstands.copy?_contribution _), uppermost]
    split
    · next hid => exact (and_iff_right hid).symm
    · next hid =>
      rw [List.findSome?_eq_none_iff.mpr fun _ _ => rfl]
      simp [hid]

theorem exists_ends_findMany (h : List.Forall₂ (Stands r.limit ids) r.sources known) :
    ∃ t, (r.findMany .never ids).1.ends = some t := by
  rw [findMany]
  split
  · exact ⟨0, rfl⟩
  · refine (joins_fanOut (Source.findMany ids) r .never).ends (.inr fun s hs => ?_)
    obtain ⟨k, hstands⟩ := exists_of_forall₂ h s hs
    obtain ⟨outcome, hyields⟩ := hstands.exists_yields
    exact hyields.exists_endsAt

/-- **One by one and all at once, look-ups find the same.**  Each source answers both from one set
of definitions, or fails or runs out of time at both, in whatever state it is asked for all (`r`)
and for one (`r'`).  Then all look-ups come to an end, and the definitions that are found together
are just those that are found for the identifiers one by one. -/
theorem paths_agree (h : List.Forall₂ (Stands r.limit ids) r.sources known)
    (h' : List.Forall₂ (Stands r'.limit ids) r'.sources known) :
    (∃ t, (r.findMany .never ids).1.ends = some t) ∧
    (∀ id ∈ ids, ∃ t, (r'.find? .never id).1.ends = some t) ∧
    ∀ id a, (a ∈ (r.findMany .never ids).1.value ∧ Definition.id a = id) ↔
      (id ∈ ids ∧ (r'.find? .never id).1.value = some a) := by
  have hfind : ∀ id ∈ ids, (r'.find? .never id).1.value = uppermost known id := by
    intro id hid
    obtain ⟨t, heq⟩ := find?_of_stands h' hid
    rw [heq]
  refine ⟨exists_ends_findMany h, fun id hid => ?_, fun id a => ?_⟩
  · obtain ⟨t, heq⟩ := find?_of_stands h' hid
    exact ⟨t, by rw [heq]⟩
  · rw [mem_findMany_of_stands h]
    constructor
    · rintro ⟨⟨hid, hfirst⟩, rfl⟩
      exact ⟨hid, (hfind _ hid).trans hfirst⟩
    · rintro ⟨hid, hvalue⟩
      rw [hfind id hid] at hvalue
      have hida : Definition.id a = id := id_of_uppermost hvalue
      exact ⟨⟨hida ▸ hid, hida ▸ hvalue⟩, hida⟩

/-! ## Past two failures -/

/-- The first signal under another name. -/
def bootstrapHoldings : Holdings Signal := ⟨[⟨.ofNat 1, "reopened"⟩], by decide⟩

/-- A source that fails, one that takes for ever, one in memory, and a last one that is given. -/
def pastTwoFailures (last : Backed Signal) : Resolver (Layer Signal) where
  sources :=
    [.hindered ⟨⟨some 3, some (.root "disk full")⟩, .ofList "broken" []⟩,
      .hindered ⟨⟨none, none⟩, .ofList "hanging" [⟨.ofNat 2, "hidden"⟩]⟩,
      .memory (.ofList "bootstrap" bootstrapHoldings.definitions),
      .backed last]
  limit := some 10

theorem stands_pastTwoFailures (last : Backed Signal)
    (hshows : last.store.Shows (Backed.twoSignals.holdings Backed.tagged_twoSignals))
    (hholds : last.source.Holds
      (· ∈ (Backed.twoSignals.holdings Backed.tagged_twoSignals).definitions))
    (hup : last.store.Up) (ids : List Uuid) :
    List.Forall₂ (Stands (pastTwoFailures last).limit ids) (pastTwoFailures last).sources
      [none, none, some bootstrapHoldings,
        some (Backed.twoSignals.holdings Backed.tagged_twoSignals)] :=
  .cons (Stands.down (.inl rfl) 10 ids) <| .cons (Stands.down (.inr rfl) 10 ids) <|
    .cons (Stands.memory _ "bootstrap" _ ids) <| .cons (Stands.backed hshows hholds hup _ ids) .nil

/-- The first signal is found in memory and the second one in the store, together and then alone. -/
theorem paths_agree_pastTwoFailures :
    let r := pastTwoFailures Backed.withFirstSignal
    let ids := [.ofNat 2, .ofNat 1, .ofNat 3, .ofNat 2]
    let r' := (r.findMany .never ids).2
    (r.findMany .never ids).1.value = [⟨.ofNat 1, "reopened"⟩, ⟨.ofNat 2, "closed"⟩] ∧
      (r'.find? .never (.ofNat 1)).1.value = some ⟨.ofNat 1, "reopened"⟩ ∧
      (r'.find? .never (.ofNat 2)).1.value = some ⟨.ofNat 2, "closed"⟩ ∧
      (r'.find? .never (.ofNat 3)).1.value = none := by
  intro r ids r'
  obtain ⟨hshows, hholds⟩ := Backed.holds_withFirstSignal
  have hup : Backed.withFirstSignal.store.Up := RecordTable.up rfl
  have hr := stands_pastTwoFailures _ hshows hholds hup ids
  have hr' := stands_pastTwoFailures (Backed.withFirstSignal.findMany ids).2 hshows
    ((Backed.Quiet.findMany ids).holds hshows hholds fun _ ha => ha).2 hup ids
  have hvalue : (r.findMany .never ids).1.value =
      [⟨.ofNat 1, "reopened"⟩, ⟨.ofNat 2, "closed"⟩] := rfl
  have hagree : ∀ id a, (a ∈ (r.findMany .never ids).1.value ∧ Definition.id a = id) ↔
      (id ∈ ids ∧ (r'.find? .never id).1.value = some a) := (paths_agree hr hr').2.2
  refine ⟨hvalue, ((hagree (.ofNat 1) _).mp ⟨?_, rfl⟩).2, ((hagree (.ofNat 2) _).mp ⟨?_, rfl⟩).2,
    ?_⟩
  · rw [hvalue]
    exact List.mem_cons_self
  · rw [hvalue]
    exact List.mem_cons_of_mem _ List.mem_cons_self
  · refine Option.eq_none_iff_forall_ne_some.mpr fun a hfind => ?_
    obtain ⟨hmem, hid⟩ := (hagree (.ofNat 3) a).mpr ⟨by decide, hfind⟩
    rw [hvalue] at hmem
    rcases List.mem_pair.mp hmem with rfl | rfl <;> cases hid

end Known

end Resolver

end Signpost
