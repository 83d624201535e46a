import Mathlib.Data.List.Forall2
import Signpost.Cache
import Signpost.Proofs.Resolver.Attempt
import Signpost.Source.Layer

/-!
# Look-ups of many definitions

A look-up of many definitions asks all sources at once.  Whatever each of them gives, and whenever
it does, the answers are joined in the order of the sources, and of definitions with one identifier
the first counts.  A source that gives nothing is as if it were not there.

## Main definitions

* `Resolver.copy?`: the first definition of a list with an identifier.
* `Resolver.Gives`, `Resolver.Contributes`: what a source adds to a look-up of many.
* `Resolver.Joins`: what a look-up of many is to give.

## Main results

* `Resolver.distinct_eq_eraseDupsBy`, `Resolver.mem_distinct`, `Resolver.map_id_distinct`: what is
  left of a list whose repeated identifiers are left out.
* `Resolver.mem_fanOut_iff`: the definitions that are given.
* `Resolver.joins_fanOut`, `Resolver.joins_by_priority`
-/

namespace Signpost

namespace Resolver

variable {σ α : Type} [Definition α]

/-! ## Lists without repeated identifiers -/

/-- The first definition of a list with an identifier. -/
def copy? (id : Uuid) (l : List α) : Option α := l.find? fun a => decide (Definition.id a = id)

/-- Whether two definitions have one identifier. -/
def sameId (a b : α) : Bool := decide (Definition.id a = Definition.id b)

variable {a : α} {id : Uuid} {l : List α} {seen : List Uuid}

theorem id_of_copy? (h : copy? id l = some a) : Definition.id a = id := by
  simpa using List.find?_some h

theorem copy?_isSome_iff : (copy? id l).isSome = true ↔ id ∈ l.map Definition.id := by
  simp [copy?, List.find?_isSome, List.mem_map]

theorem copy?_eq_none_iff : copy? id l = none ↔ id ∉ l.map Definition.id := by
  rw [← copy?_isSome_iff, Bool.not_eq_true, Option.isSome_eq_false_iff, Option.isNone_iff_eq_none]

/-- The list without repeated identifiers keeps the first definition of each. -/
theorem distinct_eq_eraseDupsBy (seen : List Uuid) (l : List α) :
    distinct seen l = (l.filter fun a => decide (Definition.id a ∉ seen)).eraseDupsBy sameId := by
  induction l generalizing seen with
  | nil => rfl
  | cons a rest ih =>
    rw [distinct]
    split
    · next hseen => rw [ih, List.filter_cons_of_neg (by simpa using hseen)]
    · next hnew =>
      rw [ih, List.filter_cons_of_pos (by simpa using hnew), List.eraseDupsBy_cons,
        List.filter_filter]
      congr 2
      refine List.filter_congr fun b _ => ?_
      simp [sameId, eq_comm]

theorem distinct_nil (l : List α) : distinct [] l = l.eraseDupsBy sameId := by
  rw [distinct_eq_eraseDupsBy, List.filter_eq_self.mpr fun a _ => by simp]

theorem mem_distinct : a ∈ distinct seen l ↔
    Definition.id a ∉ seen ∧ copy? (Definition.id a) l = some a := by
  induction l generalizing seen with
  | nil => simp [distinct, copy?]
  | cons b rest ih =>
    simp only [distinct, copy?, List.find?_cons] at ih ⊢
    by_cases hid : Definition.id b = Definition.id a
    -- the first definition has the identifier, so that no later one counts
    · simp only [hid, decide_true, Option.some.injEq]
      split
      · next hseen => simp [ih, hseen]
      · next hnew => simp [ih, hnew, eq_comm]
    · have hne : a ≠ b := fun heq => hid (congrArg Definition.id heq.symm)
      simp only [hid, decide_false]
      split
      · exact ih
      · rw [List.mem_cons, or_iff_right hne, ih, List.mem_cons, not_or]
        simp [Ne.symm hid]

theorem map_id_distinct (seen : List Uuid) (l : List α) :
    (distinct seen l).map Definition.id = Cache.firsts seen (l.map Definition.id) := by
  induction l generalizing seen with
  | nil => rfl
  | cons a rest ih =>
    rw [distinct, List.map_cons, Cache.firsts]
    split
    · exact ih seen
    · rw [List.map_cons, ih]

/-! ## What a source adds -/

section Calls

variable {limit : Option Nat} {cancel : Cancel} {ask : σ → Reply σ (List α)} {s : σ} {l l' : List α}

omit [Definition α] in
/-- A source gives definitions: it answers in time, and before the caller gives up. -/
def Gives (limit : Option Nat) (cancel : Cancel) (ask : σ → Reply σ (List α)) (s : σ)
    (l : List α) : Prop :=
  ∃ d, (ask s).course.Answers limit d l ∧ cancel.before d = false

/-- What a source adds to a look-up: what it gives, or nothing. -/
def Contributes (limit : Option Nat) (cancel : Cancel) (ask : σ → Reply σ (List α)) (s : σ)
    (l : List α) : Prop :=
  Gives limit cancel ask s l ∨ (∀ l', ¬Gives limit cancel ask s l') ∧ l = []

/-- The definitions of an answer. -/
def contribution (limit : Option Nat) (cancel : Cancel) (ask : σ → Reply σ (List α)) (s : σ) :
    List α :=
  match (attempt limit cancel 0 s ask).1.value with
  | .ok l => l
  | .error _ => []

omit [Definition α] in
theorem contribution_of_gives (h : Gives limit cancel ask s l) :
    contribution limit cancel ask s = l := by
  obtain ⟨d, hanswers, hcancel⟩ := h
  rw [← Nat.zero_add d] at hcancel
  rw [contribution, attempt_of_answers hanswers hcancel]

omit [Definition α] in
theorem contribution_of_not_gives (h : ∀ l, ¬Gives limit cancel ask s l) :
    contribution limit cancel ask s = [] := by
  rcases attempt_cases limit cancel 0 s ask with
    ⟨d, l, hanswers, hcancel⟩ | ⟨d, hfails, hcancel⟩ | hgivenUp
  · rw [Nat.zero_add] at hcancel
    exact absurd ⟨d, hanswers, hcancel⟩ (h l)
  · obtain ⟨e, after, -, hattempt⟩ := attempt_of_fails hfails hcancel
    rw [contribution, hattempt]
  · rw [contribution, attempt_of_givenUp hgivenUp]

omit [Definition α] in
theorem contributes_contribution (limit : Option Nat) (cancel : Cancel)
    (ask : σ → Reply σ (List α)) (s : σ) :
    Contributes limit cancel ask s (contribution limit cancel ask s) := by
  by_cases h : ∃ l, Gives limit cancel ask s l
  · obtain ⟨l, hgives⟩ := h
    exact .inl (contribution_of_gives hgives ▸ hgives)
  · have hnone := not_exists.mp h
    exact .inr ⟨hnone, contribution_of_not_gives hnone⟩

theorem mem_map_id_contribution :
    id ∈ (contribution limit cancel ask s).map Definition.id ↔
      ∃ l, Gives limit cancel ask s l ∧ id ∈ l.map Definition.id := by
  constructor
  · intro hmem
    rcases contributes_contribution limit cancel ask s with hgives | ⟨-, hnil⟩
    · exact ⟨_, hgives, hmem⟩
    · rw [hnil] at hmem
      cases hmem
  · rintro ⟨l, hgives, hmem⟩
    rwa [contribution_of_gives hgives]

omit [Definition α] in
/-- Sources that give the same add the same. -/
theorem contribution_congr {limit' : Option Nat} {cancel' : Cancel} {s' : σ}
    (h : ∀ l, Gives limit cancel ask s l ↔ Gives limit' cancel' ask s' l) :
    contribution limit cancel ask s = contribution limit' cancel' ask s' := by
  rcases contributes_contribution limit cancel ask s with hgives | ⟨hnone, hnil⟩
  · exact (contribution_of_gives ((h _).mp hgives)).symm
  · rw [hnil, contribution_of_not_gives fun l hgives => hnone l ((h l).mpr hgives)]

end Calls

/-! ## Answers joined -/

section Joined

variable {r : Resolver σ} {cancel : Cancel} {ask : σ → Reply σ (List α)}

theorem value_fanOut (r : Resolver σ) (cancel : Cancel) (ask : σ → Reply σ (List α)) :
    (r.fanOut cancel ask).1.value =
      distinct [] (r.sources.flatMap (contribution r.limit cancel ask)) := by
  show distinct [] (answered _) = _
  rw [answered, List.map_map, List.flatMap_map]
  rfl

/-- The definitions that are given are the first ones of the first sources that give such. -/
theorem mem_fanOut_iff : a ∈ (r.fanOut cancel ask).1.value ↔
    r.sources.findSome? (fun s => copy? (Definition.id a) (contribution r.limit cancel ask s)) =
      some a := by
  rw [value_fanOut, mem_distinct, and_iff_right List.not_mem_nil, copy?, List.find?_flatMap]
  rfl

omit [Definition α] in
/-- If nobody gives up, a source adds what it yields. -/
theorem contribution_of_yields {limit : Option Nat} {s : σ} {outcome : Option (List α)}
    (h : (ask s).course.Yields limit outcome) :
    contribution limit .never ask s = outcome.getD [] := by
  cases outcome with
  | some l =>
    obtain ⟨d, hanswers⟩ := h
    exact contribution_of_gives ⟨d, hanswers, rfl⟩
  | none =>
    obtain ⟨d, hfails⟩ := h
    refine contribution_of_not_gives ?_
    rintro l ⟨d', hanswers, -⟩
    exact hfails.not_answers hanswers

/-- The later of moments is there if all of them are. -/
theorem exists_foldl_later {moments : List (Option Nat)}
    (h : ∀ m ∈ moments, ∃ t, m = some t) (t : Nat) :
    ∃ t', moments.foldl later (some t) = some t' := by
  induction moments generalizing t with
  | nil => exact ⟨t, rfl⟩
  | cons m rest ih =>
    obtain ⟨⟨t', rfl⟩, hrest⟩ := List.forall_mem_cons.mp h
    exact ih hrest (max t t')

/-- What a look-up of many gives, `look` being the look-up and `ask` what it asks every source. -/
structure Joins (look : Resolver σ → Cancel → Timed (List α) × Resolver σ)
    (ask : σ → Reply σ (List α)) (r : Resolver σ) (cancel : Cancel) : Prop where
  /-- The answers of the sources one after another, without those definitions whose identifier has
  occurred before. -/
  joined : ∃ answers, List.Forall₂ (Contributes r.limit cancel ask) r.sources answers ∧
    (look r cancel).1.value = answers.flatten.eraseDupsBy sameId
  /-- No two definitions have one identifier. -/
  nodup : ((look r cancel).1.value.map Definition.id).Nodup
  /-- Every identifier that some source gives is there. -/
  mem_ids : ∀ id, id ∈ (look r cancel).1.value.map Definition.id ↔
    ∃ s ∈ r.sources, ∃ l, Gives r.limit cancel ask s l ∧ id ∈ l.map Definition.id
  /-- A definition is there just if it is the first one with its identifier that a source gives, and
  no source before gives one. -/
  mem : ∀ a, a ∈ (look r cancel).1.value ↔
    ∃ before s after l, r.sources = before ++ s :: after ∧ Gives r.limit cancel ask s l ∧
      copy? (Definition.id a) l = some a ∧
      ∀ s' ∈ before, ∀ l', Gives r.limit cancel ask s' l' → Definition.id a ∉ l'.map Definition.id
  /-- A source that gives nothing is as if it were not there. -/
  spares : ∀ before s after, r.sources = before ++ s :: after →
    (∀ l, ¬Gives r.limit cancel ask s l) →
      (look { r with sources := before ++ after } cancel).1.value = (look r cancel).1.value
  /-- Only what the sources give matters, and not when they do. -/
  timeless : ∀ r' cancel', List.Forall₂
    (fun s s' => ∀ l, Gives r.limit cancel ask s l ↔ Gives r'.limit cancel' ask s' l)
    r.sources r'.sources → (look r' cancel').1.value = (look r cancel).1.value
  /-- It ends if the caller gives up at some time, or if every call is over at some time. -/
  ends : (cancel ≠ .never ∨ ∀ s ∈ r.sources, ∃ d, (ask s).course.EndsAt r.limit d) →
    ∃ t, (look r cancel).1.ends = some t

theorem joins_fanOut (ask : σ → Reply σ (List α)) (r : Resolver σ) (cancel : Cancel) :
    Joins (fun r cancel => r.fanOut cancel ask) ask r cancel where
  joined := by
    refine ⟨r.sources.map (contribution r.limit cancel ask), ?_, ?_⟩
    · rw [List.forall₂_map_right_iff]
      exact List.forall₂_same.mpr fun s _ => contributes_contribution ..
    · rw [value_fanOut, distinct_nil, List.flatMap_def]
  nodup := by
    rw [value_fanOut, map_id_distinct]
    exact Cache.nodup_firsts _ _
  mem_ids id := by
    rw [value_fanOut, map_id_distinct, Cache.mem_firsts, and_iff_left List.not_mem_nil,
      List.map_flatMap, List.mem_flatMap]
    simp only [mem_map_id_contribution]
  mem a := by
    rw [mem_fanOut_iff, List.findSome?_eq_some_iff]
    simp only [copy?_eq_none_iff, mem_map_id_contribution, not_exists, not_and]
    constructor
    · rintro ⟨before, s, after, hsplit, hcopy, hbefore⟩
      rcases contributes_contribution r.limit cancel ask s with hgives | ⟨-, hnil⟩
      · exact ⟨before, s, after, _, hsplit, hgives, hcopy, hbefore⟩
      · rw [hnil] at hcopy
        cases hcopy
    · rintro ⟨before, s, after, l, hsplit, hgives, hcopy, hbefore⟩
      exact ⟨before, s, after, hsplit, by rwa [contribution_of_gives hgives], hbefore⟩
  spares before s after hsplit hnone := by
    rw [value_fanOut, value_fanOut, hsplit]
    simp [contribution_of_not_gives hnone]
  timeless r' cancel' h := by
    have hsame : r.sources.map (contribution r.limit cancel ask) =
        r'.sources.map (contribution r'.limit cancel' ask) := by
      rw [← List.forall₂_eq_eq_eq, List.forall₂_map_left_iff, List.forall₂_map_right_iff]
      exact h.imp fun s s' => contribution_congr
    rw [value_fanOut, value_fanOut, List.flatMap_def, List.flatMap_def, hsame]
  ends h := by
    refine exists_foldl_later (fun m hm => ?_) 0
    simp only [List.map_map, List.mem_map] at hm
    obtain ⟨s, hs, rfl⟩ := hm
    exact exists_ends_attempt (h.imp_right fun hall => hall s hs)

omit [Definition α] in
theorem exists_of_forall₂ {κ : Type} {R : σ → κ → Prop} {l : List σ} {l' : List κ}
    (h : List.Forall₂ R l l') : ∀ s ∈ l, ∃ k, R s k := by
  induction h with
  | nil => exact nofun
  | cons hhead _ ih => exact List.forall_mem_cons.mpr ⟨⟨_, hhead⟩, ih⟩

/-- What a look-up of many gives if nobody gives up and every call is over at some time. -/
theorem fanOut_of_yields {outcomes : List (Option (List α))}
    (h : List.Forall₂ (fun s => (ask s).course.Yields r.limit) r.sources outcomes) :
    ∃ t, (r.fanOut .never ask).1 =
      ⟨(outcomes.flatMap fun outcome => outcome.getD []).eraseDupsBy sameId, some t⟩ := by
  have hjoins := joins_fanOut ask r .never
  obtain ⟨t, hends⟩ := hjoins.ends <| .inr fun s hs => by
    obtain ⟨outcome, hyields⟩ := exists_of_forall₂ h s hs
    exact hyields.exists_endsAt
  have hadded : r.sources.map (contribution r.limit .never ask) =
      outcomes.map fun outcome => outcome.getD [] := by
    rw [← List.forall₂_eq_eq_eq, List.forall₂_map_left_iff, List.forall₂_map_right_iff]
    exact h.imp fun s outcome => contribution_of_yields
  have hvalue : (r.fanOut .never ask).1.value =
      (outcomes.flatMap fun outcome => outcome.getD []).eraseDupsBy sameId := by
    rw [value_fanOut, distinct_nil, List.flatMap_def, List.flatMap_def, hadded]
  exact ⟨t, by rw [← hvalue, ← hends]⟩

/-- **Look-ups of many definitions are joined by priority.**  Whatever each source gives, and
whenever it does: a look-up by identifiers, by a filter, or of everything gives the answers of the
sources in their order, and of definitions with one identifier the first one of the first source
that gives such.  A source that fails, runs out of time or is given up adds nothing, and takes
nothing from the others. -/
theorem joins_by_priority [Source σ α] (r : Resolver σ) (cancel : Cancel) {ids : List Uuid}
    (hids : ids ≠ []) (f : Filter α) :
    Joins (fun r cancel => r.findMany cancel ids) (Source.findMany ids) r cancel ∧
    Joins (fun r cancel => r.select cancel f) (Source.select f) r cancel ∧
    Joins (fun r cancel => r.all cancel) Source.all r cancel := by
  have hfindMany : (fun (r : Resolver σ) cancel => r.findMany cancel ids) =
      fun r cancel => r.fanOut cancel (Source.findMany ids) := by
    funext r cancel
    rw [findMany, if_neg (by simpa using hids)]
  rw [hfindMany]
  exact ⟨joins_fanOut _ r cancel, joins_fanOut _ r cancel, joins_fanOut _ r cancel⟩

/-- A source that is slow, one that fails, one that takes for ever, and one that answers at once. -/
def slowFirst : Resolver (Layer Signal) where
  sources :=
    [.hindered ⟨⟨some 20, none⟩, .ofList "slow" [⟨.ofNat 1, "opened"⟩, ⟨.ofNat 2, "closed"⟩]⟩,
      .hindered ⟨⟨some 5, some (.root "disk full")⟩, .ofList "broken" [⟨.ofNat 4, "lost"⟩]⟩,
      .hindered ⟨⟨none, none⟩, .ofList "hanging" [⟨.ofNat 3, "hidden"⟩]⟩,
      .memory (.ofList "prompt" [⟨.ofNat 1, "reopened"⟩, ⟨.ofNat 3, "late"⟩])]
  limit := some 50

/-- The slow source has priority though it answers last, and the one that takes for ever is as if it
were not there. -/
theorem joins_by_priority_slowFirst :
    let ids := [.ofNat 3, .ofNat 1, .ofNat 4]
    let look := (slowFirst.findMany .never ids).1
    ids ≠ [] ∧ look.value = [⟨.ofNat 1, "opened"⟩, ⟨.ofNat 3, "late"⟩] ∧
      (look.value.map Definition.id).Nodup ∧
      ((⟨slowFirst.sources.eraseIdx 2, slowFirst.limit⟩ : Resolver _).findMany .never ids).1.value =
        look.value ∧
      ∃ t, (slowFirst.all .never).1.ends = some t := by
  intro ids look
  have hids : ids ≠ [] := List.cons_ne_nil _ _
  obtain ⟨hmany, -, hall⟩ := joins_by_priority slowFirst .never hids .all
  refine ⟨hids, rfl, hmany.nodup, ?_, hall.ends (.inr fun s _ => Course.exists_endsAt (.inl rfl))⟩
  refine hmany.spares (slowFirst.sources.take 2) _ (slowFirst.sources.drop 3) rfl ?_
  rintro l ⟨d, ⟨⟨hdelay, -⟩, -⟩, -⟩
  cases hdelay

end Joined

end Resolver

end Signpost
