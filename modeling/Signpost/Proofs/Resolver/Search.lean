import Mathlib.Data.List.Forall2
import Signpost.Proofs.Resolver.Attempt
import Signpost.Source.Hindered
import Signpost.Source.Memory

/-!
# Look-ups of one definition

A look-up of one definition is a search through the sources in their order: it gets past those that
answer without it, that fail, or that run out of time, and ends at the first one that has it, at the
one that is pending when the caller gives up, or after the last one.  It ends the same way whether
the definition is named or selected; only what is told of a search without success differs.

## Main definitions

* `Resolver.Passed`: sources that a search gets past.
* `Resolver.IsFirst`, `Resolver.GivenUp`: where else a search ends.
* `Resolver.Searches`: what a search is to give, and which sources it is to leave alone.

## Main results

* `Resolver.search_cases`: all that a search can lead to.
* `Resolver.searches_of_searchFrom`, `Resolver.searches_find`, `Resolver.searches_selectFirst`
* `Resolver.find?_of_yields`, `Resolver.selectFirst_of_yields`: what is found if nobody gives up.
* `Resolver.searches_by_priority`
-/

namespace Signpost

namespace Resolver

variable {σ α β γ : Type} [Source σ α] {limit : Option Nat} {cancel : Cancel}
  {ask : σ → Reply σ (Option β)} {start t d : Nat} {s : σ} {before after sources : List σ}
  {failed names : List String} {a : β}

/-! ## Where a search ends -/

/-- Sources that are asked one after another from a moment on, and none of which has what is looked
for: when the search is past them, and the names of those that failed. -/
inductive Passed (limit : Option Nat) (cancel : Cancel) (ask : σ → Reply σ (Option β)) :
    Nat → List σ → Nat → List String → Prop
  | nil (t : Nat) : Passed limit cancel ask t [] t []
  | lacks {start d t : Nat} {s : σ} {rest : List σ} {failed : List String}
      (hanswers : (ask s).course.Answers limit d none) (hcancel : cancel.before (start + d) = false)
      (hrest : Passed limit cancel ask (start + d) rest t failed) :
      Passed limit cancel ask start (s :: rest) t failed
  | fails {start d t : Nat} {s : σ} {rest : List σ} {failed : List String}
      (hfails : (ask s).course.Fails limit d) (hcancel : cancel.before (start + d) = false)
      (hrest : Passed limit cancel ask (start + d) rest t failed) :
      Passed limit cancel ask start (s :: rest) t (Source.name s :: failed)

/-- After some sources that a search gets past, a source is the first that has what is looked for,
and gives it, at some moment, before the caller gives up. -/
def IsFirst (limit : Option Nat) (cancel : Cancel) (ask : σ → Reply σ (Option β))
    (before : List σ) (s : σ) (a : β) (t : Nat) : Prop :=
  ∃ start failed d, Passed limit cancel ask 0 before start failed ∧
    (ask s).course.Answers limit d (some a) ∧ cancel.before (start + d) = false ∧ t = start + d

/-- A source that is asked at some moment is still pending when the caller gives up; or for ever, if
the caller never does. -/
def GivenUp (limit : Option Nat) (cancel : Cancel) (ask : σ → Reply σ (Option β)) (t : Nat)
    (s : σ) : Prop :=
  ∀ d, (ask s).course.EndsAt limit d → cancel.before (t + d) = true

/-- All that a search can lead to. -/
theorem search_cases (limit : Option Nat) (cancel : Cancel) (ask : σ → Reply σ (Option β))
    (start : Nat) (sources : List σ) :
    (∃ t failed, Passed limit cancel ask start sources t failed) ∨
    ∃ before s after t failed, sources = before ++ s :: after ∧
      Passed limit cancel ask start before t failed ∧
      ((∃ d a, (ask s).course.Answers limit d (some a) ∧ cancel.before (t + d) = false) ∨
        GivenUp limit cancel ask t s) := by
  induction sources generalizing start with
  | nil => exact .inl ⟨start, [], .nil start⟩
  | cons s rest ih =>
    rcases attempt_cases limit cancel start s ask with
      ⟨d, found, hanswers, hcancel⟩ | ⟨d, hfails, hcancel⟩ | hgivenUp
    · cases found with
      | some a => exact .inr ⟨[], s, rest, start, [], rfl, .nil start, .inl ⟨d, a, hanswers, hcancel⟩⟩
      | none =>
        rcases ih (start + d) with ⟨t, failed, hrest⟩ | ⟨before, s', after, t, failed, rfl, hrest, h⟩
        · exact .inl ⟨t, failed, .lacks hanswers hcancel hrest⟩
        · exact .inr ⟨s :: before, s', after, t, failed, rfl, .lacks hanswers hcancel hrest, h⟩
    · rcases ih (start + d) with ⟨t, failed, hrest⟩ | ⟨before, s', after, t, failed, rfl, hrest, h⟩
      · exact .inl ⟨t, _, .fails hfails hcancel hrest⟩
      · exact .inr ⟨s :: before, s', after, t, _, rfl, .fails hfails hcancel hrest, h⟩
    · exact .inr ⟨[], s, rest, start, [], rfl, .nil start, .inr hgivenUp⟩

/-- A search gets past sources without a failure just if all of them answer. -/
theorem Passed.answers_none (h : Passed limit cancel ask start sources t []) :
    ∀ s ∈ sources, ∃ d, (ask s).course.Answers limit d none := by
  generalize hnames : ([] : List String) = names at h
  induction h with
  | nil t => exact nofun
  | lacks hanswers hcancel hrest ih =>
    exact List.forall_mem_cons.mpr ⟨⟨_, hanswers⟩, ih hnames⟩
  | fails hfails hcancel hrest ih => cases hnames

theorem passed_of_answers_none (h : ∀ s ∈ sources, ∃ d, (ask s).course.Answers limit d none)
    (start : Nat) : ∃ t, Passed limit .never ask start sources t [] := by
  induction sources generalizing start with
  | nil => exact ⟨start, .nil start⟩
  | cons s rest ih =>
    obtain ⟨⟨d, hanswers⟩, hothers⟩ := List.forall_mem_cons.mp h
    obtain ⟨t, hrest⟩ := ih hothers (start + d)
    exact ⟨t, .lacks hanswers rfl hrest⟩

/-! ## Searches -/

/-- Asks sources one after another until one has what is looked for, with the names of those that
failed before; otherwise gives the names of all that failed. -/
def searchFrom (limit : Option Nat) (cancel : Cancel) (ask : σ → Reply σ (Option β)) :
    Nat → List String → List σ → Timed (Except (List String) β) × List σ
  | start, failed, [] => (⟨.error failed, some start⟩, [])
  | start, failed, s :: rest =>
    let (answer, after) := attempt limit cancel start s ask
    match answer.ends with
    | none => (⟨.error (failed ++ [Source.name s]), none⟩, after :: rest)
    | some ends =>
      match answer.value with
      | .ok (some a) => (⟨.ok a, some ends⟩, after :: rest)
      | .ok none =>
        let (result, rest) := searchFrom limit cancel ask ends failed rest
        (result, after :: rest)
      | .error .cancelled => (⟨.error (failed ++ [Source.name s]), some ends⟩, after :: rest)
      | .error _ =>
        let (result, rest) := searchFrom limit cancel ask ends (failed ++ [Source.name s]) rest
        (result, after :: rest)

theorem searchFrom_of_has (h : (ask s).course.Answers limit d (some a))
    (hcancel : cancel.before (start + d) = false) (failed : List String) (rest : List σ) :
    searchFrom limit cancel ask start failed (s :: rest) =
      (⟨.ok a, some (start + d)⟩, (ask s).after :: rest) := by
  simp [searchFrom, attempt_of_answers h hcancel]

theorem searchFrom_of_lacks (h : (ask s).course.Answers limit d none)
    (hcancel : cancel.before (start + d) = false) (failed : List String) (rest : List σ) :
    searchFrom limit cancel ask start failed (s :: rest) =
      ((searchFrom limit cancel ask (start + d) failed rest).1,
        (ask s).after :: (searchFrom limit cancel ask (start + d) failed rest).2) := by
  simp [searchFrom, attempt_of_answers h hcancel]

theorem searchFrom_of_fails (h : (ask s).course.Fails limit d)
    (hcancel : cancel.before (start + d) = false) (failed : List String) (rest : List σ) :
    ∃ after, searchFrom limit cancel ask start failed (s :: rest) =
      ((searchFrom limit cancel ask (start + d) (failed ++ [Source.name s]) rest).1,
        after :: (searchFrom limit cancel ask (start + d) (failed ++ [Source.name s]) rest).2) := by
  obtain ⟨e, after, hne, hattempt⟩ := attempt_of_fails h hcancel
  refine ⟨after, ?_⟩
  cases e with
  | cancelled => exact absurd rfl hne
  | timedOut l => simp [searchFrom, hattempt]
  | failed f => simp [searchFrom, hattempt]

theorem searchFrom_of_pending (h : GivenUp limit cancel ask start s) (failed : List String)
    (rest : List σ) :
    searchFrom limit cancel ask start failed (s :: rest) =
      (⟨.error (failed ++ [Source.name s]), cancel.moment start⟩, s :: rest) := by
  simp only [searchFrom, attempt_of_givenUp h]
  cases cancel.moment start <;> rfl

/-- A search goes on after the sources that it gets past. -/
theorem Passed.searchFrom (h : Passed limit cancel ask start before t names) (failed : List String)
    (rest : List σ) :
    ∃ left, left.length = before.length ∧
      searchFrom limit cancel ask start failed (before ++ rest) =
        ((searchFrom limit cancel ask t (failed ++ names) rest).1,
          left ++ (searchFrom limit cancel ask t (failed ++ names) rest).2) := by
  induction h generalizing failed with
  | nil t => exact ⟨[], rfl, by simp⟩
  | @lacks start d t s others names hanswers hcancel hrest ih =>
    obtain ⟨left, hlength, heq⟩ := ih failed
    refine ⟨(ask s).after :: left, by simp [hlength], ?_⟩
    rw [List.cons_append, searchFrom_of_lacks hanswers hcancel, heq]
    rfl
  | @fails start d t s others names hfails hcancel hrest ih =>
    obtain ⟨after, hstep⟩ := searchFrom_of_fails hfails hcancel failed (others ++ rest)
    obtain ⟨left, hlength, heq⟩ := ih (failed ++ [Source.name s])
    refine ⟨after :: left, by simp [hlength], ?_⟩
    rw [List.cons_append, hstep, heq]
    simp

/-- What is found first is given at once, and the later sources are left alone. -/
theorem searchFrom_of_isFirst (h : IsFirst limit cancel ask before s a t) (after : List σ) :
    (searchFrom limit cancel ask 0 [] (before ++ s :: after)).1 = ⟨.ok a, some t⟩ ∧
      (searchFrom limit cancel ask 0 [] (before ++ s :: after)).2.drop (before.length + 1) =
        after := by
  obtain ⟨start, failed, d, hpassed, hanswers, hcancel, rfl⟩ := h
  obtain ⟨left, hlength, heq⟩ := hpassed.searchFrom [] (s :: after)
  rw [heq, searchFrom_of_has hanswers hcancel, ← hlength]
  simp

/-- A search that is given up leaves the source that is pending, and the later ones, alone. -/
theorem searchFrom_of_givenUp (hpassed : Passed limit cancel ask 0 before t failed)
    (hpending : GivenUp limit cancel ask t s) (after : List σ) :
    (searchFrom limit cancel ask 0 [] (before ++ s :: after)).1 =
        ⟨.error (failed ++ [Source.name s]), cancel.moment t⟩ ∧
      (searchFrom limit cancel ask 0 [] (before ++ s :: after)).2.drop before.length =
        s :: after := by
  obtain ⟨left, hlength, heq⟩ := hpassed.searchFrom [] (s :: after)
  rw [heq, searchFrom_of_pending hpending, ← hlength]
  simp

theorem searchFrom_of_passed (h : Passed limit cancel ask 0 sources t failed) :
    (searchFrom limit cancel ask 0 [] sources).1 = ⟨.error failed, some t⟩ := by
  obtain ⟨left, -, heq⟩ := h.searchFrom [] []
  rw [List.append_nil] at heq
  rw [heq]
  rfl

/-- What a search finds, some source is the first to have. -/
theorem exists_isFirst (h : (searchFrom limit cancel ask 0 [] sources).1.value = .ok a) :
    ∃ before s after t, sources = before ++ s :: after ∧
      IsFirst limit cancel ask before s a t := by
  rcases search_cases limit cancel ask 0 sources with
    ⟨t, failed, hpassed⟩ |
    ⟨before, s, after, t, failed, rfl, hpassed, ⟨d, a', hanswers, hcancel⟩ | hpending⟩
  · rw [searchFrom_of_passed hpassed] at h
    cases h
  · have hfirst : IsFirst limit cancel ask before s a' (t + d) :=
      ⟨t, failed, d, hpassed, hanswers, hcancel, rfl⟩
    rw [(searchFrom_of_isFirst hfirst after).1] at h
    cases h
    exact ⟨before, s, after, _, rfl, hfirst⟩
  · rw [(searchFrom_of_givenUp hpassed hpending after).1] at h
    cases h

/-- A search ends if the caller gives up at some time, or if every call is over at some time. -/
theorem exists_ends
    (h : cancel ≠ .never ∨ ∀ s ∈ sources, ∃ d, (ask s).course.EndsAt limit d) :
    ∃ t, (searchFrom limit cancel ask 0 [] sources).1.ends = some t := by
  rcases search_cases limit cancel ask 0 sources with
    ⟨t, failed, hpassed⟩ |
    ⟨before, s, after, t, failed, rfl, hpassed, ⟨d, a, hanswers, hcancel⟩ | hpending⟩
  · exact ⟨t, by rw [searchFrom_of_passed hpassed]⟩
  · have hfirst : IsFirst limit cancel ask before s a (t + d) :=
      ⟨t, failed, d, hpassed, hanswers, hcancel, rfl⟩
    exact ⟨t + d, by rw [(searchFrom_of_isFirst hfirst after).1]⟩
  · rw [(searchFrom_of_givenUp hpassed hpending after).1]
    exact exists_moment (h.imp_right fun hall => hall s (by simp)) hpending

/-- If nobody gives up and every call is over at some time, a search comes to an end and finds the
first of what the sources yield. -/
theorem searchFrom_of_yields {outcomes : List (Option (Option β))}
    (h : List.Forall₂ (fun s => (ask s).course.Yields limit) sources outcomes) (start : Nat)
    (failed : List String) :
    (∃ t, (searchFrom limit .never ask start failed sources).1.ends = some t) ∧
      (searchFrom limit .never ask start failed sources).1.value.toOption =
        outcomes.findSome? Option.join := by
  induction h generalizing start failed with
  | nil => exact ⟨⟨start, rfl⟩, rfl⟩
  | @cons s outcome rest others hyields hrest ih =>
    have hnever := Cancel.before_never
    match outcome, hyields with
    | some (some a), ⟨d, hanswers⟩ =>
      rw [searchFrom_of_has hanswers (hnever _)]
      exact ⟨⟨start + d, rfl⟩, rfl⟩
    | some none, ⟨d, hanswers⟩ =>
      rw [searchFrom_of_lacks hanswers (hnever _)]
      exact ih (start + d) failed
    | none, ⟨d, hfails⟩ =>
      obtain ⟨after, hstep⟩ := searchFrom_of_fails hfails (hnever _) failed rest
      rw [hstep]
      exact ih (start + d) (failed ++ [Source.name s])

/-! ## Look-ups -/

/-- A search through sources in their order: what it gives, and which sources it leaves alone.  What
it has found is told by `found`, that it got past all sources by `missed`, and that the caller gave
up by `abandoned`, with the names of the sources that could not answer.  Sources may note their
calls, so one that is always left as it was has not been called. -/
structure Searches (limit : Option Nat) (cancel : Cancel) (ask : σ → Reply σ (Option β))
    (sources : List σ) (found : β → γ) (missed abandoned : List String → γ)
    (result : Timed γ × List σ) : Prop where
  /-- Something is found just if some source is the first that has it. -/
  found_iff : ∀ a, result.1.value = found a ↔
    ∃ before s after t, sources = before ++ s :: after ∧ IsFirst limit cancel ask before s a t
  /-- It is found as soon as this source gives it, and no later source is called. -/
  of_isFirst : ∀ before s after a t, sources = before ++ s :: after →
    IsFirst limit cancel ask before s a t →
      result.1 = ⟨found a, some t⟩ ∧ result.2.drop (before.length + 1) = after
  /-- If no source has it, the search ends after the last one. -/
  of_passed : ∀ t failed, Passed limit cancel ask 0 sources t failed →
    result.1 = ⟨missed failed, some t⟩
  /-- If the caller gives up while a source is pending, the search ends then, with this source as
  the last that could not answer, and no later one is called. -/
  of_givenUp : ∀ before s after t failed, sources = before ++ s :: after →
    Passed limit cancel ask 0 before t failed → GivenUp limit cancel ask t s →
      result.1 = ⟨abandoned (failed ++ [Source.name s]), cancel.moment t⟩ ∧
        result.2.drop before.length = s :: after
  /-- It ends if the caller gives up at some time, or if every call is over at some time. -/
  ends : (cancel ≠ .never ∨ ∀ s ∈ sources, ∃ d, (ask s).course.EndsAt limit d) →
    ∃ t, result.1.ends = some t

/-- The outcome of a search may be told in any way that tells apart what is found. -/
theorem searches_of_searchFrom {found : β → γ} {missed abandoned : List String → γ}
    {result : Timed γ × List σ} (told : Except (List String) β → γ)
    (hresult : result = (⟨told (searchFrom limit cancel ask 0 [] sources).1.value,
      (searchFrom limit cancel ask 0 [] sources).1.ends⟩,
      (searchFrom limit cancel ask 0 [] sources).2))
    (hfound : ∀ outcome a, told outcome = found a ↔ outcome = .ok a)
    (hmissed : ∀ failed, told (.error failed) = missed failed)
    (habandoned : ∀ failed name, told (.error (failed ++ [name])) = abandoned (failed ++ [name])) :
    Searches limit cancel ask sources found missed abandoned result := by
  subst hresult
  constructor
  case found_iff =>
    intro a
    rw [hfound]
    refine ⟨exists_isFirst, ?_⟩
    rintro ⟨before, s, after, t, rfl, hfirst⟩
    rw [(searchFrom_of_isFirst hfirst after).1]
  case of_isFirst =>
    rintro before s after a t rfl hfirst
    obtain ⟨heq, hdrop⟩ := searchFrom_of_isFirst hfirst after
    exact ⟨by rw [heq, (hfound _ a).mpr rfl], hdrop⟩
  case of_passed =>
    intro t failed hpassed
    rw [searchFrom_of_passed hpassed, hmissed]
  case of_givenUp =>
    rintro before s after t failed rfl hpassed hpending
    obtain ⟨heq, hdrop⟩ := searchFrom_of_givenUp hpassed hpending after
    exact ⟨by rw [heq, habandoned], hdrop⟩
  case ends => exact exists_ends

/-- How a look-up of one definition tells of the search. -/
def told : Except (List String) α → Resolution α
  | .ok a => .found a
  | .error failed => .missing failed

theorem findFrom_eq_searchFrom (limit : Option Nat) (cancel : Cancel) (id : Uuid) (start : Nat)
    (failed : List String) (sources : List σ) :
    findFrom limit cancel id start failed sources =
      (⟨told (searchFrom limit cancel (Source.find id) start failed sources).1.value,
        (searchFrom limit cancel (Source.find id) start failed sources).1.ends⟩,
        (searchFrom limit cancel (Source.find id) start failed sources).2) := by
  induction sources generalizing start failed with
  | nil => rfl
  | cons s rest ih =>
    rw [findFrom, searchFrom]
    generalize attempt limit cancel start s (Source.find id) = called
    obtain ⟨⟨value, _ | ends⟩, after⟩ := called
    · rfl
    · match value with
      | .ok (some a) => rfl
      | .ok none => simp only [ih]
      | .error .cancelled => rfl
      | .error (.timedOut l) => simp only [ih]
      | .error (.failed f) => simp only [ih]

theorem selectFirstFrom_eq_searchFrom (limit : Option Nat) (cancel : Cancel) (f : Filter α)
    (start : Nat) (failed : List String) (sources : List σ) :
    selectFirstFrom limit cancel f start sources =
      (⟨(searchFrom limit cancel (Source.selectFirst f) start failed sources).1.value.toOption,
        (searchFrom limit cancel (Source.selectFirst f) start failed sources).1.ends⟩,
        (searchFrom limit cancel (Source.selectFirst f) start failed sources).2) := by
  induction sources generalizing start failed with
  | nil => rfl
  | cons s rest ih =>
    rw [selectFirstFrom, searchFrom]
    generalize attempt limit cancel start s (Source.selectFirst f) = called
    obtain ⟨⟨value, _ | ends⟩, after⟩ := called
    · rfl
    · match value with
      | .ok (some a) => rfl
      | .ok none => simp only [ih ends failed]
      | .error .cancelled => rfl
      | .error (.timedOut l) => simp only [ih ends (failed ++ [Source.name s])]
      | .error (.failed e) => simp only [ih ends (failed ++ [Source.name s])]

theorem searches_find (r : Resolver σ) (cancel : Cancel) (id : Uuid) :
    Searches r.limit cancel (Source.find id) r.sources .found .missing .unavailable
      ((r.find cancel id).1, (r.find cancel id).2.sources) := by
  refine searches_of_searchFrom told (findFrom_eq_searchFrom ..) (fun outcome a => ?_)
    (fun _ => rfl) fun failed name => ?_
  · match outcome with
    | .ok b => simp [told]
    | .error [] => simp [told, Resolution.missing]
    | .error (name :: failed) => simp [told, Resolution.missing]
  · simp [told, Resolution.missing]

theorem searches_selectFirst (r : Resolver σ) (cancel : Cancel) (f : Filter α) :
    Searches r.limit cancel (Source.selectFirst f) r.sources some (fun _ => none) (fun _ => none)
      ((r.selectFirst cancel f).1, (r.selectFirst cancel f).2.sources) := by
  refine searches_of_searchFrom Except.toOption (selectFirstFrom_eq_searchFrom ..)
    (fun outcome a => ?_) (fun _ => rfl) fun _ _ => rfl
  cases outcome <;> simp [Except.toOption]

/-- Nobody giving up, a look-up that comes to an end has found something or got past all sources. -/
theorem find_never_cases {r : Resolver σ} {id : Uuid} {resolution : Resolution α}
    (h : (r.find .never id).1 = ⟨resolution, some t⟩) :
    (∃ a, resolution = .found a) ∨
      ∃ failed, Passed r.limit .never (Source.find id) 0 r.sources t failed ∧
        resolution = .missing failed := by
  have hsearch := r.searches_find .never id
  rcases search_cases r.limit .never (Source.find id) 0 r.sources with
    ⟨t', failed, hpassed⟩ |
    ⟨before, s, after, t', failed, hsplit, hpassed, ⟨d, a, hanswers, hcancel⟩ | hpending⟩
  · cases h.symm.trans (hsearch.of_passed t' failed hpassed)
    exact .inr ⟨failed, hpassed, rfl⟩
  · cases h.symm.trans (hsearch.of_isFirst before s after a _ hsplit
      ⟨t', failed, d, hpassed, hanswers, hcancel, rfl⟩).1
    exact .inl ⟨a, rfl⟩
  -- a caller who never gives up is not told anything of a call that is pending for ever
  · cases h.symm.trans (hsearch.of_givenUp before s after t' failed hsplit hpassed hpending).1

/-- Nobody giving up, a definition is not there just if every source says so. -/
theorem find_eq_notFound_iff (r : Resolver σ) (id : Uuid) :
    (∃ t, (r.find .never id).1 = ⟨.notFound, some t⟩) ↔
      ∀ s ∈ r.sources, ∃ d, (Source.find id s).course.Answers r.limit d none := by
  constructor
  · rintro ⟨t, heq⟩
    rcases find_never_cases heq with ⟨a, hfound⟩ | ⟨failed, hpassed, hmissing⟩
    · cases hfound
    · cases failed with
      | nil => exact hpassed.answers_none
      | cons name others => cases hmissing
  · intro h
    obtain ⟨t, hpassed⟩ := passed_of_answers_none h 0
    exact ⟨t, (r.searches_find .never id).of_passed t [] hpassed⟩

/-- Nobody giving up, a definition is unavailable just if no source has it and some failed, which
are named in their order. -/
theorem find_eq_unavailable_iff (r : Resolver σ) (id : Uuid) (failed : List String) :
    (∃ t, (r.find .never id).1 = ⟨.unavailable failed, some t⟩) ↔
      failed ≠ [] ∧ ∃ t, Passed r.limit .never (Source.find id) 0 r.sources t failed := by
  constructor
  · rintro ⟨t, heq⟩
    rcases find_never_cases heq with ⟨a, hfound⟩ | ⟨names, hpassed, hmissing⟩
    · cases hfound
    · cases names with
      | nil => cases hmissing
      | cons name others =>
        cases hmissing
        exact ⟨List.cons_ne_nil _ _, t, hpassed⟩
  · rintro ⟨hne, t, hpassed⟩
    refine ⟨t, ((r.searches_find .never id).of_passed t failed hpassed).trans ?_⟩
    cases failed with
    | nil => exact absurd rfl hne
    | cons name others => rfl

/-- What a look-up finds if nobody gives up and every call is over at some time. -/
theorem find?_of_yields {r : Resolver σ} {id : Uuid} {outcomes : List (Option (Option α))}
    (h : List.Forall₂ (fun s => (Source.find id s).course.Yields r.limit) r.sources outcomes) :
    ∃ t, (r.find? .never id).1 = ⟨outcomes.findSome? Option.join, some t⟩ := by
  have htold : ∀ outcome : Except (List String) α, (told outcome).value? = outcome.toOption
    | .ok _ => rfl
    | .error [] => rfl
    | .error (_ :: _) => rfl
  obtain ⟨⟨t, hends⟩, hvalue⟩ := searchFrom_of_yields h 0 []
  refine ⟨t, ?_⟩
  show (⟨(findFrom r.limit .never id 0 [] r.sources).1.value.value?,
    (findFrom r.limit .never id 0 [] r.sources).1.ends⟩ : Timed (Option α)) = _
  rw [findFrom_eq_searchFrom, hends, htold, hvalue]

@[inherit_doc find?_of_yields]
theorem selectFirst_of_yields {r : Resolver σ} {f : Filter α} {outcomes : List (Option (Option α))}
    (h : List.Forall₂ (fun s => (Source.selectFirst f s).course.Yields r.limit) r.sources
      outcomes) :
    ∃ t, (r.selectFirst .never f).1 = ⟨outcomes.findSome? Option.join, some t⟩ := by
  obtain ⟨⟨t, hends⟩, hvalue⟩ := searchFrom_of_yields h 0 []
  refine ⟨t, ?_⟩
  rw [selectFirst, selectFirstFrom_eq_searchFrom _ _ _ _ [], hends, hvalue]

theorem value_find?_eq_some_iff (r : Resolver σ) (cancel : Cancel) (id : Uuid) (a : α) :
    (r.find? cancel id).1.value = some a ↔ (r.find cancel id).1.value = .found a := by
  show (r.find cancel id).1.value.value? = some a ↔ _
  cases (r.find cancel id).1.value <;> simp [Resolution.value?]

/-- **Look-ups of one definition go by priority.**  Whatever the sources answer and whenever they
do, and whenever the caller gives up: a look-up finds what the first source that has it gives, if
every source before answers without it, fails or runs out of time, and the caller does not give up
before; and later sources are not called.  A caller who gives up is told of the failures so far and
of the source that is pending.  If nobody gives up, a definition is not there just if every source
says so, and is otherwise unavailable, for the sources that failed.  A look-up that does not say
why there is nothing finds the same, and a look-up by a filter goes by the same order. -/
theorem searches_by_priority (r : Resolver σ) (cancel : Cancel) (id : Uuid) (f : Filter α) :
    Searches r.limit cancel (Source.find id) r.sources .found .missing .unavailable
      ((r.find cancel id).1, (r.find cancel id).2.sources) ∧
    ((∃ t, (r.find .never id).1 = ⟨.notFound, some t⟩) ↔
      ∀ s ∈ r.sources, ∃ d, (Source.find id s).course.Answers r.limit d none) ∧
    (∀ failed, (∃ t, (r.find .never id).1 = ⟨.unavailable failed, some t⟩) ↔
      failed ≠ [] ∧ ∃ t, Passed r.limit .never (Source.find id) 0 r.sources t failed) ∧
    (∀ a, (r.find? cancel id).1.value = some a ↔ (r.find cancel id).1.value = .found a) ∧
    Searches r.limit cancel (Source.selectFirst f) r.sources some (fun _ => none) (fun _ => none)
      ((r.selectFirst cancel f).1, (r.selectFirst cancel f).2.sources) :=
  ⟨r.searches_find cancel id, r.find_eq_notFound_iff id, r.find_eq_unavailable_iff id,
    r.value_find?_eq_some_iff cancel id, r.searches_selectFirst cancel f⟩

/-- Past a failure and a call that runs out of time, a signal is found; a caller who gives up during
the latter is told of both. -/
example :
    let r : Resolver (Hindered (MemorySource Signal)) :=
      ⟨[⟨⟨some 3, some (.root "disk full")⟩, .ofList "broken" []⟩,
        ⟨⟨none, none⟩, .ofList "hanging" []⟩,
        ⟨⟨some 1, none⟩, .ofList "slow" [⟨.ofNat 1, "opened"⟩]⟩], some 10⟩
    (r.find .never (.ofNat 1)).1 = ⟨.found ⟨.ofNat 1, "opened"⟩, some 14⟩ ∧
      (r.find (.after 5) (.ofNat 1)).1 = ⟨.unavailable ["broken", "hanging"], some 5⟩ :=
  ⟨rfl, rfl⟩

end Resolver

end Signpost
