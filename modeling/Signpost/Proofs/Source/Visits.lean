import Mathlib.Data.Fintype.EquivFin
import Signpost.Proofs.Source.Announcement

/-!
# Calls of a persistent source that are under way

Any number of calls of one source can be under way at once.  Each of them looks into the cache, asks
the store, and changes the cache in steps of their own, and between these others go on and the store
is written.  A call that nobody interrupts does just what it is to do.

## Main definitions

* `Backed.Stage`, `Backed.Stage.advance`: how far a call has come, and its next step.
* `SharedSource`, `SharedSource.step`: a source, its store, and the calls that are under way.

## Main results

* `Backed.ends_opening`: what the steps of a call come to.
* `SharedSource.effect_of_step`: all that a move can do.
* `SharedSource.call_uninterrupted`: a call that nobody interrupts.
-/

namespace Signpost

variable {α : Type}

/-! ## The steps of a call -/

namespace Backed

variable [Definition α]

/-- The definitions that a call gives. -/
def gives (b : Backed α) : Call α → Except Failure (List α)
  | .find id => (b.find id).1.map Option.toList
  | .findMany ids => (b.findMany ids).1
  | .query f => (b.query f).1
  | .queryFirst f => (b.queryFirst f).1.map Option.toList
  | .refresh => b.refresh.1.map fun _ => []
  | .clear => .ok []

/-- How far a call has come. -/
inductive Stage (α : Type) where
  /-- It has yet to look for a definition in the cache. -/
  | probing (id : Uuid)
  /-- It asks the store for a definition that was not cached. -/
  | asking (id : Uuid)
  /-- It looks for one definition after another in the cache. -/
  | scanning (rest : List Uuid) (found : List α) (missing : List Uuid)
  /-- It asks the store for the definitions that were not cached. -/
  | requesting (found : List α) (missing : List Uuid)
  /-- It looks for a definition in the cache that a filter selects. -/
  | choosing (f : Filter α)
  /-- It has the store select definitions, and gives all or the first of them. -/
  | selecting (f : Filter α) (first : Bool)
  | listing
  | clearing
  /-- It has been given records, which it has yet to cache. -/
  | filling (records : List (Record α)) (found : List α)
  /-- It has been given a listing, by which it has yet to evict what is outdated. -/
  | evicting (headers : List Header)
  | returned (result : Except Failure (List α))
  /-- Nobody waits for it any longer. -/
  | dropped

/-- How a call begins. -/
def Call.opening : Call α → Stage α
  | .find id => .probing id
  | .findMany ids => .scanning ids [] []
  | .query f => .selecting f false
  | .queryFirst f => .choosing f
  | .refresh => .listing
  | .clear => .clearing

/-- Adds an identifier to those that are missing, unless it is one of them. -/
def noteMissing (missing : List Uuid) (id : Uuid) : List Uuid :=
  if id ∈ missing then missing else missing ++ [id]

/-- What a call has got, if the store does not fail. -/
def Stage.given {β : Type} (answer : Except Failure β) (next : β → Stage α) : Stage α :=
  match answer with
  | .error e => .returned (.error e)
  | .ok found => next found

/-- One step of a call, which may change what is cached. -/
def Stage.advance (s : PersistentSource α) (store : Store α) :
    Stage α → Option (Stage α × PersistentSource α)
  | .probing id => some (match s.probe id with
      | some a => .returned (.ok [a])
      | none => .asking id, s)
  | .asking id => some (given (store.get id) fun
      | none => .returned (.ok [])
      | some r => .filling [r] [r.payload], s)
  | .scanning [] found missing => some (match missing with
      | [] => .returned (.ok found)
      | _ => .requesting found missing, s)
  | .scanning (id :: rest) found missing => some (match s.probe id with
      | some a => .scanning rest (found ++ [a]) missing
      | none => .scanning rest found (noteMissing missing id), s)
  | .requesting found missing => some (given (store.getMany missing) fun records =>
      .filling records (found ++ records.map Record.payload), s)
  | .choosing f => some (match s.cache.find? fun entry => Definition.matches f entry.payload with
      | some entry => .returned (.ok [entry.payload])
      | none => .selecting f true, s)
  | .selecting f first => some (given (store.query f) fun records =>
      .filling records
        (if first then (records.map Record.payload).take 1 else records.map Record.payload), s)
  | .listing => some (given store.headers .evicting, s)
  | .clearing => some (.returned (.ok []), s.clear)
  | .filling records found => some (.returned (.ok found), s.remember records)
  | .evicting headers => some (.returned (.ok []), s.evictStale headers)
  | .returned _ | .dropped => none

/-- What a call is going to cache under an identifier. -/
def Stage.fills : Stage α → Uuid → Option α
  | .filling records _ => PersistentSource.fetched records
  | _ => fun _ => none

/-- A call that goes on by itself comes to an end. -/
inductive Ends (store : Store α) : Stage α → PersistentSource α →
    Except Failure (List α) → PersistentSource α → Prop
  | returned (result : Except Failure (List α)) (s : PersistentSource α) :
      Ends store (.returned result) s result s
  | step {stage next : Stage α} {s t u : PersistentSource α} {result : Except Failure (List α)}
      (hadvance : stage.advance s store = some (next, t)) (h : Ends store next t result u) :
      Ends store stage s result u

/-- A call that has looked for one definition after another has found those that are cached, and
notes the others once each. -/
theorem ends_scanning {store : Store α} {s u : PersistentSource α} {ids seen missing : List Uuid}
    {found : List α} {result : Except Failure (List α)} (hseen : ∀ id, id ∈ seen ↔ id ∈ missing)
    (h : Ends store (.scanning [] (found ++ ids.filterMap s.probe)
      (missing ++ Cache.firsts seen (ids.filter fun id => (s.probe id).isNone))) s result u) :
    Ends store (.scanning ids found missing) s result u := by
  induction ids generalizing found seen missing with
  | nil => simpa [Cache.firsts] using h
  | cons id rest ih =>
    cases hprobe : s.probe id with
    | some a =>
      rw [List.filterMap_cons_some hprobe, List.filter_cons_of_neg (by simp [hprobe]),
        List.append_cons] at h
      refine .step rfl ?_
      rw [hprobe]
      exact ih hseen h
    | none =>
      rw [List.filterMap_cons_none hprobe, List.filter_cons_of_pos (by simp [hprobe]),
        Cache.firsts] at h
      refine .step rfl ?_
      rw [hprobe]
      -- it is noted unless it has been noted before
      by_cases hmem : id ∈ missing
      · rw [if_pos ((hseen id).mpr hmem)] at h
        rw [noteMissing, if_pos hmem]
        exact ih hseen h
      · rw [if_neg (mt (hseen id).mp hmem), List.append_cons] at h
        rw [noteMissing, if_neg hmem]
        refine ih (fun k => ?_) h
        rw [List.mem_cons, hseen, List.mem_append, List.mem_singleton, or_comm]

/-- A call that has the store select gives what is selected. -/
theorem ends_selecting (b : Backed α) (f : Filter α) (first : Bool) :
    Ends b.store (.selecting f first) b.source
      ((b.query f).1.map fun found => if first then found.take 1 else found)
      (b.query f).2.source := by
  refine .step rfl ?_
  simp only [query, ask, Stage.given]
  cases b.store.query f with
  | error e => exact .returned _ _
  | ok records => exact .step rfl (.returned _ _)

/-- A call that nobody interrupts does what it is to do. -/
theorem ends_opening (b : Backed α) (c : Call α) :
    Ends b.store c.opening b.source (b.gives c) (b.after c).source := by
  cases c with
  | find id =>
    refine .step rfl ?_
    simp only [gives, after, find, ask]
    cases b.source.probe id with
    | some a => exact .returned _ _
    | none =>
      refine .step rfl ?_
      cases b.store.get id with
      | error e => exact .returned _ _
      | ok found =>
        cases found with
        | none => exact .returned _ _
        | some r => exact .step rfl (.returned _ _)
  | findMany ids =>
    refine ends_scanning (fun _ => Iff.rfl) (.step rfl ?_)
    have hmissing : Cache.firsts [] (ids.filter fun id => (b.source.probe id).isNone) =
        b.source.missing ids := rfl
    simp only [gives, after, findMany, List.nil_append, hmissing]
    cases b.source.missing ids with
    | nil => exact .returned _ _
    | cons id rest =>
      refine .step rfl ?_
      simp only [ask, Stage.given]
      cases b.store.getMany (id :: rest) with
      | error e => exact .returned _ _
      | ok records => exact .step rfl (.returned _ _)
  | query f =>
    have hall : ((b.query f).1.map fun found => if false then found.take 1 else found) =
        b.gives (.query f) := by
      show _ = (b.query f).1
      cases (b.query f).1 <;> rfl
    rw [← hall]
    exact ends_selecting b f false
  | queryFirst f =>
    refine .step rfl ?_
    simp only [gives, after, queryFirst]
    cases b.source.cache.find? fun entry => Definition.matches f entry.payload with
    | some entry => exact .returned _ _
    -- nothing that is cached is selected, so the store selects, and the first one is given
    | none =>
      have hfirst : ((b.query f).1.map fun found => if true then found.take 1 else found) =
          ((b.query f).1.map List.head?).map Option.toList := by
        cases (b.query f).1 with
        | error e => rfl
        | ok found => cases found <;> rfl
      rw [← hfirst]
      exact ends_selecting b f true
  | refresh =>
    refine .step rfl ?_
    simp only [gives, after, refresh, ask, Stage.given]
    cases b.store.headers with
    | error e => exact .returned _ _
    | ok headers => exact .step rfl (.returned _ _)
  | clear => exact .step rfl (.returned _ _)

end Backed

open Backed (Call Stage Ends)

/-! ## Moves -/

/-- A call and how far it has come. -/
structure Visit (α : Type) where
  call : Call α
  stage : Stage α

/-- A persistent source, the store behind it, and the calls that have been made of the source. -/
structure SharedSource (α : Type) where
  source : PersistentSource α
  store : Store α
  visits : Dict Nat (Visit α)

namespace SharedSource

/-- A move of the store's or of a call. -/
inductive Move (α : Type) where
  /-- The store is written, or fails, or answers again. -/
  | store (store : Store α)
  | begin (n : Nat) (c : Call α)
  | go (n : Nat)
  /-- Nobody waits for a call any longer. -/
  | drop (n : Nat)

/-- The state with a call that has come to some point. -/
def setVisit (x : SharedSource α) (n : Nat) (v : Visit α) : SharedSource α :=
  { x with visits := x.visits.put n v }

variable [Definition α]

/-- One move, where it is possible. -/
def step (x : SharedSource α) : Move α → Option (SharedSource α)
  | .store store => some { x with store }
  | .begin n c => if x.visits.contains n then none else some (x.setVisit n ⟨c, c.opening⟩)
  | .go n =>
    (x.visits.get? n).bind fun v =>
      (v.stage.advance x.source x.store).map fun (stage, source) =>
        { x.setVisit n ⟨v.call, stage⟩ with source }
  | .drop n => (x.visits.get? n).map fun v => x.setVisit n ⟨v.call, .dropped⟩

/-- A list of moves, if each of them is possible in its turn. -/
def replay (x : SharedSource α) : List (Move α) → Option (SharedSource α)
  | [] => some x
  | m :: rest => (x.step m).bind fun y => replay y rest

variable {x y : SharedSource α} {m : Move α} {n k : Nat} {v v' : Visit α} {c : Call α}

omit [Definition α] in
theorem get?_setVisit (x : SharedSource α) (n k : Nat) (v : Visit α) :
    (x.setVisit n v).visits.get? k = if k = n then some v else x.visits.get? k :=
  Dict.get?_put x.visits n k v

omit [Definition α] in
@[simp] theorem get?_setVisit_self (x : SharedSource α) (n : Nat) (v : Visit α) :
    (x.setVisit n v).visits.get? n = some v := by
  rw [get?_setVisit, if_pos rfl]

omit [Definition α] in
/-- A call is where it has come to, and all others are where they were. -/
theorem cases_of_setVisit (h : (x.setVisit n v).visits.get? k = some v') :
    (k = n ∧ v' = v) ∨ x.visits.get? k = some v' := by
  rw [get?_setVisit] at h
  split at h
  · next hk => exact .inl ⟨hk, (Option.some.inj h).symm⟩
  · exact .inr h

omit [Definition α] in
theorem exists_unused (x : SharedSource α) : ∃ k, x.visits.get? k = none := by
  -- only finitely many numbers are those of calls
  obtain ⟨k, hk⟩ := Infinite.exists_notMem_finset x.visits.keys.toFinset
  refine ⟨k, Option.not_isSome_iff_eq_none.mp fun hsome => hk ?_⟩
  exact List.mem_toFinset.mpr ((Dict.mem_keys_iff _ _).mpr hsome)

/-! ## What moves do -/

/-- What a move does to the source, the store and the calls. -/
inductive Effect (x : SharedSource α) : Move α → SharedSource α → Prop
  | stored (store : Store α) : Effect x (.store store) { x with store }
  | begun {n : Nat} {c : Call α} (hnew : x.visits.get? n = none) :
      Effect x (.begin n c) (x.setVisit n ⟨c, c.opening⟩)
  | advanced {n : Nat} {v : Visit α} {stage : Stage α} {source : PersistentSource α}
      (hvisit : x.visits.get? n = some v)
      (hadvance : v.stage.advance x.source x.store = some (stage, source)) :
      Effect x (.go n) { x.setVisit n ⟨v.call, stage⟩ with source }
  | dropped {n : Nat} {v : Visit α} (hvisit : x.visits.get? n = some v) :
      Effect x (.drop n) (x.setVisit n ⟨v.call, .dropped⟩)

/-- Every move does one of these things. -/
theorem effect_of_step (h : x.step m = some y) : Effect x m y := by
  cases m with
  | store store =>
    cases h
    exact .stored store
  | begin n c =>
    simp only [step] at h
    split at h <;> cases h
    next hnew => exact .begun (by simpa [Dict.contains] using hnew)
  | go n =>
    obtain ⟨v, hvisit, hmap⟩ := Option.bind_eq_some_iff.mp h
    obtain ⟨⟨stage, source⟩, hadvance, rfl⟩ := Option.map_eq_some_iff.mp hmap
    exact .advanced hvisit hadvance
  | drop n =>
    obtain ⟨v, hvisit, rfl⟩ := Option.map_eq_some_iff.mp h
    exact .dropped hvisit

theorem replay_cons (h : x.step m = some y) (rest : List (Move α)) :
    x.replay (m :: rest) = y.replay rest := by
  rw [replay, h]
  rfl

theorem step_go {stage : Stage α} {source : PersistentSource α}
    (hvisit : x.visits.get? n = some v)
    (hadvance : v.stage.advance x.source x.store = some (stage, source)) :
    x.step (.go n) = some { x.setVisit n ⟨v.call, stage⟩ with source } := by
  simp only [step, hvisit, Option.bind_some, hadvance, Option.map_some]

theorem step_begin (hnew : x.visits.get? n = none) (c : Call α) :
    x.step (.begin n c) = some (x.setVisit n ⟨c, c.opening⟩) := by
  simp [step, Dict.contains, hnew]

/-! ## Calls that nobody interrupts -/

/-- The source and its store, without the calls. -/
def backed (x : SharedSource α) : Backed α := ⟨x.source, x.store, []⟩

theorem replay_of_ends {stage : Stage α} {s t : PersistentSource α}
    {result : Except Failure (List α)} (h : Ends x.store stage s result t) (hsource : x.source = s)
    (hvisit : x.visits.get? n = some ⟨c, stage⟩) :
    ∃ k y, x.replay (List.replicate k (.go n)) = some y ∧ y.source = t ∧
      y.visits.get? n = some ⟨c, .returned result⟩ := by
  generalize hstore : x.store = store at h
  -- induction over the steps of the call, each of which is a move
  induction h generalizing x with
  | returned result s => exact ⟨0, x, rfl, hsource, hvisit⟩
  | step hadvance h ih =>
    subst hsource hstore
    obtain ⟨k, y, hmoves, hend⟩ := ih (x := { x.setVisit n ⟨c, _⟩ with source := _ }) rfl
      (get?_setVisit_self x n _) rfl
    exact ⟨k + 1, y, (replay_cons (step_go hvisit hadvance) _).trans hmoves, hend⟩

/-- A call that nobody interrupts does what it is to do. -/
theorem call_uninterrupted (hnew : x.visits.get? n = none) (c : Call α) :
    ∃ k y, x.replay (.begin n c :: List.replicate k (.go n)) = some y ∧
      y.source = (x.backed.after c).source ∧
      y.visits.get? n = some ⟨c, .returned (x.backed.gives c)⟩ := by
  obtain ⟨k, y, hmoves, hend⟩ := replay_of_ends (x := x.setVisit n ⟨c, c.opening⟩)
    (Backed.ends_opening x.backed c) rfl (get?_setVisit_self x n _)
  exact ⟨k, y, (replay_cons (step_begin hnew c) _).trans hmoves, hend⟩

end SharedSource

end Signpost
