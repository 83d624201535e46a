import Signpost.Proofs.Source.Visits
import Signpost.Proofs.Store.Content

/-!
# Calls of a persistent source that overlap a reconciliation

Nothing ties an answer of the store to the time at which it is cached.  So after a reconciliation
has evicted what is outdated, an answer that was given before the last write can still be cached,
and every look-up after that gives it.  Just this can go wrong, if the tags tell the definitions of
one identifier apart; otherwise the reconciliation can leave what is outdated, too.

## Main definitions

* `SharedSource.Run`: the runs from an empty cache, with what the store has had.
* `SharedSource.Reconciled`: a reconciliation has come to its end.
* `SharedSource.UpToDate`: nothing outdated is cached, or going to be cached.
* `SharedSource.AnswersLater`: every call that begins later gives what the store has.

## Main results

* `SharedSource.Stems.step`, `SharedSource.Run.stems`: what is cached, and what is going to be
  cached, was in the store.
* `SharedSource.UpToDate.step`, `SharedSource.Sound.advance`: calls of a source that is up to date.
* `SharedSource.Reconciled.undone_only_by_held`: when a reconciliation lasts.
* `SharedSource.reconciliation_undone`
-/

namespace Signpost

open Backed (Call Stage)

variable {α : Type}

/-- A call gives what a store has: a look-up of one definition just the one that is there, and every
other call none that is not there. -/
def Content.Answers (now : Content α) (found : List α) : Call α → Prop
  | .find id => found = (now.get? id).toList
  | .findMany ids => ∀ a ∈ found, ∃ id ∈ ids, now.get? id = some a
  | .query _ | .queryFirst _ | .refresh | .clear => ∀ a ∈ found, ∃ id, now.get? id = some a

namespace SharedSource

variable [Definition α] {x y z : SharedSource α} {m : Move α} {moves more : List (Move α)}
  {n k : Nat} {v v' : Visit α} {c : Call α} {id : Uuid} {a : α} {now : Content α}
  {past : List (Content α)}

/-! ## Where the cached definitions come from -/

section Steps

variable {stage next : Stage α} {s t : PersistentSource α} {store : Store α}
  {records : List (Record α)} {found : List α} {entry : CachedDefinition α}

omit [Definition α] in
theorem entry_of_remember (h : (s.remember records).cache.get? id = some entry) :
    (∃ r ∈ records, r.id = id ∧ entry = ⟨r.etag, r.payload⟩) ∨ s.cache.get? id = some entry := by
  rw [PersistentSource.remember, Cache.get?_put, Option.or_eq_some_iff] at h
  refine h.imp (fun hput => ?_) And.right
  obtain ⟨r, hr, heq⟩ := List.mem_map.mp (List.mem_reverse.mp (Dict.mem_of_find? hput))
  cases heq
  exact ⟨r, hr, rfl, rfl⟩

omit [Definition α] in
theorem entry_of_evict {p : Uuid → CachedDefinition α → Bool}
    (h : (s.evict p).cache.get? id = some entry) :
    s.cache.get? id = some entry ∧ p id entry = false := by
  have hfilter : (s.cache.evictWhere p).1.get? id = some entry := h
  rw [Cache.get?_evictWhere, Option.filter_eq_some_iff] at hfilter
  exact hfilter.imp_right fun hkept => by simpa using hkept

/-- What a call is going to cache is what the store tells it. -/
theorem filling_of_advance (hstore : store.Tells now)
    (h : stage.advance s store = some (.filling records found, t)) :
    ∀ r ∈ records, now.record? r.id = some r := by
  cases stage with
  | probing | choosing =>
    simp only [Stage.advance] at h
    split at h <;> cases h
  | scanning rest found missing =>
    cases rest <;> simp only [Stage.advance] at h <;> split at h <;> cases h
  | asking id =>
    simp only [Stage.advance] at h
    cases hget : store.get id with
    | error e =>
      rw [hget] at h
      cases h
    | ok got =>
      rw [hget] at h
      have hrecord := hstore.get hget
      cases got with
      | none => cases h
      | some r =>
        cases h
        intro r' hr'
        rw [List.mem_singleton.mp hr', now.id_eq hrecord.symm, ← hrecord]
  | requesting found missing =>
    simp only [Stage.advance] at h
    cases hget : store.getMany missing <;> rw [hget] at h <;> cases h
    exact fun r hr => (hstore.getMany hget r hr).2
  | selecting f first =>
    simp only [Stage.advance] at h
    cases hquery : store.query f <;> rw [hquery] at h <;> cases h
    exact hstore.query hquery
  | listing =>
    simp only [Stage.advance] at h
    cases hheaders : store.headers <;> rw [hheaders] at h <;> cases h
  | clearing | filling | evicting | returned | dropped => cases h

/-- What a step of a call does to the cache. -/
theorem source_of_advance (h : stage.advance s store = some (next, t)) :
    t = s ∨ (∃ records found, stage = .filling records found ∧ t = s.remember records) ∨
      ∃ p, t = s.evict p := by
  cases stage with
  | probing | asking | requesting | choosing | selecting | listing =>
    cases h
    exact .inl rfl
  | scanning rest found missing =>
    cases rest <;> cases h <;> exact .inl rfl
  | filling records found =>
    cases h
    exact .inr (.inl ⟨records, found, rfl, rfl⟩)
  | clearing | evicting =>
    cases h
    exact .inr (.inr ⟨_, rfl⟩)
  | returned | dropped => cases h

end Steps

/-- Everything that is cached, or is going to be cached, was in the store at some time. -/
structure Stems (x : SharedSource α) (history : List (Content α)) : Prop where
  cached : ∀ id entry, x.source.cache.get? id = some entry →
    ∃ h ∈ history, ∃ r, h.record? id = some r ∧ entry = ⟨r.etag, r.payload⟩
  held : ∀ n c records found, x.visits.get? n = some ⟨c, .filling records found⟩ →
    ∀ r ∈ records, ∃ h ∈ history, h.record? r.id = some r

variable {history : List (Content α)}

omit [Definition α] in
theorem Stems.setVisit (h : x.Stems history) (n : Nat)
    (hheld : ∀ records found, v.stage = .filling records found →
      ∀ r ∈ records, ∃ h ∈ history, h.record? r.id = some r) :
    (x.setVisit n v).Stems history where
  cached := h.cached
  held k c records found hk := by
    rcases cases_of_setVisit hk with ⟨-, rfl⟩ | hsame
    · exact hheld records found rfl
    · exact h.held k c records found hsame

/-- No move caches anything, or gives it to a call, that was not in the store. -/
theorem Stems.step (h : x.Stems history) (hstore : x.store.Tells now) (hnow : now ∈ history)
    (hstep : x.step m = some y) : y.Stems history := by
  cases effect_of_step hstep with
  | stored store => exact ⟨h.cached, h.held⟩
  | @begun n c hnew =>
    refine h.setVisit n fun records found heq => ?_
    cases c <;> cases heq
  | dropped hvisit => exact h.setVisit _ nofun
  | @advanced n v stage source hvisit hadvance =>
    have hmoved := h.setVisit n (v := ⟨v.call, stage⟩) fun records found heq r hr => by
      cases heq
      exact ⟨now, hnow, filling_of_advance hstore hadvance r hr⟩
    refine ⟨fun id entry hentry => ?_, hmoved.held⟩
    rcases source_of_advance hadvance with rfl | ⟨records, found, hstage, rfl⟩ | ⟨p, rfl⟩
    · exact h.cached id entry hentry
    -- what the call has held is cached now
    · rcases entry_of_remember hentry with ⟨r, hr, rfl, rfl⟩ | hkept
      · have hvisit' : x.visits.get? n = some ⟨v.call, .filling records found⟩ := by
          rw [hvisit, ← hstage]
        obtain ⟨g, hg, hrecord⟩ := h.held n v.call records found hvisit' r hr
        exact ⟨g, hg, r, hrecord, rfl⟩
      · exact h.cached id entry hkept
    · exact h.cached id entry (entry_of_evict hentry).1

/-- A run of a source that began with nothing cached, with what the store has and has had, the last
one first. -/
inductive Run : SharedSource α → List (Content α) → Prop
  | start (name : String) {store : Store α} {now : Content α} (hstore : store.Tells now) :
      Run ⟨.new name, store, .empty⟩ [now]
  /-- A call goes on, or the store fails or answers again. -/
  | step {x y : SharedSource α} {m : Move α} {now : Content α} {past : List (Content α)}
      (h : Run x (now :: past)) (hquiet : ∀ store, m = .store store → store.Tells now)
      (hstep : x.step m = some y) : Run y (now :: past)
  | write {x : SharedSource α} {store : Store α} {now next : Content α} {past : List (Content α)}
      (h : Run x (now :: past)) (hstore : store.Tells next) :
      Run { x with store } (next :: now :: past)

/-- A store that tells the same before and after a move. -/
theorem tells_of_step (hstore : x.store.Tells now)
    (hquiet : ∀ store, m = .store store → store.Tells now) (hstep : x.step m = some y) :
    y.store.Tells now := by
  cases effect_of_step hstep with
  | stored store => exact hquiet store rfl
  | begun | advanced | dropped => exact hstore

/-- What every move keeps is kept until the store is written. -/
theorem replay_induction {p : SharedSource α → Prop}
    (hkeep : ∀ {x y m}, p x → x.store.Tells now → (∀ store, m = .store store → store.Tells now) →
      x.step m = some y → p y)
    (h : p x) (hstore : x.store.Tells now) (hmoves : x.replay moves = some y)
    (hquiet : ∀ store, .store store ∈ moves → store.Tells now) : p y ∧ y.store.Tells now := by
  induction moves generalizing x with
  | nil =>
    cases hmoves
    exact ⟨h, hstore⟩
  | cons m rest ih =>
    obtain ⟨next, hstep, hrest⟩ := Option.bind_eq_some_iff.mp hmoves
    have hmove : ∀ store, m = .store store → store.Tells now := fun store hm =>
      hquiet store (hm ▸ List.mem_cons_self)
    exact ih (hkeep h hstore hmove hstep) (tells_of_step hstore hmove hstep) hrest fun store hmem =>
      hquiet store (List.mem_cons_of_mem m hmem)

/-- **What is cached was in the store**, whatever calls overlap, and so is what is going to be. -/
theorem Run.stems (h : Run x (now :: past)) : x.store.Tells now ∧ x.Stems (now :: past) := by
  generalize hhistory : now :: past = history at h
  induction h generalizing now past with
  | start name hstore =>
    cases hhistory
    exact ⟨hstore, nofun, nofun⟩
  | step h hquiet hstep ih =>
    cases hhistory
    obtain ⟨hstore, hstems⟩ := ih rfl
    exact ⟨tells_of_step hstore hquiet hstep, hstems.step hstore List.mem_cons_self hstep⟩
  | @write x store now next past h hstore ih =>
    cases hhistory
    obtain ⟨-, hstems⟩ := ih rfl
    -- what was in the store before is now what it has had
    refine ⟨hstore, fun id entry hentry => ?_, fun n c records found hheld r hr => ?_⟩
    · obtain ⟨g, hg, hrecord⟩ := hstems.cached id entry hentry
      exact ⟨g, List.mem_cons_of_mem _ hg, hrecord⟩
    · obtain ⟨g, hg, hrecord⟩ := hstems.held n c records found hheld r hr
      exact ⟨g, List.mem_cons_of_mem _ hg, hrecord⟩

/-- A run goes on with the moves that are possible, as long as the store is not written. -/
theorem Run.replay (h : Run x (now :: past)) (hmoves : x.replay moves = some y)
    (hquiet : ∀ store, .store store ∈ moves → store.Tells now) : Run y (now :: past) :=
  (replay_induction (p := fun y => Run y (now :: past))
    (fun h _ hmove hstep => h.step hmove hstep) h h.stems.1 hmoves hquiet).1

/-! ## Sources that are up to date -/

/-- Nothing outdated is cached, and no call is going to cache anything outdated. -/
structure UpToDate (x : SharedSource α) (now : Content α) : Prop where
  cached : ∀ id a, x.source.probe id = some a → now.get? id = some a
  held : ∀ n v id a, x.visits.get? n = some v → v.stage.fills id = some a → now.get? id = some a

omit [Definition α] in
theorem UpToDate.setVisit (h : x.UpToDate now) (n : Nat)
    (hheld : ∀ id a, v.stage.fills id = some a → now.get? id = some a) :
    (x.setVisit n v).UpToDate now where
  cached := h.cached
  held k v' id a hk hfills := by
    rcases cases_of_setVisit hk with ⟨-, rfl⟩ | hsame
    · exact hheld id a hfills
    · exact h.held k v' id a hsame hfills

/-- A source that is up to date stays so until the store is written. -/
theorem UpToDate.step (h : x.UpToDate now) (hstore : x.store.Tells now)
    (hstep : x.step m = some y) : y.UpToDate now := by
  cases effect_of_step hstep with
  | stored store => exact ⟨h.cached, h.held⟩
  | @begun n c hnew =>
    refine h.setVisit n fun id a hfills => ?_
    cases c <;> cases hfills
  | dropped hvisit => exact h.setVisit _ nofun
  | @advanced n v stage source hvisit hadvance =>
    have hmoved := h.setVisit n (v := ⟨v.call, stage⟩) fun id a hfills => by
      cases stage with
      | filling records found =>
        obtain ⟨r, hr, rfl, rfl⟩ := PersistentSource.exists_of_fetched hfills
        exact congrArg (Option.map Record.payload) (filling_of_advance hstore hadvance r hr)
      | _ => cases hfills
    refine ⟨fun id a hcached => ?_, hmoved.held⟩
    rcases source_of_advance hadvance with rfl | ⟨records, found, hstage, rfl⟩ | ⟨p, rfl⟩
    · exact h.cached id a hcached
    · rcases Option.or_eq_some_iff.mp
        ((PersistentSource.probe_remember _ _ _).symm.trans hcached) with hfetched | ⟨-, hkept⟩
      · exact h.held n v id a hvisit (by rw [hstage]; exact hfetched)
      · exact h.cached id a hkept
    · rcases PersistentSource.probe_evict_eq_or p x.source id with hsame | hgone
      · exact h.cached id a (hsame.symm.trans hcached)
      · exact nomatch hgone.symm.trans hcached

/-! ## Look-ups that begin later -/

/-- How far a call can have come, and that it gives nothing else than what the store has. -/
def Sound (now : Content α) (c : Call α) : Stage α → Prop
  | .probing id | .asking id => c = .find id
  | .scanning rest found missing => ∃ ids, c = .findMany ids ∧ (∀ id ∈ rest, id ∈ ids) ∧
      (∀ id ∈ missing, id ∈ ids) ∧ now.Answers found c
  | .requesting found missing =>
    ∃ ids, c = .findMany ids ∧ (∀ id ∈ missing, id ∈ ids) ∧ now.Answers found c
  | .choosing f => c = .queryFirst f
  | .selecting f _ => c = .query f ∨ c = .queryFirst f
  | .listing | .evicting _ => c = .refresh
  | .clearing => c = .clear
  | .filling _ found | .returned (.ok found) => now.Answers found c
  | .returned (.error _) | .dropped => True

omit [Definition α] in
theorem sound_opening (now : Content α) (c : Call α) : Sound now c c.opening := by
  cases c with
  | find | queryFirst | refresh | clear => rfl
  | query => exact .inl rfl
  | findMany ids => exact ⟨ids, rfl, fun _ hid => hid, nofun, nofun⟩

section Steps

variable {stage next : Stage α} {s t : PersistentSource α} {store : Store α}

omit [Definition α] in
/-- A call that looks for one definition after another notes only those that it has been asked
for. -/
theorem sound_scanning {rest missing : List Uuid} {found : List α}
    (h : Sound now c (.scanning (id :: rest) found missing))
    (hcached : ∀ id a, s.probe id = some a → now.get? id = some a) :
    Sound now c (match s.probe id with
      | some a => .scanning rest (found ++ [a]) missing
      | none => .scanning rest found (Backed.noteMissing missing id)) := by
  obtain ⟨ids, rfl, hrest, hmissing, hfound⟩ := h
  obtain ⟨hid, hrest⟩ := List.forall_mem_cons.mp hrest
  cases hprobe : s.probe id with
  | some a =>
    refine ⟨ids, rfl, hrest, hmissing, ?_⟩
    intro a' ha'
    rcases List.mem_append.mp ha' with hold | hnew
    · exact hfound a' hold
    · obtain rfl := List.mem_singleton.mp hnew
      exact ⟨id, hid, hcached id a' hprobe⟩
  -- only what the call has been asked for is noted
  | none =>
    refine ⟨ids, rfl, hrest, ?_, hfound⟩
    intro k hk
    unfold Backed.noteMissing at hk
    split at hk
    · exact hmissing k hk
    · rcases List.mem_append.mp hk with hold | hnew
      · exact hmissing k hold
      · exact List.mem_singleton.mp hnew ▸ hid

/-- A call that began with a source that is up to date goes on to give what the store has. -/
theorem Sound.advance (h : Sound now c stage)
    (hcached : ∀ id a, s.probe id = some a → now.get? id = some a) (hstore : store.Tells now)
    (hadvance : stage.advance s store = some (next, t)) : Sound now c next := by
  cases stage with
  | probing id =>
    obtain rfl : c = .find id := h
    cases hadvance
    cases hprobe : s.probe id with
    | some a => exact (congrArg Option.toList (hcached id a hprobe)).symm
    | none => rfl
  | asking id =>
    obtain rfl : c = .find id := h
    cases hadvance
    cases hget : store.get id with
    | error e => trivial
    | ok found =>
      have hheld : now.get? id = found.map Record.payload :=
        congrArg (Option.map Record.payload) (hstore.get hget).symm
      cases found <;> exact (congrArg Option.toList hheld).symm
  | scanning rest found missing =>
    cases rest with
    | nil =>
      obtain ⟨ids, rfl, -, hmissing, hfound⟩ := h
      cases hadvance
      cases missing with
      | nil => exact hfound
      | cons id rest => exact ⟨ids, rfl, hmissing, hfound⟩
    | cons id rest =>
      cases hadvance
      exact sound_scanning h hcached
  | requesting found missing =>
    obtain ⟨ids, rfl, hmissing, hfound⟩ := h
    cases hadvance
    cases hget : store.getMany missing with
    | error e => trivial
    | ok records =>
      intro a ha
      rcases List.mem_append.mp ha with hold | hnew
      · exact hfound a hold
      · obtain ⟨id, hid, hheld⟩ := hstore.get?_of_getMany hget hnew
        exact ⟨id, hmissing id hid, hheld⟩
  | choosing f =>
    obtain rfl : c = .queryFirst f := h
    cases hadvance
    cases hfind : s.cache.find? fun entry => Definition.matches f entry.payload with
    | none => exact .inr rfl
    | some entry =>
      intro a ha
      obtain rfl := List.mem_singleton.mp ha
      obtain ⟨id, hget⟩ := (s.cache.mem_values_iff entry).mp (List.mem_of_find?_eq_some hfind)
      exact ⟨id, hcached id _ (congrArg (Option.map CachedDefinition.payload) hget)⟩
  | selecting f first =>
    cases hadvance
    cases hquery : store.query f with
    | error e => trivial
    | ok records =>
      have hgiven : ∀ a ∈ (if first then (records.map Record.payload).take 1
          else records.map Record.payload), ∃ id, now.get? id = some a := by
        intro a ha
        split at ha
        · exact hstore.get?_of_query hquery (List.mem_of_mem_take ha)
        · exact hstore.get?_of_query hquery ha
      rcases h with rfl | rfl <;> exact hgiven
  | listing =>
    obtain rfl : c = .refresh := h
    cases hadvance
    cases hheaders : store.headers with
    | error e => trivial
    | ok headers => rfl
  | clearing =>
    obtain rfl : c = .clear := h
    cases hadvance
    exact nofun
  | filling records found =>
    cases hadvance
    exact h
  | evicting headers =>
    obtain rfl : c = .refresh := h
    cases hadvance
    exact nofun
  | returned | dropped => cases hadvance

end Steps

/-- Every call that was not there at some moment gives what the store has. -/
def LaterSound (x y : SharedSource α) (now : Content α) : Prop :=
  ∀ n v, x.visits.get? n = none → y.visits.get? n = some v → Sound now v.call v.stage

theorem LaterSound.step (h : x.LaterSound y now) (hcurrent : y.UpToDate now)
    (hstore : y.store.Tells now) (hstep : y.step m = some z) : x.LaterSound z now := by
  intro k v' hnew hk
  cases effect_of_step hstep with
  | stored store => exact h k v' hnew hk
  | @begun n c hunused =>
    rcases cases_of_setVisit hk with ⟨-, rfl⟩ | hsame
    · exact sound_opening now c
    · exact h k v' hnew hsame
  | @advanced n v stage source hvisit hadvance =>
    rcases cases_of_setVisit hk with ⟨rfl, rfl⟩ | hsame
    · exact (h k v hnew hvisit).advance hcurrent.cached hstore hadvance
    · exact h k v' hnew hsame
  | dropped hvisit =>
    rcases cases_of_setVisit hk with ⟨-, rfl⟩ | hsame
    · trivial
    · exact h k v' hnew hsame

/-- A look-up of what is cached gives it at once. -/
theorem replay_find (hnew : x.visits.get? k = none) (hcached : x.source.probe id = some a) :
    ∃ z, x.replay [.begin k (.find id), .go k] = some z ∧
      z.visits.get? k = some ⟨.find id, .returned (.ok [a])⟩ := by
  have hadvance : (Stage.probing id : Stage α).advance x.source x.store =
      some (.returned (.ok [a]), x.source) := by
    rw [Stage.advance, hcached]
  have hgo := step_go (get?_setVisit_self x k ⟨.find id, .probing id⟩) hadvance
  exact ⟨_, (replay_cons (step_begin hnew (.find id)) _).trans (replay_cons hgo _),
    get?_setVisit_self _ k _⟩

/-- Every call that begins later, and returns before the store is written, gives what the store
has. -/
def AnswersLater (x : SharedSource α) (now : Content α) : Prop :=
  ∀ more y k c found, x.replay more = some y → (∀ store, .store store ∈ more → store.Tells now) →
    x.visits.get? k = none → y.visits.get? k = some ⟨c, .returned (.ok found)⟩ →
    now.Answers found c

theorem UpToDate.answersLater (h : x.UpToDate now) (hstore : x.store.Tells now) :
    x.AnswersLater now := by
  intro more y k c found hmore hquiet hnew hreturned
  have hnone : x.LaterSound x now := fun n v hunused hvisit => nomatch hunused.symm.trans hvisit
  -- the source stays up to date, and so the later calls stay sound
  have hkept := replay_induction (p := fun y => y.UpToDate now ∧ x.LaterSound y now)
    (fun h hstore _ hstep => ⟨h.1.step hstore hstep, h.2.step h.1 hstore hstep⟩) ⟨h, hnone⟩
    hstore hmore hquiet
  exact hkept.1.2 k _ hnew hreturned

/-- If a source is not up to date, some look-up that begins later can give something else. -/
theorem AnswersLater.upToDate (h : x.AnswersLater now) : x.UpToDate now := by
  obtain ⟨k, hnew⟩ := x.exists_unused
  have hsome : ∀ {a id}, [a] = (now.get? id).toList → now.get? id = some a := by
    intro a id heq
    cases hget : now.get? id with
    | none => rw [hget] at heq; cases heq
    | some a' => rw [hget] at heq; cases heq; rfl
  constructor
  · intro id a hcached
    obtain ⟨z, hmoves, hreturned⟩ := replay_find hnew hcached
    exact hsome (h _ z k _ _ hmoves (by simp) hnew hreturned)
  · intro n v id a hvisit hfills
    obtain ⟨c, stage⟩ := v
    cases stage with
    | filling records found =>
      -- the call caches what it holds, and then a look-up finds it
      have hgo := step_go hvisit rfl
      have hunused : (x.setVisit n ⟨c, .returned (.ok found)⟩).visits.get? k = none := by
        rw [get?_setVisit, if_neg, hnew]
        rintro rfl
        exact nomatch hnew.symm.trans hvisit
      have hcached : (x.source.remember records).probe id = some a := by
        rw [PersistentSource.probe_remember]
        exact Option.or_eq_some_iff.mpr (.inl hfills)
      obtain ⟨z, hmoves, hreturned⟩ := replay_find (x := { x.setVisit n
        ⟨c, .returned (.ok found)⟩ with source := x.source.remember records }) hunused hcached
      exact hsome (h _ z k _ _ ((replay_cons hgo _).trans hmoves) (by simp) hnew hreturned)
    | _ => cases hfills

/-! ## Reconciliation -/

/-- How far a reconciliation can have come that has yet to list what the store has, or has listed
just this. -/
def Lists (now : Content α) : Stage α → Prop
  | .listing | .returned _ | .dropped => True
  | .evicting headers =>
    ∀ id, PersistentSource.listedTag headers id = (now.record? id).map Record.etag
  | .probing _ | .asking _ | .scanning .. | .requesting .. | .choosing _ | .selecting .. |
    .clearing | .filling .. => False

theorem Lists.advance {stage next : Stage α} {s t : PersistentSource α} {store : Store α}
    (h : Lists now stage) (hstore : store.Tells now)
    (hadvance : stage.advance s store = some (next, t)) : Lists now next := by
  cases stage with
  | listing =>
    cases hadvance
    cases hheaders : store.headers with
    | error e => trivial
    | ok headers => exact hstore.headers hheaders
  | evicting headers =>
    cases hadvance
    trivial
  | returned | dropped => cases hadvance
  | _ => cases h

/-- A reconciliation that has yet to list what the store has, or has listed just this, still does so
after every move, until the store is written. -/
theorem exists_lists_of_step
    (h : ∃ stage, x.visits.get? n = some ⟨.refresh, stage⟩ ∧ Lists now stage)
    (hstore : x.store.Tells now) (hstep : x.step m = some y) :
    ∃ stage, y.visits.get? n = some ⟨.refresh, stage⟩ ∧ Lists now stage := by
  obtain ⟨stage, hvisit, hlists⟩ := h
  cases effect_of_step hstep with
  | stored store => exact ⟨stage, hvisit, hlists⟩
  | @begun k c hnew =>
    refine ⟨stage, ?_, hlists⟩
    rw [get?_setVisit, if_neg, hvisit]
    rintro rfl
    exact nomatch hnew.symm.trans hvisit
  -- it goes on itself, or another call does
  | @advanced k v next source hk hadvance =>
    by_cases hkn : n = k
    · subst hkn
      cases hvisit.symm.trans hk
      exact ⟨next, get?_setVisit_self x n _, hlists.advance hstore hadvance⟩
    · exact ⟨stage, by rw [get?_setVisit, if_neg hkn, hvisit], hlists⟩
  | @dropped k v hk =>
    by_cases hkn : n = k
    · subst hkn
      cases hvisit.symm.trans hk
      exact ⟨.dropped, get?_setVisit_self x n _, trivial⟩
    · exact ⟨stage, by rw [get?_setVisit, if_neg hkn, hvisit], hlists⟩

/-- A reconciliation has just come to its end that listed what the store has. -/
def Reconciled (z : SharedSource α) (now : Content α) (past : List (Content α)) : Prop :=
  ∃ x y n moves, Run x (now :: past) ∧ x.visits.get? n = some ⟨.refresh, .listing⟩ ∧
    x.replay moves = some y ∧ (∀ store, .store store ∈ moves → store.Tells now) ∧
    y.step (.go n) = some z ∧ z.visits.get? n = some ⟨.refresh, .returned (.ok [])⟩

/-- What a reconciliation leaves is cached with the tag that the store has. -/
theorem Reconciled.tag_eq (h : x.Reconciled now past) :
    Run x (now :: past) ∧ ∀ id entry, x.source.cache.get? id = some entry →
      (now.record? id).map Record.etag = some entry.etag := by
  obtain ⟨w, y, n, moves, hrun, hlisting, hmoves, hquiet, hstep, hdone⟩ := h
  -- until its last step the reconciliation has yet to list what the store has, or has listed this
  obtain ⟨⟨stage, hvisit, hlists⟩, -⟩ := replay_induction
    (fun h hstore _ hstep => exists_lists_of_step h hstore hstep) ⟨_, hlisting, trivial⟩
    hrun.stems.1 hmoves hquiet
  refine ⟨(hrun.replay hmoves hquiet).step (m := .go n) nofun hstep, fun id entry hentry => ?_⟩
  cases effect_of_step hstep with
  | @advanced _ v next source hv hadvance =>
    cases hvisit.symm.trans hv
    cases (get?_setVisit_self y n ⟨.refresh, next⟩).symm.trans hdone
    cases stage with
    | evicting headers =>
      cases hadvance
      have hkept := (entry_of_evict hentry).2
      rw [← hlists id]
      simpa using hkept
    | listing =>
      simp only [Stage.advance] at hadvance
      cases hheaders : y.store.headers <;> rw [hheaders] at hadvance <;> cases hadvance
    | returned | dropped => cases hadvance
    | _ => cases hlists

/-- The tags tell what the store has from what it has had under the same identifier. -/
def TagsTell (now : Content α) (past : List (Content α)) : Prop :=
  ∀ earlier ∈ past, ∀ id r r', earlier.record? id = some r → now.record? id = some r' →
    r.etag = r'.etag → r.payload = r'.payload

/-- If tags tell definitions apart, a reconciliation leaves nothing outdated. -/
theorem Reconciled.cached (h : x.Reconciled now past) (htags : TagsTell now past) (id : Uuid)
    (a : α) (hcached : x.source.probe id = some a) : now.get? id = some a := by
  obtain ⟨hrun, htag⟩ := h.tag_eq
  obtain ⟨entry, hentry, rfl⟩ := Option.map_eq_some_iff.mp hcached
  obtain ⟨r', hnow, hsame⟩ := Option.map_eq_some_iff.mp (htag id entry hentry)
  -- what is cached was in the store at some time, with the tag that the store has now
  obtain ⟨earlier, hearlier, r, hrecord, rfl⟩ := hrun.stems.2.cached id entry hentry
  rw [Content.get?, hnow]
  rcases List.mem_cons.mp hearlier with rfl | hpast
  · cases hnow.symm.trans hrecord
    rfl
  · exact congrArg some (htags earlier hpast id r r' hrecord hnow hsame.symm).symm

/-- **A reconciliation is undone only by what calls hold**.  Let a reconciliation come to its end
that listed what the store has, whatever other calls are under way.  Then every call that begins
later gives what the store has, until the store is written, just if nothing outdated is cached and
no call holds an outdated answer, which it is going to cache.  If the tags tell definitions apart,
nothing outdated is cached any more, so that it depends on the calls alone. -/
theorem Reconciled.undone_only_by_held (h : x.Reconciled now past) :
    (x.AnswersLater now ↔ x.UpToDate now) ∧
    (TagsTell now past → (x.UpToDate now ↔
      ∀ n v id a, x.visits.get? n = some v → v.stage.fills id = some a →
        now.get? id = some a)) := by
  have hstore := h.tag_eq.1.stems.1
  refine ⟨⟨AnswersLater.upToDate, fun hcurrent => hcurrent.answersLater hstore⟩, fun htags => ?_⟩
  exact ⟨UpToDate.held, fun hheld => ⟨h.cached htags, hheld⟩⟩

/-! ## An edited signal -/

/-- Some later look-up gives a definition that is not the one that the store has. -/
def GivesOutdated (x : SharedSource α) (now : Content α) : Prop :=
  ∃ more y k id a b, x.replay more = some y ∧ (∀ store, .store store ∉ more) ∧
    x.visits.get? k = none ∧ y.visits.get? k = some ⟨.find id, .returned (.ok [a])⟩ ∧
    now.get? id = some b ∧ a ≠ b

/-- A source that nobody has called yet, in front of a table. -/
def opening (t : RecordTable Signal) : SharedSource Signal := ⟨.new "durable", t.store, .empty⟩

/-- The state after some moves, if they are possible. -/
def afterMoves (x : SharedSource Signal) (moves : List (Move Signal)) : SharedSource Signal :=
  (x.replay moves).getD x

/-- A source that has been called before a table was written, and again after that. -/
def afterWrite (t t' : RecordTable Signal) (earlier : List (Move Signal)) : SharedSource Signal :=
  { afterMoves (opening t) earlier with store := t'.store }

/-- A reconciliation from its beginning to its end. -/
def refreshing : List (Move Signal) := [.begin 1 .refresh, .go 1, .go 1]

/-- A reconciliation that begins after a table was written, and that nobody interrupts, comes to its
end. -/
theorem reconciled_refreshing {t t' : RecordTable Signal} (ht : t.Keyed) (ht' : t'.Keyed)
    (hup : t'.failure = none) (earlier : List (Move Signal))
    (hearlier : (opening t).replay earlier = some (afterMoves (opening t) earlier))
    (hquiet : ∀ store, .store store ∉ earlier)
    (hnew : (afterWrite t t' earlier).visits.get? 1 = none) :
    (afterMoves (afterWrite t t' earlier) refreshing).Reconciled (t'.content ht')
      [t.content ht] := by
  have hrun : Run (afterWrite t t' earlier) [t'.content ht', t.content ht] :=
    ((Run.start "durable" (RecordTable.tells ht)).replay hearlier
      fun store hmem => absurd hmem (hquiet store)).write (RecordTable.tells ht')
  have hheaders : t'.store.headers = .ok (t'.all.map Record.header) := by
    show t'.answer _ = _
    rw [RecordTable.answer, hup]
  have hbegin := step_begin hnew .refresh
  have hgiven : Stage.advance (afterWrite t t' earlier).source t'.store .listing =
      some (.evicting (t'.all.map Record.header), (afterWrite t t' earlier).source) := by
    rw [Stage.advance, hheaders]
    rfl
  have hlist := step_go (get?_setVisit_self (afterWrite t t' earlier) 1 ⟨.refresh, .listing⟩) hgiven
  have hevict := step_go (get?_setVisit_self ((afterWrite t t' earlier).setVisit 1
    ⟨.refresh, .listing⟩) 1 ⟨.refresh, .evicting (t'.all.map Record.header)⟩) rfl
  have hend : (afterWrite t t' earlier).replay refreshing = some _ :=
    (replay_cons hbegin _).trans <| (replay_cons hlist _).trans <| replay_cons hevict _
  rw [afterMoves, hend]
  exact ⟨_, _, 1, [.go 1], hrun.step (m := .begin 1 .refresh) nofun hbegin,
    get?_setVisit_self _ 1 _, replay_cons hlist _, by simp, hevict, get?_setVisit_self _ 1 _⟩

open Backed (beforeEdit afterEdit opened reopened tagged_beforeEdit tagged_afterEdit)

/-- A look-up that has been given the signal before it was edited, and has yet to cache it. -/
def holding : List (Move Signal) := [.begin 0 (.find (.ofNat 1)), .go 0, .go 0]

/-- A table with a signal under a tag that is not its digest. -/
def mistagged (a : Signal) : RecordTable Signal :=
  RecordTable.empty.putRecord ⟨.ofNat 1, ⟨"1"⟩, a⟩

theorem keyed_mistagged (a : Signal) : (mistagged a).Keyed := RecordTable.keyed_empty.putRecord _

/-- The tags of the edited signal tell it from what it was. -/
theorem tagsTell_edited :
    TagsTell (afterEdit.content tagged_afterEdit.keyed)
      [beforeEdit.content tagged_beforeEdit.keyed] := by
  intro earlier hearlier id r r' hr hr' htag
  obtain rfl := List.mem_singleton.mp hearlier
  have hbefore : (id, r) ∈ [(Uuid.ofNat 1, Record.of opened)] :=
    (beforeEdit.records.mem_entries_iff id r).mpr hr
  have hafter : (id, r') ∈ [(Uuid.ofNat 1, Record.of reopened)] :=
    (afterEdit.records.mem_entries_iff id r').mpr hr'
  cases List.mem_singleton.mp hbefore
  cases List.mem_singleton.mp hafter
  have hdistinct : (Record.of opened).etag ≠ (Record.of reopened).etag := by decide +kernel
  exact absurd htag hdistinct

/-- If the look-up has come to its end before the reconciliation, all later ones are as they should
be. -/
theorem undone_only_by_held_edited :
    (afterMoves (afterWrite beforeEdit afterEdit (holding ++ [.go 0])) refreshing).AnswersLater
      (afterEdit.content tagged_afterEdit.keyed) := by
  have hreconciled := reconciled_refreshing tagged_beforeEdit.keyed tagged_afterEdit.keyed rfl
    (holding ++ [.go 0]) rfl (by simp [holding]) rfl
  obtain ⟨hanswers, hheld⟩ := hreconciled.undone_only_by_held
  refine hanswers.mpr ((hheld tagsTell_edited).mpr fun n v id a hvisit hfills => ?_)
  have hvisits : (n, v) ∈ [(0, (⟨.find (.ofNat 1), .returned (.ok [opened])⟩ : Visit Signal)),
      (1, ⟨.refresh, .returned (.ok [])⟩)] :=
    (Dict.mem_entries_iff _ n v).mpr hvisit
  rcases List.mem_pair.mp hvisits with heq | heq <;> cases heq <;> cases hfills

/-- **A reconciliation can be undone.**  A look-up that was given the signal before it was edited
caches it after the reconciliation, and from then on the old signal is found, although the tags tell
the two apart; and if the two have one tag, then the old signal is found even if no call overlaps
another. -/
theorem reconciliation_undone :
    (∃ now past, ∃ x : SharedSource Signal, TagsTell now past ∧ x.Reconciled now past ∧
      x.GivesOutdated now) ∧
    ∃ now past, ∃ x : SharedSource Signal, x.Reconciled now past ∧
      (∀ n v, x.visits.get? n = some v → ∃ found, v.stage = .returned (.ok found)) ∧
      x.GivesOutdated now := by
  constructor
  · refine ⟨_, _, _, tagsTell_edited, reconciled_refreshing tagged_beforeEdit.keyed
      tagged_afterEdit.keyed rfl holding rfl (by simp [holding]) rfl, ?_⟩
    exact ⟨[.go 0, .begin 2 (.find (.ofNat 1)), .go 2], _, 2, .ofNat 1, opened, reopened, rfl,
      by simp, rfl, rfl, rfl, by decide⟩
  · refine ⟨_, _, _, reconciled_refreshing (keyed_mistagged opened) (keyed_mistagged reopened)
      rfl (holding ++ [.go 0]) rfl (by simp [holding]) rfl, fun n v hvisit => ?_, ?_⟩
    · have hvisits : (n, v) ∈ [(0, (⟨.find (.ofNat 1), .returned (.ok [opened])⟩ : Visit Signal)),
          (1, ⟨.refresh, .returned (.ok [])⟩)] :=
        (Dict.mem_entries_iff _ n v).mpr hvisit
      rcases List.mem_pair.mp hvisits with heq | heq <;> cases heq <;> exact ⟨_, rfl⟩
    · have hcached : (afterMoves (afterWrite (mistagged opened) (mistagged reopened)
          (holding ++ [.go 0])) refreshing).source.probe (.ofNat 1) = some opened := by
        decide +kernel
      obtain ⟨y, hmoves, hreturned⟩ := replay_find (k := 2) rfl hcached
      exact ⟨_, y, 2, .ofNat 1, opened, reopened, hmoves, by simp, rfl, hreturned, rfl, by decide⟩

end SharedSource

end Signpost
