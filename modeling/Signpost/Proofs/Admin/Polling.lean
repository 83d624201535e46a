import Signpost.Proofs.Admin.Drawn

/-!
# Polling by version

A reader keeps the last snapshot that it was given and asks for another one with its version.  That
is enough to have the current rules if no version is drawn twice: every version belongs to the rules
that it was drawn for, through failed saves, which bring an old version back, and restarts, which
keep the version and build the table anew.

## Main definitions

* `Worker.System.Gives`, `Worker.HandedOut`: the snapshots that readers can be given.
* `StateStore.restored?`: the rules that a restart would bring back.
* `Worker.Ledger`: every snapshot that anybody has is one that its version was drawn for.
* `Worker.System.poll`: a reader with a snapshot asks for another one.

## Main results

* `Worker.gives_iff`: in every phase there is one snapshot that readers can be given.
* `Worker.Ledger.step`, `Worker.Drawing.ledger`: there is a ledger of every run.
* `Worker.Drawing.polling_sound`
-/

namespace Signpost.Admin

open Redirection (Snapshot)

/-! ## What a restart brings back -/

namespace StateStore

variable {store store' : StateStore} {key : String}

/-- The rules that a restart would bring back from the stored record, if there is one. -/
def restored? (store : StateStore) (key : String) : Option Redirection.Registry :=
  match store.read key with
  | .ok (some state) => (Redirection.Registry.ofParts state.rules state.version).toOption
  | .ok none | .error _ => none

/-- The version of the stored record, if there is one. -/
def versions (store : StateStore) (key : String) : List Version :=
  match store.read key with
  | .ok (some state) => [state.version]
  | .ok none | .error _ => []

/-- Rules that have been saved come back at their version. -/
theorem snapshot_of_restored? {r : Registry} (hrules : r.routes.table.WellFormed)
    (hsave : store.save key r.state = .ok store') {routes : Redirection.Registry}
    (h : store'.restored? key = some routes) : routes.snapshot = r.routes.snapshot := by
  obtain ⟨again, hparts, hsnapshot⟩ := Redirection.Registry.ofParts_all hrules
  have hstate : Redirection.Registry.ofParts r.state.rules r.state.version = .ok again := hparts
  rw [restored?, (read_of_save hsave).1] at h
  simp only [hstate] at h
  cases h
  exact hsnapshot

end StateStore

/-- A registry that is loaded has the rules that are stored, or none yet at a version that has just
been drawn. -/
theorem Desk.load_cases {d : Desk} {key : String} {store : StateStore} {timeout : Nat} {mint : Mint}
    (h : load key store timeout mint = .ok d) :
    d.registry.key = key ∧ d.store = store ∧
      d.registry.published = d.registry.routes.snapshot ∧ d.registry.routes.table.WellFormed ∧
      ((store.restored? key = some d.registry.routes ∧ (drawnByLoad key store mint).versions = [] ∧
          store.versions key = [d.registry.routes.version]) ∨
        (store.restored? key = none ∧
          (drawnByLoad key store mint).versions = [d.registry.routes.version] ∧
          store.versions key = [])) := by
  have hread := read_of_load h
  unfold load at h
  unfold drawnByLoad StateStore.restored? StateStore.versions
  rw [hread] at h ⊢
  split at h
  · cases h
  · next state hstate =>
    split at h
    · cases h
    · next routes hparts =>
      cases h
      rw [hstate]
      refine ⟨rfl, rfl, rfl, ?_, .inl ⟨?_, rfl, ?_⟩⟩
      · exact Redirection.Registry.wellFormed_of_isRestored ⟨_, _, hparts⟩
      · simp only [hparts]
        rfl
      · show [state.version] = [routes.version]
        rw [Redirection.Registry.version_ofParts hparts]
  · next hnone =>
    cases h
    rw [hnone]
    exact ⟨rfl, rfl, rfl, Redirection.RuleTable.wellFormed_empty, .inr ⟨rfl, rfl, rfl⟩⟩

namespace Worker

variable {key : String} {origin : StateStore} {s s' : System} {past : List System} {drawn : Drawn}
  {m : Move}

/-! ## What readers are given -/

/-- A snapshot that a reader can be given: the one that is published, whether the reader asks or has
waited for it, or that of the registry itself when no command is in hand. -/
def System.Gives (s : System) (p : Snapshot) : Prop :=
  (∃ held, s.snapshotUnless held = some p) ∨ (∃ held, s.changeFrom? held = some (.ok p)) ∨
    (s.phase.stage = .resting ∧ ∃ held, s.desk.registry.routes.snapshotUnless held = some p)

/-- A snapshot that a reader may have been given at some moment. -/
def HandedOut (history : List System) (p : Snapshot) : Prop := ∃ s ∈ history, s.Gives p

theorem snapshotUnless_eq_some {held : Option Version} {p : Snapshot}
    (h : s.snapshotUnless held = some p) : p = s.published := by
  unfold System.snapshotUnless at h
  split at h <;> cases h
  rfl

theorem snapshotUnless_eq_none_iff {v : Version} :
    s.snapshotUnless (some v) = none ↔ v = s.published.version := by
  unfold System.snapshotUnless
  simp

theorem changeFrom?_eq_some {held : Version} {p : Snapshot}
    (h : s.changeFrom? held = some (.ok p)) : p = s.published := by
  unfold System.changeFrom? at h
  split at h
  · cases h
    rfl
  · split at h <;> cases h

/-- Whatever a reader is given is what is published, if that are the rules of a registry without a
command in hand. -/
theorem gives_iff (h : s.phase.stage = .resting → s.published = s.desk.registry.routes.snapshot)
    (p : Snapshot) : s.Gives p ↔ p = s.published := by
  constructor
  · rintro (⟨held, hgiven⟩ | ⟨held, hgiven⟩ | ⟨hresting, held, hgiven⟩)
    · exact snapshotUnless_eq_some hgiven
    · exact changeFrom?_eq_some hgiven
    · unfold Redirection.Registry.snapshotUnless at hgiven
      split at hgiven <;> cases hgiven
      exact (h hresting).symm
  · rintro rfl
    exact .inl ⟨none, rfl⟩

theorem handedOut_published (past : List System) : HandedOut (s :: past) s.published :=
  ⟨s, List.mem_cons_self, .inl ⟨none, rfl⟩⟩

/-! ## The ledger -/

/-- The rules in memory are changed ones that nobody has been able to read. -/
def Stage.HidesRules : Stage → Prop
  | .saving _ (.routes _) | .publishing _ => True
  | .resting | .saving _ (.subscription _) | .saving _ (.removal _) | .telling _ => False

theorem Phase.not_hidesRules {phase : Phase} (h : phase.isSettled = true) :
    ¬ phase.stage.HidesRules := by
  cases phase with
  | saving ticket draft | publishing ticket => cases h
  | idle | stopped => exact id
  | delivering ticket event rest | contacting ticket event target contact rest => exact id

/-- The rules that come back if the change cannot be saved, if they are others than now. -/
def Stage.before? : Stage → Option Redirection.Registry
  | .saving _ draft => draft.before?
  | .resting | .publishing _ | .telling _ => none

/-- The rules of a registry are in a book, in memory and in the store, and it publishes them unless
they are hidden. -/
structure Kept (key : String) (book : List Snapshot) (d : Desk) (stage : Stage) : Prop where
  named : d.registry.key = key
  wellFormed : d.registry.routes.table.WellFormed
  memory : d.registry.routes.snapshot ∈ book
  /-- What a restart would bring back is in the book. -/
  stored : ∀ routes, d.store.restored? key = some routes → routes.snapshot ∈ book
  /-- Rules that would come back if a change could not be saved are those that are published. -/
  before : ∀ before, stage.before? = some before →
    before.table.WellFormed ∧ d.registry.published = before.snapshot
  shown : ¬ stage.HidesRules → d.registry.published = d.registry.routes.snapshot

namespace Kept

variable {book : List Snapshot} {d : Desk} {stage stage' : Stage} {ticket : Ticket}

/-- A stage that hides no rules is followed by one that takes none back. -/
theorem goOn (h : Kept key book d stage) (hshown : ¬ stage.HidesRules)
    (hbefore : stage'.before? = none) : Kept key book d stage' :=
  { h with
    before := fun before heq => by rw [hbefore] at heq; cases heq
    shown := fun _ => h.shown hshown }

theorem roster (h : Kept key book d stage) (roster : Roster) (mint : Mint) :
    Kept key book { d.withRoster roster with mint } stage :=
  ⟨h.named, h.wellFormed, h.memory, h.stored, h.before, h.shown⟩

theorem underFailure (h : Kept key book d stage) (failure : Option Failure) :
    Kept key book (d.underFailure failure) stage :=
  ⟨h.named, h.wellFormed, h.memory, h.stored, h.before, h.shown⟩

/-- Rules that have been changed in memory are written into the book. -/
theorem made (h : Kept key book d .resting) {command : Command} {a : Redirection.Attempt}
    (hattempt : d.attempt? command = some a) (ticket : Ticket) :
    Kept key (a.after.snapshot :: book) (d.made a)
      (.saving ticket (.routes d.registry.routes)) where
  named := h.named
  wellFormed := Desk.wellFormed_attempt hattempt h.wellFormed
  memory := List.mem_cons_self
  stored routes hroutes := List.mem_cons_of_mem _ (h.stored routes hroutes)
  before := by
    rintro _ ⟨⟩
    exact ⟨h.wellFormed, h.shown id⟩
  shown hshown := absurd trivial hshown

/-- What is taken back leaves the rules that are published. -/
theorem undo {draft : Draft} (h : Kept key book d (.saving ticket draft))
    (hpublished : d.registry.published ∈ book) : Kept key book (d.undo draft) .resting := by
  cases draft with
  | routes before =>
    obtain ⟨hrules, hbefore⟩ := h.before before rfl
    exact ⟨h.named, hrules, hbefore ▸ hpublished, h.stored, nofun, fun _ => hbefore⟩
  | subscription _ | removal _ =>
    exact ⟨h.named, h.wellFormed, h.memory, h.stored, nofun, fun _ => h.shown False.elim⟩

/-- What is saved is what a restart would bring back from then on. -/
theorem saved (h : Kept key book d stage) {store : StateStore}
    (hsave : d.store.save d.registry.key d.registry.state = .ok store)
    (hbefore : stage'.before? = none) (hshown : ¬ stage'.HidesRules → ¬ stage.HidesRules) :
    Kept key book { d with store } stage' where
  named := h.named
  wellFormed := h.wellFormed
  memory := h.memory
  stored routes hroutes := by
    rw [h.named] at hsave
    rw [StateStore.snapshot_of_restored? h.wellFormed hsave hroutes]
    exact h.memory
  before before heq := by rw [hbefore] at heq; cases heq
  shown hstage := h.shown (hshown hstage)

theorem publish (h : Kept key book d stage) : Kept key book d.publish (.telling ticket) :=
  ⟨h.named, h.wellFormed, h.memory, h.stored, nofun, fun _ => rfl⟩

end Kept

/-- A book has one snapshot for every version that has been drawn, and every snapshot that somebody
was given or that a registry is left with is in the book.  Nobody was given a version that is yet to
be published. -/
structure Ledger (key : String) (s : System) (history : List System) (versions : List Version)
    (book : List Snapshot) : Prop where
  kept : Kept key book s.desk s.phase.stage
  versions : book.map Snapshot.version = versions
  handed : ∀ p, HandedOut history p → p ∈ book
  hidden : s.phase.stage.HidesRules → ∀ p, HandedOut history p →
    p.version ≠ s.desk.registry.routes.version

theorem Kept.gives_iff {book : List Snapshot} (h : Kept key book s.desk s.phase.stage)
    (p : Snapshot) : s.Gives p ↔ p = s.published :=
  Worker.gives_iff (fun hresting => h.shown (by rw [hresting]; exact id)) p

theorem Kept.handedOut_cons {book : List Snapshot} (h : Kept key book s.desk s.phase.stage)
    (p : Snapshot) : HandedOut (s :: past) p ↔ p = s.published ∨ HandedOut past p := by
  simp only [HandedOut, List.mem_cons, exists_eq_or_imp, h.gives_iff]

namespace Ledger

variable {history : List System} {versions : List Version} {book : List Snapshot}

/-- The version of a snapshot in the book has been drawn. -/
theorem mem_versions (h : Ledger key s history versions book) {p : Snapshot} (hp : p ∈ book) :
    p.version ∈ versions := by
  rw [← h.versions]
  exact List.mem_map_of_mem hp

/-- If nothing is drawn twice, then snapshots of the book with one version are the same. -/
theorem eq_of_version_eq (h : Ledger key s history versions book) (hfresh : versions.Nodup)
    {p q : Snapshot} (hp : p ∈ book) (hq : q ∈ book) (heq : p.version = q.version) : p = q := by
  rw [← h.versions] at hfresh
  have hdistinct : book.Pairwise fun p q => p.version ≠ q.version := List.pairwise_map.mp hfresh
  rcases List.append_of_mem hp with ⟨before, after, rfl⟩
  rw [List.pairwise_append, List.pairwise_cons] at hdistinct
  obtain ⟨-, ⟨hafter, -⟩, hbefore⟩ := hdistinct
  rcases List.mem_append.mp hq with hmem | hmem
  · exact absurd heq.symm (hbefore q hmem p List.mem_cons_self)
  · rcases List.mem_cons.mp hmem with rfl | hmem
    · rfl
    · exact absurd heq (hafter q hmem)

theorem published_mem (h : Ledger key s (s :: past) versions book) : s.published ∈ book :=
  h.handed _ (handedOut_published past)

/-- The next system has the next ledger if what it publishes is in a book that has grown. -/
theorem next {drawn' : List Version} (more : List Snapshot)
    (h : Ledger key s history versions book)
    (hkept : Kept key (more ++ book) s'.desk s'.phase.stage)
    (hmore : more.map Snapshot.version = drawn') (hpublished : s'.published ∈ more ++ book)
    (hhidden : s'.phase.stage.HidesRules → ∀ p, HandedOut (s' :: history) p →
      p.version ≠ s'.desk.registry.routes.version) :
    Ledger key s' (s' :: history) (drawn' ++ versions) (more ++ book) where
  kept := hkept
  versions := by rw [List.map_append, hmore, h.versions]
  handed p hp := by
    rcases (hkept.handedOut_cons p).mp hp with rfl | hp
    · exact hpublished
    · exact List.mem_append_right _ (h.handed p hp)
  hidden := hhidden

/-- The next system has the same ledger if nothing is drawn and it publishes what was published. -/
theorem next_same (h : Ledger key s (s :: past) versions book)
    (hkept : Kept key book s'.desk s'.phase.stage) (hpublished : s'.published = s.published)
    (hhidden : s'.phase.stage.HidesRules → ∀ p, HandedOut (s :: past) p →
      p.version ≠ s'.desk.registry.routes.version) :
    Ledger key s' (s' :: s :: past) versions book := by
  refine h.next [] hkept rfl (hpublished ▸ h.published_mem) ?_
  intro hs p hp
  rcases (hkept.handedOut_cons p).mp hp with rfl | hp
  · rw [hpublished]
    exact hhidden hs _ (handedOut_published past)
  · exact hhidden hs p hp

/-- A command that is taken adds the rules that it makes to the ledger. -/
theorem serve {ticket : Ticket} {command : Command} {rest : List (Ticket × Command)}
    (h : Ledger key s (s :: past) versions book) (hidle : s.phase = .idle)
    (hfresh : ((s.desk.drawn command).versions ++ versions).Nodup) :
    ∃ book', Ledger key ({ s with queue := rest }.serve ticket command)
      ({ s with queue := rest }.serve ticket command :: s :: past)
      ((s.desk.drawn command).versions ++ versions) book' := by
  have hkept := h.kept
  rw [hidle] at hkept
  have hamends := s.desk.amends command
  unfold System.serve
  dsimp only
  generalize s.desk.amend command = amended at hamends ⊢
  generalize s.desk.drawn command = drawn at hamends hfresh ⊢
  cases hamends with
  | answered hsame => exact ⟨book, h.next_same hkept rfl False.elim⟩
  | subscribed target =>
    exact ⟨book, h.next_same ((hkept.goOn id rfl).roster _ _) rfl False.elim⟩
  | unsubscribed hget =>
    exact ⟨book, h.next_same ((hkept.goOn id rfl).roster _ s.desk.mint) rfl False.elim⟩
  | @rules _ a hattempt hchanged =>
    have hmade := hkept.made hattempt ticket
    refine ⟨_, h.next [a.after.snapshot] hmade rfl (List.mem_cons_of_mem _ h.published_mem) ?_⟩
    -- the version of the new rules has been drawn just now, and all others before
    intro _ p hp heq
    have hbook : p ∈ book := by
      rcases (hmade.handedOut_cons p).mp hp with rfl | hp
      · exact h.published_mem
      · exact h.handed p hp
    have hnew : a.after.version ∉ versions := (List.nodup_cons.mp hfresh).1
    exact hnew (heq ▸ h.mem_versions hbook)

/-- Rules that cannot be saved give way to those from before, which are published. -/
theorem save {ticket : Ticket} {draft : Draft} (h : Ledger key s (s :: past) versions book)
    (hphase : s.phase = .saving ticket draft) :
    Ledger key (s.save ticket draft) (s.save ticket draft :: s :: past) versions book := by
  have hkept := h.kept
  rw [hphase] at hkept
  rcases s.save_cases ticket draft with ⟨e, -, heq⟩ |
    ⟨store, hsave, ⟨answer, hbefore, -, heq⟩ | ⟨⟨before, rfl⟩, heq⟩⟩ <;> rw [heq]
  · exact h.next_same (hkept.undo h.published_mem) (s.desk.agrees_undo draft).published False.elim
  · refine h.next_same (hkept.saved hsave rfl fun _ => ?_) rfl False.elim
    cases draft with
    | routes before => cases hbefore
    | subscription _ | removal _ => exact False.elim
  · have hhides : s.phase.stage.HidesRules := by rw [hphase]; trivial
    exact h.next_same (hkept.saved hsave rfl id) rfl fun _ => h.hidden hhides

/-- **Every move keeps a ledger**, as long as no version is drawn twice. -/
theorem step (h : Ledger key s (s :: past) versions book) (hstep : step s m = some s')
    (hfresh : ((s.drawn m).versions ++ versions).Nodup) :
    ∃ book', Ledger key s' (s' :: s :: past) ((s.drawn m).versions ++ versions) book' := by
  cases advance_of_step hstep with
  | aside hpart hdesk hstage =>
    have hdrawn : s.drawn m = .none := System.drawn_of_ne_take (by rintro rfl; cases hpart)
    rw [hdrawn]
    refine ⟨book, h.next_same ?_ ?_ ?_⟩
    · rw [hdesk, hstage]
      exact h.kept
    · rw [System.published, hdesk, System.published]
    · rw [hdesk, hstage]
      exact h.hidden
  | setFailure failure => exact ⟨book, h.next_same (h.kept.underFailure failure) rfl h.hidden⟩
  | @take ticket command rest hidle hqueue =>
    have hdrawn : s.drawn .take = s.desk.drawn command := by rw [System.drawn, hqueue]
    rw [hdrawn] at hfresh ⊢
    exact h.serve hidle hfresh
  | save hphase => exact ⟨book, h.save hphase⟩
  | publish hphase =>
    exact ⟨book, h.next [] h.kept.publish rfl h.kept.memory False.elim⟩
  | @reply ticket event hphase =>
    have hkept := h.kept
    rw [hphase] at hkept
    exact ⟨book, h.next_same (hkept.goOn id rfl) rfl False.elim⟩

/-- A registry that is loaded again goes on with the ledger. -/
theorem reload {desk : Desk} {timeout : Nat} {mint : Mint}
    (h : Ledger key s (s :: past) versions book) (directory : Delivery.Directory) (capacity : Nat)
    (hload : Desk.load key s.desk.store timeout mint = .ok desk) :
    ∃ book', Ledger key (start desk directory capacity) (start desk directory capacity :: s :: past)
      ((Desk.drawnByLoad key s.desk.store mint).versions ++ versions) book' := by
  obtain ⟨hkey, hstore, hpublished, hrules, hcases⟩ := Desk.load_cases hload
  have hshown : (start desk directory capacity).published = desk.registry.routes.snapshot :=
    hpublished
  have hstored := h.kept.stored
  rw [← hstore] at hstored
  rcases hcases with ⟨hrestored, hversions, -⟩ | ⟨-, hversions, -⟩ <;> rw [hversions]
  -- the rules are those of the book, though their table may be another one
  · have hmem : desk.registry.routes.snapshot ∈ book := h.kept.stored _ hrestored
    exact ⟨book, h.next [] ⟨hkey, hrules, hmem, hstored, nofun, fun _ => hpublished⟩ rfl
      (hshown ▸ hmem) False.elim⟩
  · exact ⟨_, h.next [desk.registry.routes.snapshot]
      ⟨hkey, hrules, List.mem_cons_self, fun routes hroutes => List.mem_cons_of_mem _
        (hstored routes hroutes), nofun, fun _ => hpublished⟩ rfl
      (hshown ▸ List.mem_cons_self) False.elim⟩

end Ledger

/-- A registry that is loaded at the beginning has the first ledger. -/
theorem ledger_start {desk : Desk} {timeout : Nat} {mint : Mint} (directory : Delivery.Directory)
    (capacity : Nat) (hload : Desk.load key origin timeout mint = .ok desk) :
    ∃ book, Ledger key (start desk directory capacity) [start desk directory capacity]
      ((Desk.drawnByLoad key origin mint).versions ++ origin.versions key) book := by
  obtain ⟨hkey, hstore, hpublished, hrules, hcases⟩ := Desk.load_cases hload
  have hversions : (Desk.drawnByLoad key origin mint).versions ++ origin.versions key =
      [desk.registry.routes.version] := by
    rcases hcases with ⟨-, hdrawn, hstored⟩ | ⟨-, hdrawn, hstored⟩ <;> rw [hdrawn, hstored] <;> rfl
  have hkept : Kept key [desk.registry.routes.snapshot] desk .resting := by
    refine ⟨hkey, hrules, List.mem_cons_self, fun routes hroutes => ?_, nofun, fun _ => hpublished⟩
    rw [hstore] at hroutes
    rcases hcases with ⟨hrestored, -⟩ | ⟨hrestored, -⟩ <;> cases hrestored.symm.trans hroutes
    exact List.mem_cons_self
  refine ⟨_, hkept, hversions.symm, fun p hp => ?_, False.elim⟩
  rcases (hkept.handedOut_cons p).mp hp with rfl | ⟨_, hnone, -⟩
  · show desk.registry.published ∈ _
    rw [hpublished]
    exact List.mem_cons_self
  · cases hnone

/-- There is a ledger of every run in which no version is drawn twice, nor that of the record that
was stored at the beginning. -/
theorem Drawing.ledger (h : Drawing key origin s past drawn)
    (hfresh : (drawn.versions ++ origin.versions key).Nodup) :
    ∃ book, Ledger key s (s :: past) (drawn.versions ++ origin.versions key) book := by
  induction h with
  | start directory capacity hload => exact ledger_start directory capacity hload
  | @move s s' past m drawn h hstep ih =>
    rw [Drawn.versions_append, List.append_assoc] at hfresh ⊢
    obtain ⟨book, hledger⟩ := ih (List.nodup_append.mp hfresh).2.1
    exact hledger.step hstep hfresh
  | reload h directory capacity hload ih =>
    rw [Drawn.versions_append, List.append_assoc] at hfresh ⊢
    obtain ⟨book, hledger⟩ := ih (List.nodup_append.mp hfresh).2.1
    exact hledger.reload directory capacity hload

/-- A reader with a snapshot asks for another one with its version, and keeps its own if there is
none. -/
def System.poll (s : System) (p : Snapshot) : Snapshot := (s.snapshotUnless (some p.version)).getD p

/-- **Polling by version is sound** in every run in which no version is drawn twice, nor that of the
record that was stored at the beginning, whichever saves fail and however often the registry is
loaded again.  Snapshots of one version that readers were given at any two moments have the same
rules; rules that are published have a version that nobody was given before; a reader is told
nothing exactly if it has the current version, which is that of the registry when no command is in
hand; so whoever keeps the snapshot that it was given last has the current one after every poll. -/
theorem Drawing.polling_sound (h : Drawing key origin s past drawn)
    (hfresh : (drawn.versions ++ origin.versions key).Nodup) :
    (∀ p q, HandedOut (s :: past) p → HandedOut (s :: past) q → p.version = q.version →
      p.rules = q.rules) ∧
    (∀ s', step s .publish = some s' → ∀ p, HandedOut (s :: past) p →
      p.version ≠ s'.published.version) ∧
    (∀ v, s.snapshotUnless (some v) = none ↔ v = s.published.version) ∧
    (s.phase.isSettled = true → s.published = s.desk.registry.routes.snapshot ∧
      ∀ v, s.desk.registry.routes.snapshotUnless (some v) = none ↔
        v = s.desk.registry.routes.version) ∧
    (∀ p, HandedOut (s :: past) p → s.poll p = s.published ∧ HandedOut (s :: past) (s.poll p)) := by
  obtain ⟨book, hledger⟩ := h.ledger hfresh
  have hsame : ∀ p q, HandedOut (s :: past) p → HandedOut (s :: past) q →
      p.version = q.version → p = q := fun p q hp hq heq =>
    hledger.eq_of_version_eq hfresh (hledger.handed p hp) (hledger.handed q hq) heq
  refine ⟨fun p q hp hq heq => by rw [hsame p q hp hq heq], ?_,
    fun v => snapshotUnless_eq_none_iff, ?_, ?_⟩
  · intro s' hpublish
    cases advance_of_step hpublish with
    | aside hpart => cases hpart
    | publish hphase =>
      refine hledger.hidden ?_
      rw [hphase]
      trivial
  · intro hsettled
    refine ⟨hledger.kept.shown (Phase.not_hidesRules hsettled), fun v => ?_⟩
    unfold Redirection.Registry.snapshotUnless
    simp
  · intro p hp
    have hpoll : s.poll p = s.published := by
      unfold System.poll
      by_cases hversion : p.version = s.published.version
      · rw [snapshotUnless_eq_none_iff.mpr hversion]
        exact hsame p _ hp (handedOut_published past) hversion
      · rw [System.snapshotUnless, if_neg (fun heq => hversion (Option.some.inj heq))]
        rfl
    rw [hpoll]
    exact ⟨rfl, handedOut_published past⟩

/-- A registry that has been saved draws nothing when it is loaded again. -/
theorem drawnByLoad_of_saved {store : StateStore} {routes : Redirection.Registry}
    (hbacks : store.Backs key routes) (hsaves : 0 < store.saves) (mint : Mint) :
    Desk.drawnByLoad key store mint = .none := by
  obtain ⟨state, hread, -, -⟩ := StateStore.read_of_stored? (hbacks.stored?_eq hsaves)
  unfold Desk.drawnByLoad StateStore.load
  rw [hread]
  cases store.failure <;> rfl

/-- A rule is appended, and its removal cannot be saved. -/
def failedRemoval : List Move :=
  [.call 0 (.append [.of (.ofNat 1) "billing" (.classPrefix "fast")]), .take, .save, .publish,
    .reply, .setFailure (some (.root "disk full")), .call 1 (.pop [.ofNat 1]), .take, .save,
    .setFailure none]

/-- The system after the failed removal. -/
def afterFailedRemoval : System :=
  (replay (start Desk.opened .empty 4) failedRemoval).getD (start Desk.opened .empty 4)

/-- A reader who has asked before the rule was there and one who has asked after its removal has
failed have the same rules when they have polled after a restart. -/
theorem polling_sound_failedRemoval :
    ∃ s past drawn, Drawing "node" .empty s past drawn ∧ drawn.versions.Nodup ∧
      ∃ p q, HandedOut (s :: past) p ∧ HandedOut (s :: past) q ∧ p.version ≠ q.version ∧
        s.poll p = s.poll q := by
  have hload : Desk.load "node" .empty 2000 default = .ok Desk.opened := rfl
  have hstart : Drawing "node" .empty (start Desk.opened .empty 4) [] _ := .start .empty 4 hload
  have hmoves : replay (start Desk.opened .empty 4) failedRemoval = some afterFailedRemoval := rfl
  obtain ⟨past, hrun, hkept⟩ := hstart.replay failedRemoval hmoves
  obtain ⟨routes, hbacks⟩ := hrun.run.coherent_and_persisted.1.exists_backs
  have hworks : afterFailedRemoval.desk.store.load "node" =
      afterFailedRemoval.desk.store.read "node" := rfl
  obtain ⟨desk, hagain, -⟩ := Desk.exists_inStep_load hbacks hworks 2000 default
  have hrestarted := hrun.reload .empty 4 hagain
  rw [drawnByLoad_of_saved hbacks (by decide), Drawn.none_append] at hrestarted
  have hfresh : (drawnIn (start Desk.opened .empty 4) failedRemoval ++
      Desk.drawnByLoad "node" .empty default).versions.Nodup := by decide
  have hnone : StateStore.empty.versions "node" = [] := rfl
  have hfirst : HandedOut (start desk .empty 4 :: afterFailedRemoval :: past)
      (start Desk.opened .empty 4).published :=
    ⟨_, List.mem_cons_of_mem _ (hkept List.mem_cons_self), .inl ⟨none, rfl⟩⟩
  have hsecond : HandedOut (start desk .empty 4 :: afterFailedRemoval :: past)
      afterFailedRemoval.published :=
    ⟨_, List.mem_cons_of_mem _ List.mem_cons_self, .inl ⟨none, rfl⟩⟩
  obtain ⟨-, -, -, -, hpoll⟩ := hrestarted.polling_sound (by rwa [hnone, List.append_nil])
  exact ⟨_, _, _, hrestarted, hfresh, _, _, hfirst, hsecond, by decide,
    (hpoll _ hfirst).1.trans (hpoll _ hsecond).1.symm⟩

end Worker

end Signpost.Admin
