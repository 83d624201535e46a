import Signpost.Proofs.Admin.StateForm
import Signpost.Proofs.Admin.Step
import Signpost.Proofs.Redirection.Restore

/-!
# What is published has been persisted

The rules of a registry are in memory, in the store, and in the snapshot that everybody may read.
Between the parts of a command the three differ, but each phase of the worker says how, and that is
enough for what a reader can see: no snapshot shows a change that was not in the store before.

## Main definitions

* `StateStore.Backs`: the store has certain rules at their version, or nothing has been saved yet.
* `Worker.Phase.Coherent`: how the three copies are related in a phase.
* `Worker.Run`: the runs from an empty store, with restarts.
* `Worker.Persisted`: a snapshot was in the store, or shows that nothing was there.

## Main results

* `Worker.System.Coherent.step`: every move keeps the copies related.
* `Worker.Run.published_is_persisted`
-/

namespace Signpost.Admin

open Delivery (Directory Event Note Occasion Receiver)

/-! ## Rules that the store has -/

namespace StateStore

variable {store : StateStore} {key : String} {routes : Redirection.Registry}

/-- The version and the rules of the stored record, if there is one. -/
def stored? (store : StateStore) (key : String) : Option Redirection.Snapshot :=
  match store.read key with
  | .ok (some state) => some ⟨state.version, state.rules⟩
  | .ok none | .error _ => none

/-- The store has the rules at their version, or there are no rules and nothing has been saved. -/
structure Backs (store : StateStore) (key : String) (routes : Redirection.Registry) : Prop where
  wellFormed : routes.table.WellFormed
  recorded : store.stored? key = some routes.snapshot ∨
    (store.saves = 0 ∧ store.read key = .ok none ∧ routes.all = [])

/-- What backs rules is their record, once anything has been saved. -/
theorem Backs.stored?_eq (h : store.Backs key routes) (hsaves : 0 < store.saves) :
    store.stored? key = some routes.snapshot := by
  rcases h.recorded with hstored | ⟨hnone, -, -⟩
  · exact hstored
  · omega

theorem read_of_stored? {p : Redirection.Snapshot} (h : store.stored? key = some p) :
    ∃ state, store.read key = .ok (some state) ∧ state.rules = p.rules ∧
      state.version = p.version := by
  rw [stored?] at h
  split at h
  · next state hread => cases h; exact ⟨state, hread, rfl, rfl⟩
  · cases h
  · cases h

end StateStore

namespace Desk

variable {d : Desk} {routes : Redirection.Registry}

/-- What is published and what is stored are the rules in memory. -/
structure InStep (d : Desk) : Prop where
  published : d.registry.published = d.registry.routes.snapshot
  backed : d.store.Backs d.registry.key d.registry.routes

/-- What is taken back leaves the rules that the store has. -/
theorem inStep_undo {draft : Draft}
    (hpublished : d.registry.published = (draft.before?.getD d.registry.routes).snapshot)
    (hbacks : d.store.Backs d.registry.key (draft.before?.getD d.registry.routes)) :
    (d.undo draft).InStep := by
  have hagrees := d.agrees_undo draft
  constructor
  · rw [d.routes_undo draft, hagrees.published, hpublished]
  · rw [d.routes_undo draft, hagrees.key, hagrees.store]
    exact hbacks

/-- What has been saved is what the store has. -/
theorem backs_of_save (hrules : d.registry.routes.table.WellFormed) {store : StateStore}
    (h : d.store.save d.registry.key d.registry.state = .ok store) :
    store.Backs d.registry.key d.registry.routes where
  wellFormed := hrules
  recorded := by
    refine .inl ?_
    rw [StateStore.stored?, (StateStore.read_of_save h).1]
    rfl

theorem wellFormed_attempt {command : Command} {a : Redirection.Attempt}
    (h : d.attempt? command = some a) (hrules : d.registry.routes.table.WellFormed) :
    a.after.table.WellFormed := by
  have hcall := Redirection.Registry.wellFormed_call hrules d.mint
  cases command with
  | append rules =>
    cases h
    match rules with
    | [] => exact hrules
    | [rule] => exact hcall (.push rule)
    | first :: second :: rest => exact hcall (.pushBatch (first :: second :: rest))
  | pop ids => cases h; exact hcall (.popBatch ids)
  | subscribe target => cases h
  | unsubscribe id => cases h

/-- A store that can be loaded from is one that works. -/
theorem read_of_load {key : String} {store : StateStore} {timeout : Nat} {mint : Mint}
    (h : load key store timeout mint = .ok d) : store.load key = store.read key := by
  rw [StateStore.load]
  cases hfailure : store.failure with
  | none => rfl
  | some f => simp only [load, StateStore.load, hfailure] at h; cases h

/-- Where the store can be read, a registry with the rules that it has is loaded. -/
theorem exists_inStep_load {key : String} {store : StateStore} (hbacks : store.Backs key routes)
    (hload : store.load key = store.read key) (timeout : Nat) (mint : Mint) :
    ∃ d, load key store timeout mint = .ok d ∧ d.InStep ∧ d.registry.key = key ∧
      d.store = store := by
  rcases hbacks.recorded with hstored | ⟨hsaves, hread, -⟩
  · obtain ⟨state, hread, hrules, hversion⟩ := StateStore.read_of_stored? hstored
    obtain ⟨restored, hparts, hsnapshot⟩ := Redirection.Registry.ofParts_all hbacks.wellFormed
    have hstate : Redirection.Registry.ofParts state.rules state.version = .ok restored := by
      rw [hrules, hversion]
      exact hparts
    refine ⟨⟨.of key restored (.restore state.subscriptions timeout), store, mint⟩, ?_,
      ⟨rfl, ?_, .inl ?_⟩, rfl, rfl⟩
    · simp only [load, hload, hread, hstate]
    · exact Redirection.Registry.wellFormed_of_isRestored ⟨_, _, hparts⟩
    · exact hstored.trans (congrArg some hsnapshot.symm)
  · rw [load, hload, hread]
    refine ⟨_, rfl, ⟨rfl, ?_, .inr ⟨hsaves, hread, ?_⟩⟩, rfl, rfl⟩
    · exact Redirection.Registry.wellFormed_of_isNew ⟨mint, rfl⟩
    · exact Redirection.RuleTable.all_empty

/-- A registry that is loaded has the rules that the store has. -/
theorem inStep_of_load {key : String} {store : StateStore} {timeout : Nat} {mint : Mint}
    (hbacks : store.Backs key routes) (h : load key store timeout mint = .ok d) :
    d.InStep ∧ d.registry.key = key := by
  obtain ⟨d', hload, hin, hkey, -⟩ := exists_inStep_load hbacks (read_of_load h) timeout mint
  cases h.symm.trans hload
  exact ⟨hin, hkey⟩

end Desk

/-! ## The phases of the worker -/

/-- Rules that have been read are those of the event that was told of. -/
def ReadsEvent : Occasion → Prop
  | .read _ current => current = true
  | .start | .done => True

theorem readsEvent_append {notes : List Note} {occasions : List Occasion}
    (hnotes : ∀ n ∈ notes, ReadsEvent n.occasion) (h : ∀ o ∈ occasions, ReadsEvent o)
    (event : Event) (target : Delivery.Target) :
    ∀ n ∈ notes ++ Delivery.notes event target occasions, ReadsEvent n.occasion := by
  intro n hn
  rcases List.mem_append.mp hn with hn | hn
  · exact hnotes n hn
  · obtain ⟨o, ho, rfl⟩ := List.mem_map.mp hn
    exact h o ho

/-- Whoever is told of the version that is published reads that version. -/
theorem readsEvent_contact {published : Redirection.Snapshot} {event : Event}
    (hversion : published.version = event.version) (timeout : Nat) (receiver : Receiver) :
    (∀ o ∈ (Delivery.contact (some published) timeout event receiver).opening, ReadsEvent o) ∧
      ∀ o ∈ (Delivery.contact (some published) timeout event receiver).closing, ReadsEvent o := by
  cases receiver with
  | routeTable => exact ⟨by simp [Delivery.contact], by simp [Delivery.contact]⟩
  | listener reads work =>
    cases reads
    all_goals
      simp only [Delivery.contact]
      repeat' split
    all_goals exact ⟨by simp [ReadsEvent, hversion], by simp [ReadsEvent]⟩

namespace Worker

/-- How what is in memory, what is stored and what is published are related in a phase. -/
def Phase.Coherent (d : Desk) : Phase → Prop
  | .idle | .stopped => d.InStep
  | .saving _ draft =>
    let before := draft.before?.getD d.registry.routes
    d.registry.routes.table.WellFormed ∧ d.registry.published = before.snapshot ∧
      d.store.Backs d.registry.key before
  | .publishing _ => d.store.Backs d.registry.key d.registry.routes
  | .delivering _ event _ => d.InStep ∧ event.version = d.registry.routes.version
  | .contacting _ event _ contact _ =>
    d.InStep ∧ event.version = d.registry.routes.version ∧ ∀ o ∈ contact.closing, ReadsEvent o

/-- The registry of an instance is kept as its phase wants it, and nobody has read anything else
than what it was told of. -/
structure System.Coherent (key : String) (s : System) : Prop where
  key : s.desk.registry.key = key
  phase : s.phase.Coherent s.desk
  notes : ∀ n ∈ s.notes, ReadsEvent n.occasion

/-- No command is in progress, or the deliveries of one are being made. -/
def Phase.isSettled : Phase → Bool
  | .idle | .stopped | .delivering .. | .contacting .. => true
  | .saving .. | .publishing _ => false

/-- The event that is being delivered. -/
def Phase.event? : Phase → Option Event
  | .delivering _ event _ | .contacting _ event _ _ _ => some event
  | .idle | .stopped | .saving .. | .publishing _ => none

namespace Phase.Coherent

variable {d : Desk} {phase : Phase}

theorem inStep (h : phase.Coherent d) (hsettled : phase.isSettled = true) : d.InStep := by
  cases phase with
  | idle | stopped => exact h
  | saving ticket draft | publishing ticket => cases hsettled
  | delivering ticket event rest | contacting ticket event target contact rest => exact h.1

/-- During a delivery the version that is published is that of the event. -/
theorem published_version {event : Event} (h : phase.Coherent d)
    (hevent : phase.event? = some event) :
    d.registry.published.version = event.version := by
  have hversion : d.InStep → d.registry.published.version = d.registry.routes.version :=
    fun hin => congrArg Redirection.Snapshot.version hin.published
  cases phase with
  | idle | stopped | saving ticket draft | publishing ticket => cases hevent
  | delivering ticket e rest => cases hevent; exact (hversion h.1).trans h.2.symm
  | contacting ticket e target contact rest => cases hevent; exact (hversion h.1).trans h.2.1.symm

/-- A store that fails has what it had. -/
theorem setFailure (h : phase.Coherent d) (failure : Option Failure) :
    phase.Coherent { d with store := { d.store with failure } } := by
  have hbacks : ∀ routes, d.store.Backs d.registry.key routes →
      ({ d.store with failure } : StateStore).Backs d.registry.key routes :=
    fun _ hb => ⟨hb.wellFormed, hb.recorded⟩
  have hin : d.InStep → ({ d with store := { d.store with failure } } : Desk).InStep :=
    fun hi => ⟨hi.published, hbacks _ hi.backed⟩
  cases phase with
  | idle | stopped => exact hin h
  | saving ticket draft => exact ⟨h.1, h.2.1, hbacks _ h.2.2⟩
  | publishing ticket => exact hbacks _ h
  | delivering ticket event rest => exact ⟨hin h.1, h.2⟩
  | contacting ticket event target contact rest => exact ⟨hin h.1, h.2⟩

end Phase.Coherent

namespace System.Coherent

variable {key : String} {s s' : System} {m : Move}

/-- A worker that starts with a registry in step. -/
theorem start {desk : Desk} (hkey : desk.registry.key = key) (h : desk.InStep)
    (directory : Directory) (capacity : Nat) : (start desk directory capacity).Coherent key :=
  ⟨hkey, h, by simp [Worker.start]⟩

theorem serve (h : s.Coherent key) (hidle : s.phase = .idle) (ticket : Ticket)
    (command : Command) : (s.serve ticket command).Coherent key := by
  obtain ⟨hkey, hphase, hnotes⟩ := h
  rw [hidle] at hphase
  have hstep : s.desk.InStep := hphase
  rcases s.desk.amend_cases command with ⟨answer, heq⟩ | ⟨a, hattempt, -, heq⟩ |
    ⟨roster, mint, draft, hbefore, heq⟩ <;> simp only [System.serve, heq]
  · exact ⟨hkey, hstep, hnotes⟩
  · have hrules := Desk.wellFormed_attempt hattempt hstep.backed.wellFormed
    exact ⟨hkey, ⟨hrules, hstep.published, hstep.backed⟩, hnotes⟩
  · refine ⟨hkey, ?_, hnotes⟩
    rw [Phase.Coherent, hbefore]
    exact ⟨hstep.backed.wellFormed, hstep.published, hstep.backed⟩

theorem save {ticket : Ticket} {draft : Draft} (h : s.Coherent key)
    (hsaving : s.phase = .saving ticket draft) : (s.save ticket draft).Coherent key := by
  obtain ⟨hkey, hphase, hnotes⟩ := h
  rw [hsaving] at hphase
  obtain ⟨hrules, hpublished, hbacks⟩ := hphase
  rcases s.desk.save_cases draft with ⟨e, -, heq⟩ | ⟨store, hsave, heq⟩ <;>
    simp only [System.save, heq]
  -- the rules from before come back, which are those that the store has
  · exact ⟨(s.desk.agrees_undo draft).key.trans hkey, Desk.inStep_undo hpublished hbacks, hnotes⟩
  · have hsaved := Desk.backs_of_save hrules hsave
    rcases draft.saved_cases with ⟨hsv, -⟩ | ⟨⟨answer, hsv⟩, hbefore⟩ <;> rw [hsv]
    · exact ⟨hkey, hsaved, hnotes⟩
    · rw [hbefore] at hpublished
      exact ⟨hkey, ⟨hpublished, hsaved⟩, hnotes⟩

theorem publish {ticket : Ticket} (h : s.Coherent key)
    (hpublishing : s.phase = .publishing ticket) : (s.publish ticket).Coherent key := by
  obtain ⟨hkey, hphase, hnotes⟩ := h
  rw [hpublishing] at hphase
  exact ⟨hkey, ⟨⟨rfl, hphase⟩, rfl⟩, hnotes⟩

theorem turnTo {ticket : Ticket} {event : Event} {next : Subscription} {rest : List Subscription}
    (h : s.Coherent key) (hdelivering : s.phase = .delivering ticket event (next :: rest)) :
    (s.turnTo ticket event next.target rest).Coherent key := by
  obtain ⟨hkey, hphase, hnotes⟩ := h
  rw [hdelivering] at hphase
  obtain ⟨hstep, hevent⟩ := hphase
  have hversion : s.published.version = event.version :=
    (congrArg Redirection.Snapshot.version hstep.published).trans hevent.symm
  rw [System.turnTo]
  split
  · exact ⟨hkey, ⟨hstep, hevent⟩, hnotes⟩
  · next receiver _ =>
    split
    · exact ⟨hkey, ⟨hstep, hevent⟩, hnotes⟩
    · obtain ⟨hopening, hclosing⟩ :=
        readsEvent_contact hversion s.desk.registry.roster.timeout receiver
      exact ⟨hkey, ⟨hstep, hevent, hclosing⟩, readsEvent_append hnotes hopening event next.target⟩

/-- A worker that is done with a receiver, or has given it up. -/
theorem resume {ticket : Ticket} {event : Event} {target : Delivery.Target}
    {contact : Delivery.Contact} {rest : List Subscription} (h : s.Coherent key)
    (hcontacting : s.phase = .contacting ticket event target contact rest) :
    System.Coherent key { s with phase := .delivering ticket event rest } ∧
      ∀ o ∈ contact.closing, ReadsEvent o := by
  obtain ⟨hkey, hphase, hnotes⟩ := h
  rw [hcontacting] at hphase
  obtain ⟨hin, hevent, hclosing⟩ := hphase
  exact ⟨⟨hkey, ⟨hin, hevent⟩, hnotes⟩, hclosing⟩

/-- **Every move keeps the copies of the rules related** as its phase wants them. -/
theorem step (h : s.Coherent key) (hstep : step s m = some s') : s'.Coherent key := by
  by_cases hspares : m.sparesWorker = true
  · obtain ⟨hphase, hdesk, hnotes⟩ := step_of_sparesWorker hspares hstep
    exact ⟨by rw [hdesk]; exact h.key, by rw [hphase, hdesk]; exact h.phase,
      by rw [hnotes]; exact h.notes⟩
  cases m <;> try exact absurd rfl hspares
  all_goals simp only [Worker.step] at hstep
  case take =>
    split at hstep
    · next ticket command rest hidle hqueue =>
      cases hstep
      exact serve (s := { s with queue := rest }) ⟨h.key, h.phase, h.notes⟩ hidle ticket command
    · cases hstep
  case save =>
    split at hstep
    · next hsaving => cases hstep; exact h.save hsaving
    · cases hstep
  case publish =>
    split at hstep
    · next hpublishing => cases hstep; exact h.publish hpublishing
    · cases hstep
  case contact =>
    split at hstep
    · next hdelivering => cases hstep; exact h.turnTo hdelivering
    · cases hstep
  case finish =>
    split at hstep
    · next ticket event target contact rest hcontacting =>
      cases hstep
      obtain ⟨hresumed, hclosing⟩ := h.resume hcontacting
      exact ⟨hresumed.key, hresumed.phase, readsEvent_append h.notes hclosing event target⟩
    · cases hstep
  case interrupt =>
    split at hstep
    · next hcontacting =>
      split at hstep <;> cases hstep
      exact (h.resume hcontacting).1
    · cases hstep
  case reply =>
    split at hstep
    · next hdelivering =>
      cases hstep
      obtain ⟨hkey, hphase, hnotes⟩ := h
      rw [hdelivering] at hphase
      exact ⟨hkey, hphase.1, hnotes⟩
    · cases hstep
  case stop =>
    split at hstep
    · next hidle =>
      split at hstep <;> cases hstep
      obtain ⟨hkey, hphase, hnotes⟩ := h
      rw [hidle] at hphase
      exact ⟨hkey, hphase, hnotes⟩
    · cases hstep
  case setFailure failure =>
    cases hstep
    exact ⟨h.key, h.phase.setFailure failure, h.notes⟩

end System.Coherent

/-! ## Runs -/

/-- A run of a registry that begins with an empty store: the system as it is now, and as it was
before, the last one first.  At any moment the registry may be loaded again from the store as it
is. -/
inductive Run (key : String) : System → List System → Prop
  | start {desk : Desk} {timeout : Nat} {mint : Mint} (directory : Directory) (capacity : Nat)
      (hload : Desk.load key .empty timeout mint = .ok desk) :
      Run key (start desk directory capacity) []
  | move {s s' : System} {past : List System} {m : Move} (h : Run key s past)
      (hstep : step s m = some s') : Run key s' (s :: past)
  | reload {s : System} {past : List System} {desk : Desk} {timeout : Nat} {mint : Mint}
      (h : Run key s past) (directory : Directory) (capacity : Nat)
      (hload : Desk.load key s.desk.store timeout mint = .ok desk) :
      Run key (start desk directory capacity) (s :: past)

/-- A snapshot was in the store at some moment, or it has no rules and was there to be read when
nothing had been saved yet. -/
def Persisted (key : String) (history : List System) (p : Redirection.Snapshot) : Prop :=
  (∃ s ∈ history, s.desk.store.stored? key = some p) ∨
    (p.rules = [] ∧ ∃ s ∈ history, s.desk.store.saves = 0 ∧ s.published = p)

variable {key : String} {s : System} {past : List System}

theorem Persisted.cons {p : Redirection.Snapshot} (h : Persisted key past p) (s : System) :
    Persisted key (s :: past) p := by
  rcases h with ⟨s', hmem, hstored⟩ | ⟨hrules, s', hmem, hsaves⟩
  · exact .inl ⟨s', List.mem_cons_of_mem s hmem, hstored⟩
  · exact .inr ⟨hrules, s', List.mem_cons_of_mem s hmem, hsaves⟩

/-- What is published in step with the store has been persisted. -/
theorem persisted_of_inStep (h : s.desk.InStep) (past : List System) :
    Persisted s.desk.registry.key (s :: past) s.published := by
  have hpublished : s.published = s.desk.registry.routes.snapshot := h.published
  rcases h.backed.recorded with hstored | ⟨hsaves, -, hrules⟩
  · exact .inl ⟨s, List.mem_cons_self, by rw [hpublished, hstored]⟩
  · exact .inr ⟨by rw [hpublished]; exact hrules, s, List.mem_cons_self, hsaves, rfl⟩

/-- In every phase there are rules that the store has. -/
theorem System.Coherent.exists_backs (h : s.Coherent key) :
    ∃ routes, s.desk.store.Backs key routes := by
  obtain ⟨rfl, hphase, -⟩ := h
  cases hp : s.phase <;> rw [hp] at hphase
  case idle | stopped => exact ⟨_, hphase.backed⟩
  case saving ticket draft => exact ⟨_, hphase.2.2⟩
  case publishing ticket => exact ⟨_, hphase⟩
  case delivering ticket event rest => exact ⟨_, hphase.1.backed⟩
  case contacting ticket event target contact rest => exact ⟨_, hphase.1.backed⟩

/-- The empty store has the rules of a new registry. -/
theorem backs_empty (key : String) (version : Version) :
    StateStore.empty.Backs key ⟨.empty, version⟩ :=
  ⟨Redirection.RuleTable.wellFormed_empty, .inr ⟨rfl, rfl, Redirection.RuleTable.all_empty⟩⟩

theorem settled_of_publish {s' : System} (h : step s .publish = some s') :
    s'.phase.isSettled = true := by
  simp only [step] at h
  split at h <;> cases h
  rfl

/-- A run goes on with the moves that are possible. -/
theorem Run.replay (h : Run key s past) (moves : List Move) {s' : System}
    (hmoves : replay s moves = some s') : ∃ past', Run key s' past' := by
  induction moves generalizing s past with
  | nil => cases hmoves; exact ⟨past, h⟩
  | cons m rest ih =>
    obtain ⟨next, hstep, hrest⟩ := Option.bind_eq_some_iff.mp hmoves
    exact ih (h.move hstep) hrest

/-- In a run the copies are related, and what is published has been persisted. -/
theorem Run.coherent_and_persisted (h : Run key s past) :
    s.Coherent key ∧ Persisted key (s :: past) s.published := by
  induction h with
  | start directory capacity hload =>
    obtain ⟨hin, rfl⟩ := Desk.inStep_of_load (backs_empty key ⟨""⟩) hload
    exact ⟨.start rfl hin directory capacity, persisted_of_inStep hin []⟩
  | @move s s' past m _ hstep ih =>
    obtain ⟨hcoherent, hpersisted⟩ := ih
    have hnext := hcoherent.step hstep
    refine ⟨hnext, ?_⟩
    by_cases hm : m = .publish
    -- the rules that are let out now have just been saved
    · have hin := hnext.phase.inStep (settled_of_publish (hm ▸ hstep))
      rw [← hnext.key]
      exact persisted_of_inStep hin _
    · rw [published_of_step hm hstep]
      exact hpersisted.cons s'
  | @reload s past desk _ _ _ directory capacity hload ih =>
    obtain ⟨routes, hbacks⟩ := ih.1.exists_backs
    obtain ⟨hin, rfl⟩ := Desk.inStep_of_load hbacks hload
    exact ⟨.start rfl hin directory capacity, persisted_of_inStep hin _⟩

/-- **What is published has been persisted**, in every run from an empty store, whichever saves fail
and however often the registry is loaded again.  When no command is in progress, and during every
delivery, what is published are the rules of the registry, and those of the store once something has
been saved.  During a delivery they are at the version of the event, which is what receivers read;
and whatever a reader is given at any moment was in the store before. -/
theorem Run.published_is_persisted (h : Run key s past) :
    (s.phase.isSettled = true →
      s.published = s.desk.registry.routes.snapshot ∧
        (0 < s.desk.store.saves → s.desk.store.stored? key = some s.published)) ∧
    (∀ event, s.phase.event? = some event → s.published.version = event.version) ∧
    (∀ n ∈ s.notes, ReadsEvent n.occasion) ∧
    (∀ held p, s.snapshotUnless held = some p → Persisted key (s :: past) p) ∧
    (∀ held p, s.changeFrom? held = some (.ok p) → Persisted key (s :: past) p) := by
  obtain ⟨⟨rfl, hphase, hnotes⟩, hpersisted⟩ := h.coherent_and_persisted
  refine ⟨fun hsettled => ?_, fun event hevent => ?_, hnotes, fun held p hread => ?_,
    fun held p hread => ?_⟩
  · have hin : s.desk.InStep := hphase.inStep hsettled
    have hpublished : s.published = s.desk.registry.routes.snapshot := hin.published
    exact ⟨hpublished, fun hsaves => by rw [hpublished, hin.backed.stored?_eq hsaves]⟩
  · exact hphase.published_version hevent
  · rw [System.snapshotUnless] at hread
    split at hread <;> cases hread
    exact hpersisted
  · rw [System.changeFrom?] at hread
    split at hread
    · cases hread
      exact hpersisted
    · split at hread <;> cases hread

/-- A worker that tells a listener, which reads the rules, of a change that it has saved. -/
theorem Run.published_is_persisted_whileTelling :
    ∃ s past, Run "node" s past ∧ 0 < s.desk.store.saves ∧ s.notes ≠ [] ∧
      s.desk.store.stored? "node" = some s.published := by
  have hload : Desk.load "node" .empty 2000 default = .ok _ := rfl
  have hstart : Run "node" _ [] :=
    .start (.ofList [(.service "mirror", .listener true ⟨none, .ok ()⟩)]) 4 hload
  obtain ⟨past, hrun⟩ := hstart.replay
    [.call 0 (.subscribe (.service "mirror")), .take, .save,
      .call 1 (.append [.of (.ofNat 1) "billing" (.classPrefix "fast")]), .take, .save, .publish,
      .contact] rfl
  obtain ⟨hsettled, -⟩ := hrun.published_is_persisted
  exact ⟨_, past, hrun, by decide, by decide, (hsettled rfl).2 (by decide)⟩

end Worker

end Signpost.Admin
