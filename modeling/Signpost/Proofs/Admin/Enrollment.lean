import Signpost.Proofs.Admin.Drawn
import Signpost.Proofs.Subscription.Roster

/-!
# Subscriptions in runs

The subscriptions of a registry are in memory and in the store.  While a change is being saved the
roster in memory is ahead of the store; what the change would be taken back to is not.  For that no
identifier of a subscription may be drawn twice: a subscription with the identifier of another one
would take its place, and taking it back would remove both.

## Main definitions

* `StateStore.enrolled`: the subscriptions of the stored record.
* `Desk.Enrolled`: the roster has the subscriptions that the store has.
* `Desk.Drafted`: a change has been made that would be taken back to such a roster.

## Main results

* `Desk.Enrolled.amend`, `Desk.Drafted.saved`: what the parts of a command keep.
* `Worker.Drawing.enrolled`: this is so in every run.
-/

namespace Signpost.Admin

variable {key : String} {ids : List Uuid}

/-- The subscriptions of the stored record, if there is one. -/
def StateStore.enrolled (store : StateStore) (key : String) : List Subscription :=
  match store.read key with
  | .ok (some state) => state.subscriptions
  | .ok none | .error _ => []

theorem StateStore.enrolled_of_save {store store' : StateStore} {state : State}
    (h : store.save key state = .ok store') : store'.enrolled key = state.subscriptions := by
  rw [enrolled, (read_of_save h).1]

namespace Desk

variable {d d' : Desk} {command : Command} {draft : Draft}

/-- The roster is well-formed, and has the subscriptions that the store has, under identifiers that
have been drawn. -/
structure Enrolled (d : Desk) (ids : List Uuid) : Prop where
  wellFormed : d.registry.roster.WellFormed
  known : ∀ s ∈ d.registry.roster.all, s.id ∈ ids
  recorded : (d.store.enrolled d.registry.key).Perm d.registry.roster.all

/-- The roster with a change in it is well-formed, and the change would be taken back to the
subscriptions that the store has. -/
structure Drafted (d : Desk) (draft : Draft) (ids : List Uuid) : Prop where
  wellFormed : d.registry.roster.WellFormed
  known : ∀ s ∈ d.registry.roster.all, s.id ∈ ids
  undone : (d.undo draft).Enrolled ids

/-- The roster is the same, and so is what is stored. -/
theorem Enrolled.congr (h : d.Enrolled ids) (hkey : d'.registry.key = d.registry.key)
    (hroster : d'.registry.roster = d.registry.roster)
    (hread : d'.store.read d.registry.key = d.store.read d.registry.key) : d'.Enrolled ids := by
  refine ⟨hroster ▸ h.wellFormed, hroster ▸ h.known, ?_⟩
  rw [StateStore.enrolled, hkey, hread, hroster]
  exact h.recorded

theorem Enrolled.underFailure (h : d.Enrolled ids) (failure : Option Failure) :
    (d.underFailure failure).Enrolled ids :=
  h.congr rfl rfl rfl

theorem Drafted.underFailure (h : d.Drafted draft ids) (failure : Option Failure) :
    (d.underFailure failure).Drafted draft ids := by
  refine ⟨h.wellFormed, h.known, ?_⟩
  have hundo : (d.underFailure failure).undo draft = (d.undo draft).underFailure failure := by
    cases draft <;> rfl
  rw [hundo]
  exact h.undone.underFailure failure

/-- An identifier that has not been drawn is that of no subscription. -/
theorem Enrolled.get?_eq_none (h : d.Enrolled ids) {id : Uuid} (hnew : id ∉ ids) :
    d.registry.roster.get? id = none := by
  rw [h.wellFormed.get?_eq_none_iff]
  intro hmem
  obtain ⟨s, hs, rfl⟩ := List.mem_map.mp hmem
  exact hnew (h.known s hs)

/-- A command that is answered leaves the subscriptions as they are, and any other one makes a
change that can be taken back. -/
theorem Enrolled.amend (h : d.Enrolled ids) (hfresh : ((d.drawn command).ids ++ ids).Nodup) :
    (∀ outcome d', d.amend command = (.answered outcome, d') →
      d'.Enrolled ((d.drawn command).ids ++ ids)) ∧
    ∀ draft d', d.amend command = (.pending draft, d') →
      d'.Drafted draft ((d.drawn command).ids ++ ids) := by
  have hamends := d.amends command
  generalize d.amend command = amended at hamends ⊢
  generalize d.drawn command = drawn at hamends hfresh ⊢
  cases hamends with
  | answered hsame =>
    refine ⟨fun _ _ heq => ?_, fun _ _ heq => nomatch heq⟩
    cases heq
    exact h
  | rules hattempt hchanged =>
    refine ⟨fun _ _ heq => (nomatch heq), fun _ _ heq => ?_⟩
    cases heq
    exact ⟨h.wellFormed, h.known, h.congr rfl rfl rfl⟩
  | subscribed target =>
    have hnew : d.registry.roster.get? d.mint.fresh.1 = none :=
      h.get?_eq_none (List.nodup_cons.mp hfresh).1
    have hall := h.wellFormed.all_insert (s := ⟨d.mint.fresh.1, .routeChange, target⟩) hnew
    have hundone := h.wellFormed.all_insert_unsubscribe
      (s := ⟨d.mint.fresh.1, .routeChange, target⟩) hnew
    have hinserted := h.wellFormed.insert (s := ⟨d.mint.fresh.1, .routeChange, target⟩) hnew
    refine ⟨fun _ _ heq => (nomatch heq), fun _ _ heq => ?_⟩
    cases heq
    refine ⟨hinserted, ?_, hinserted.unsubscribe _, ?_, ?_⟩
    · intro s hs
      rcases List.mem_append.mp (hall ▸ hs) with hs | hs
      · exact List.mem_append_right _ (h.known s hs)
      · rw [List.mem_singleton.mp hs]
        exact List.mem_cons_self
    · intro s hs
      exact List.mem_append_right _ (h.known s (hundone ▸ hs))
    · exact hundone ▸ h.recorded
  | @unsubscribed id s hget =>
    obtain ⟨hrestored, hall⟩ :=
      h.wellFormed.restore_unsubscribe hget (d.registry.roster.unsubscribe id).1.timeout
    have hperm := h.wellFormed.perm_restore_unsubscribe hget
    refine ⟨fun _ _ heq => (nomatch heq), fun _ _ heq => ?_⟩
    cases heq
    refine ⟨h.wellFormed.unsubscribe id, ?_, hrestored, ?_, ?_⟩
    · intro s hs
      refine h.known s ?_
      rw [withRoster, h.wellFormed.all_unsubscribe] at hs
      exact (List.mem_filter.mp hs).1
    · intro s hs
      exact h.known s (hperm.subset (hall ▸ hs))
    · show (d.store.enrolled d.registry.key).Perm _
      exact h.recorded.trans (hall ▸ hperm.symm)

/-- A change that has been saved is what the store has. -/
theorem Drafted.saved (h : d.Drafted draft ids) {store : StateStore}
    (hsave : d.store.save d.registry.key d.registry.state = .ok store) :
    ({ d with store } : Desk).Enrolled ids := by
  refine ⟨h.wellFormed, h.known, ?_⟩
  show (store.enrolled d.registry.key).Perm d.registry.roster.all
  rw [StateStore.enrolled_of_save hsave]
  exact List.Perm.refl _

/-- A registry that is loaded has the subscriptions of the stored record, in their order. -/
theorem roster_of_load {store : StateStore} {timeout : Nat} {mint : Mint}
    (h : load key store timeout mint = .ok d) :
    d.registry.roster = .restore (store.enrolled key) timeout := by
  have hload := read_of_load h
  rw [StateStore.enrolled, ← hload]
  unfold load at h
  split at h
  · cases h
  · next state hread =>
    rw [hread]
    split at h <;> cases h
    rfl
  · next hread =>
    rw [hread]
    cases h
    rfl

end Desk

namespace Worker

variable {s s' : System} {past : List System} {drawn : Drawn} {m : Move} {d : Desk}

/-- How the roster and the store are related in a stage. -/
def Stage.Enrolled (d : Desk) (ids : List Uuid) : Stage → Prop
  | .saving _ draft => d.Drafted draft ids
  | .resting | .publishing _ | .telling _ => d.Enrolled ids

/-- When no change is under way, the roster has what the store has. -/
theorem enrolled_of_settled {phase : Phase} (h : phase.stage.Enrolled d ids)
    (hsettled : phase.isSettled = true) : d.Enrolled ids := by
  cases phase with
  | saving ticket draft | publishing ticket => cases hsettled
  | idle | stopped => exact h
  | delivering ticket event rest => exact h
  | contacting ticket event target contact rest => exact h

/-- The stored subscriptions have distinct identifiers, which have been drawn. -/
theorem Stage.Enrolled.stored {stage : Stage} (h : stage.Enrolled d ids) :
    ((d.store.enrolled d.registry.key).map Subscription.id).Nodup ∧
      ∀ s ∈ d.store.enrolled d.registry.key, s.id ∈ ids := by
  have henrolled : ∀ {d : Desk}, d.Enrolled ids →
      ((d.store.enrolled d.registry.key).map Subscription.id).Nodup ∧
        ∀ s ∈ d.store.enrolled d.registry.key, s.id ∈ ids := fun hd =>
    ⟨(hd.recorded.map Subscription.id).nodup_iff.mpr hd.wellFormed.nodup_ids,
      fun s hs => hd.known s (hd.recorded.subset hs)⟩
  cases stage with
  | saving ticket draft =>
    have hundone := henrolled h.undone
    rwa [(d.agrees_undo draft).store, (d.agrees_undo draft).key] at hundone
  | resting | publishing ticket | telling ticket => exact henrolled h

/-- Every move keeps roster and store related, as long as no identifier is drawn twice. -/
theorem enrolled_step (h : s.phase.stage.Enrolled s.desk ids) (hstep : step s m = some s')
    (hfresh : ((s.drawn m).ids ++ ids).Nodup) :
    s'.phase.stage.Enrolled s'.desk ((s.drawn m).ids ++ ids) := by
  cases advance_of_step hstep with
  | aside hpart hdesk hstage =>
    have hdrawn : s.drawn m = .none := System.drawn_of_ne_take (by rintro rfl; cases hpart)
    rw [hdrawn, hdesk, hstage]
    exact h
  | setFailure failure =>
    show s.phase.stage.Enrolled (s.desk.underFailure failure) ids
    cases hstage : s.phase.stage <;> rw [hstage] at h
    case saving => exact h.underFailure failure
    case resting | publishing | telling => exact h.underFailure failure
  | @take ticket command rest hidle hqueue =>
    have hdrawn : s.drawn .take = s.desk.drawn command := by rw [System.drawn, hqueue]
    rw [hdrawn] at hfresh ⊢
    rw [hidle] at h
    obtain ⟨hanswered, hpending⟩ := Desk.Enrolled.amend h hfresh
    rcases { s with queue := rest }.serve_cases ticket command with
      ⟨outcome, hamend, heq⟩ | ⟨draft, desk, hamend, heq⟩ <;> rw [heq]
    · exact hanswered outcome _ hamend
    · exact hpending draft _ hamend
  | @save ticket draft hphase =>
    rw [hphase] at h
    rcases s.save_cases ticket draft with ⟨e, -, heq⟩ |
      ⟨store, hsave, ⟨answer, -, -, heq⟩ | ⟨-, heq⟩⟩ <;> rw [heq]
    · exact Desk.Drafted.undone h
    · exact Desk.Drafted.saved h hsave
    · exact Desk.Drafted.saved h hsave
  | publish hphase =>
    rw [hphase] at h
    exact Desk.Enrolled.congr h rfl rfl rfl
  | reply hphase =>
    rw [hphase] at h
    exact h

theorem ids_drawnByLoad (key : String) (store : StateStore) (mint : Mint) :
    (Desk.drawnByLoad key store mint).ids = [] := by
  unfold Desk.drawnByLoad
  split <;> rfl

/-- A registry that is loaded has the subscriptions that are stored. -/
theorem enrolled_load {store : StateStore} {timeout : Nat} {mint : Mint} {desk : Desk}
    {routes : Redirection.Registry} (hbacks : store.Backs key routes)
    (hload : Desk.load key store timeout mint = .ok desk)
    (hstored : ((store.enrolled key).map Subscription.id).Nodup ∧
      ∀ s ∈ store.enrolled key, s.id ∈ ids) :
    desk.Enrolled ids := by
  obtain ⟨again, hagain, -, hkey, hstore⟩ :=
    Desk.exists_inStep_load hbacks (Desk.read_of_load hload) timeout mint
  cases hload.symm.trans hagain
  obtain ⟨hrestored, hall⟩ := Roster.restore_all timeout hstored.1
  refine ⟨?_, ?_, ?_⟩ <;> rw [Desk.roster_of_load hload]
  · exact hrestored
  · rw [hall]
    exact hstored.2
  · rw [hall, hstore, hkey]

/-- **The roster and the store are related** as the stage of the worker wants them, in every run
from an empty store in which no identifier is drawn twice. -/
theorem Drawing.enrolled (h : Drawing key .empty s past drawn) (hfresh : drawn.ids.Nodup) :
    s.phase.stage.Enrolled s.desk drawn.ids := by
  induction h with
  | start directory capacity hload =>
    exact enrolled_load (backs_empty key ⟨""⟩) hload ⟨List.nodup_nil, fun _ hs => nomatch hs⟩
  | move h hstep ih => exact enrolled_step (ih (List.nodup_append.mp hfresh).2.1) hstep hfresh
  | @reload s past desk timeout mint drawn h directory capacity hload ih =>
    have hold := h.run.coherent_and_persisted.1
    obtain ⟨routes, hbacks⟩ := hold.exists_backs
    have hstored := (ih (List.nodup_append.mp hfresh).2.1).stored
    rw [hold.key] at hstored
    rw [Drawn.ids_append, ids_drawnByLoad, List.nil_append]
    exact enrolled_load hbacks hload hstored

end Worker

end Signpost.Admin
