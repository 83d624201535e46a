import Signpost.Proofs.Admin.Enrollment
import Signpost.Proofs.Redirection.Alike

/-!
# Restarts that nobody notices

A registry that is loaded from its store has the rules, the version and the subscriptions of the one
that is running.  It is not the same registry: the rules of a source are listed in the order of
their identifiers, and subscriptions may stand in another order.  No command that changes rules can
tell the two apart.

## Main definitions

* `Desk.Alike`: two registries have the same rules.
* `Desk.decisions`: what commands are answered one after another, and the rules after each of them.

## Main results

* `Desk.perform_alike`, `Desk.decisions_eq`: commands are decided in the same way where registries
  are alike.
* `Desk.read_perform`: a command is in the store if its answer says that something has changed.
* `Worker.Drawing.restart_transparent`
-/

namespace Signpost.Admin

/-- Whether an answer says that something has changed. -/
def tellsOfChange : Except Error Answer → Bool
  | .ok (.changed true) | .ok (.subscribed _) => true
  | .ok (.changed false) | .error _ => false

namespace Desk

variable {d d' : Desk} {command : Command} {a : Redirection.Attempt}

/-! ## Registries with the same rules -/

/-- The registries have the same rules, though perhaps in another order. -/
def Alike (d d' : Desk) : Prop := d.registry.routes.table.Alike d'.registry.routes.table

theorem Alike.all_eq (h : d.Alike d') : d.registry.routes.all = d'.registry.routes.all :=
  Redirection.RuleTable.Alike.all_eq h

/-- A command comes to the same in memory. -/
theorem Alike.attempt (h : d.Alike d') (hcommand : command.concernsRules = true) :
    ∃ a a', d.attempt? command = some a ∧ d'.attempt? command = some a' ∧ a.Alike a' := by
  cases command with
  | append rules =>
    refine ⟨_, _, rfl, rfl, ?_⟩
    match rules with
    | [] => exact ⟨.ok false, h⟩
    | [rule] => exact Redirection.Registry.tryPush_alike h rule _ _
    | first :: second :: rest => exact Redirection.Registry.tryPushBatch_alike h _ _ _
  | pop ids => exact ⟨_, _, rfl, rfl, Redirection.Registry.popBatch_alike h ids _ _⟩
  | subscribe target | unsubscribe id => cases hcommand

/-- What is answered alike has the same answer, up to the wording of an error. -/
theorem mapError_answerTo {a a' : Redirection.Attempt} (h : a.Alike a') :
    (answerTo a).mapError Error.kind = (answerTo a').mapError Error.kind := by
  have hverdict := h.verdict
  unfold answerTo
  generalize a.verdict = verdict at hverdict ⊢
  generalize a'.verdict = verdict' at hverdict ⊢
  cases hverdict with
  | ok changed => rfl
  | refused hkind => exact congrArg Except.error hkind

/-- **A command is decided in the same way where registries are alike**, whether or not it can be
saved, and leaves them alike. -/
theorem perform_alike (h : d.Alike d') (hcommand : command.concernsRules = true)
    (failure : Option Failure) :
    (d.perform failure command).1.answer.mapError Error.kind =
        (d'.perform failure command).1.answer.mapError Error.kind ∧
      (d.perform failure command).2.Alike (d'.perform failure command).2 := by
  have hunder : (d.underFailure failure).Alike (d'.underFailure failure) := h
  obtain ⟨a, a', hattempt, hattempt', ha⟩ := hunder.attempt hcommand
  unfold perform
  by_cases hchanged : a.verdict = .ok true
  · have hchanged' : a'.verdict = .ok true := ha.verdict.eq_ok_iff.mp hchanged
    cases failure with
    | none =>
      rw [(commitsInOrder_of_save_ok hattempt hchanged rfl).published,
        (commitsInOrder_of_save_ok hattempt' hchanged' rfl).published]
      exact ⟨rfl, ha.table⟩
    | some f =>
      rw [(endsQuietly_of_save_error hattempt hchanged rfl).untold,
        (endsQuietly_of_save_error hattempt' hchanged' rfl).untold]
      exact ⟨rfl, h⟩
  · have hsame' : a'.verdict ≠ .ok true := fun hchanged' =>
      hchanged (ha.verdict.eq_ok_iff.mpr hchanged')
    rw [(endsQuietly_of_unchanged hattempt hchanged).untold,
      (endsQuietly_of_unchanged hattempt' hsame').untold]
    exact ⟨mapError_answerTo ha, h⟩

/-- What commands are answered that are done one after another, up to the wording of errors, and the
rules after each of them.  With every command goes whether the store fails. -/
def decisions (d : Desk) :
    List (Option Failure × Command) → List (Except String Answer × List Redirection.Rule)
  | [] => []
  | (failure, command) :: rest =>
    let (applied, d) := d.perform failure command
    (applied.answer.mapError Error.kind, d.registry.routes.all) :: d.decisions rest

/-- Commands that may change rules are decided in the same way where registries are alike. -/
theorem decisions_eq (h : d.Alike d') {jobs : List (Option Failure × Command)}
    (hjobs : ∀ job ∈ jobs, job.2.concernsRules = true) : d.decisions jobs = d'.decisions jobs := by
  induction jobs generalizing d d' with
  | nil => rfl
  | cons job rest ih =>
    obtain ⟨failure, command⟩ := job
    rw [List.forall_mem_cons] at hjobs
    obtain ⟨hanswer, hnext⟩ := perform_alike h hjobs.1 failure
    simp only [decisions, hanswer, hnext.all_eq, ih hnext hjobs.2]

/-! ## What is in the store -/

/-- A command by itself is in the store if its answer says that something has changed, and the store
has what it had otherwise. -/
theorem read_perform (d : Desk) (failure : Option Failure) (command : Command) :
    (d.perform failure command).2.store.read d.registry.key =
      if tellsOfChange (d.perform failure command).1.answer then
        .ok (some (d.amend command).2.registry.state)
      else d.store.read d.registry.key := by
  have hamend := d.amend_underFailure failure command
  have hagrees := d.agrees_amend command
  unfold perform
  rcases hmemory : d.amend command with ⟨outcome | draft, d'⟩ <;> rw [hmemory] at hamend hagrees
  · rw [apply_of_answered hamend]
    have hread : (d'.underFailure failure).store.read d.registry.key =
        d.store.read d.registry.key := by
      rw [← hagrees.store]
      rfl
    rcases outcome_of_amend hmemory with rfl | ⟨e, rfl⟩
    · exact hread
    · exact hread
  · rcases (d'.underFailure failure).save_cases draft with ⟨e, -, hsave⟩ | ⟨store, hstore, hsave⟩
    -- what is taken back has not touched the store
    · rw [apply_of_saved hamend hsave]
      show ((d'.underFailure failure).undo draft).store.read d.registry.key = d.store.read _
      rw [((d'.underFailure failure).agrees_undo draft).store, ← hagrees.store]
      rfl
    · have hread := (StateStore.read_of_save hstore).1
      rw [registry_underFailure, hagrees.key] at hread
      cases draft with
      | routes before =>
        rw [apply_of_pending hamend hsave]
        exact hread
      | subscription id | removal subscription =>
        rw [apply_of_saved hamend hsave]
        exact hread

end Desk

namespace Worker

variable {key : String} {s : System} {past : List System} {drawn : Drawn}

/-- **A restart is transparent** in every run from an empty store in which no identifier is drawn
twice, whichever saves fail.  When no change is under way and something has been saved, a store
that works gives a registry; it has the version, the rules and the subscriptions of the one that is
running, and decides every sequence of commands that may change rules in the same way.  What is in
the store is what has been acknowledged: a command by itself changes the stored record if its answer
says that something has changed, to what it has made of the registry, and otherwise not at all. -/
theorem Drawing.restart_transparent (h : Drawing key .empty s past drawn) (hfresh : drawn.ids.Nodup)
    (hsettled : s.phase.isSettled = true) (hsaved : 0 < s.desk.store.saves) (timeout : Nat)
    (mint : Mint) :
    (∃ again, Desk.load key (s.desk.underFailure none).store timeout mint = .ok again ∧
      again.registry.routes.version = s.desk.registry.routes.version ∧
      again.registry.routes.all = s.desk.registry.routes.all ∧
      again.registry.roster.all.Perm s.desk.registry.roster.all ∧
      ∀ jobs, (∀ job ∈ jobs, job.2.concernsRules = true) →
        again.decisions jobs = s.desk.decisions jobs) ∧
    ∀ failure command,
      (s.desk.perform failure command).2.store.read key =
        if tellsOfChange (s.desk.perform failure command).1.answer then
          .ok (some (s.desk.amend command).2.registry.state)
        else s.desk.store.read key := by
  have hcoherent := h.run.coherent_and_persisted.1
  have hin : s.desk.InStep := hcoherent.phase.inStep hsettled
  have hkey := hcoherent.key
  have hbacks : (s.desk.underFailure none).store.Backs key s.desk.registry.routes :=
    ⟨hin.backed.wellFormed, hkey ▸ hin.backed.recorded⟩
  refine ⟨?_, fun failure command => ?_⟩
  · obtain ⟨again, hload, hagain, hkey', hstore⟩ :=
      Desk.exists_inStep_load hbacks rfl timeout mint
    have hsnapshot : again.registry.routes.snapshot = s.desk.registry.routes.snapshot := by
      have hrecorded := hagain.backed.stored?_eq (hstore ▸ hsaved)
      rw [hkey', hstore, hbacks.stored?_eq hsaved] at hrecorded
      exact (Option.some.inj hrecorded).symm
    have hall : again.registry.routes.all = s.desk.registry.routes.all :=
      congrArg Redirection.Snapshot.rules hsnapshot
    have halike : again.Alike s.desk :=
      .of_all_eq hagain.backed.wellFormed hin.backed.wellFormed hall
    have hstored := (h.enrolled hfresh).stored
    have henrolled : s.desk.Enrolled drawn.ids := enrolled_of_settled (h.enrolled hfresh) hsettled
    refine ⟨again, hload, congrArg Redirection.Snapshot.version hsnapshot, hall, ?_,
      fun jobs hjobs => Desk.decisions_eq halike hjobs⟩
    have hrestored := (Roster.restore_all timeout hstored.1).2
    rw [Desk.roster_of_load hload, ← hkey]
    exact (List.Perm.of_eq hrestored).trans henrolled.recorded
  · rw [← hkey]
    exact s.desk.read_perform failure command

/-- Two subscriptions, two rules of one source, of which the later one comes first by identifier,
and the failed removal of the first subscription. -/
def outOfOrder : List Move :=
  [.call 0 (.subscribe (.service "mirror")), .take, .save,
    .call 1 (.subscribe (.service "audit")), .take, .save,
    .call 2 (.append [⟨.ofNat 2, "", "billing", .classPrefix "fast", none⟩]), .take, .save,
    .publish, .contact, .contact, .reply,
    .call 3 (.append [⟨.ofNat 1, "", "billing", .classPrefix "slow", some (.keyPrefix "x")⟩]),
    .take, .save, .publish, .contact, .contact, .reply,
    .setFailure (some (.root "disk full")), .call 4 (.unsubscribe (Mint.nth default 1)), .take,
    .save]

/-- The system after these moves, with a subscriber list that is not in the order of the store. -/
def afterOutOfOrder : System :=
  (replay (start Desk.opened .empty 8) outOfOrder).getD (start Desk.opened .empty 8)

/-- Commands that are decided in four ways. -/
def fourCommands : List (Option Failure × Command) :=
  [(none, .append [⟨.ofNat 3, "", "billing", .classPrefix "new", none⟩]), (none, .pop [.ofNat 2]),
    (none, .pop [.ofNat 2]), (some (.root "disk full"), .pop [.ofNat 1])]

theorem restart_transparent_outOfOrder :
    ∃ past drawn, Drawing "node" .empty afterOutOfOrder past drawn ∧ drawn.ids.Nodup ∧
      ∃ again, Desk.load "node" (afterOutOfOrder.desk.underFailure none).store 2000 default =
        .ok again ∧
      (again.decisions fourCommands).map Prod.fst =
        [.error "conflict", .ok (.changed true), .ok (.changed false), .error "persistence"] := by
  have hload : Desk.load "node" .empty 2000 default = .ok Desk.opened := rfl
  have hstart : Drawing "node" .empty (start Desk.opened .empty 8) [] _ := .start .empty 8 hload
  have hmoves : replay (start Desk.opened .empty 8) outOfOrder = some afterOutOfOrder := rfl
  obtain ⟨past, hrun, -⟩ := hstart.replay outOfOrder hmoves
  have hfresh : (drawnIn (start Desk.opened .empty 8) outOfOrder ++
      Desk.drawnByLoad "node" .empty default).ids.Nodup := by decide
  obtain ⟨⟨again, hagain, -, -, -, hdecisions⟩, -⟩ :=
    hrun.restart_transparent hfresh rfl (by decide) 2000 default
  refine ⟨past, _, hrun, hfresh, again, hagain, ?_⟩
  rw [hdecisions fourCommands (by decide)]
  rfl

end Worker

end Signpost.Admin
