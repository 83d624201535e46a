import Signpost.Admin.Registry
import Signpost.Proofs.Redirection.Batch

/-!
# The commit of a change

Changed rules exist three times: in memory, in the store, and in the snapshot that everybody may
read.  A command that changes the rules changes these one after another and tells the subscribers
last.  Where it ends early, at a refusal or because the store fails, it ends before anything of the
change can be seen.

## Main definitions

* `Command.concernsRules`: whether a command may change rules.
* `Desk.attempt?`: what such a command comes to in memory.
* `Desk.Agrees`: desks that differ in memory alone.
* `Desk.EndsQuietly`: a command is answered, and nobody is told anything.
* `Desk.CommitsInOrder`: a change is saved, then published, then told.

## Main results

* `Desk.whole_attempt?`: in memory a command draws one new version or changes nothing.
* `Desk.endsQuietly_of_unchanged`, `Desk.endsQuietly_of_save_error`: the ways to end without a trace.
* `Desk.commitsInOrder_of_save_ok`: a change that can be saved is committed.
-/

namespace Signpost.Admin

/-- Whether a command may change rules. -/
def Command.concernsRules : Command → Bool
  | .append _ | .pop _ => true
  | .subscribe _ | .unsubscribe _ => false

namespace Desk

open Delivery (Directory)

variable {d : Desk} {command : Command} {a : Redirection.Attempt}

/-! ## The part in memory -/

/-- What a command is answered that comes to no more than an attempt. -/
def answerTo (a : Redirection.Attempt) : Except Error Answer :=
  match a.verdict with
  | .error e => .error (.redirection e)
  | .ok changed => .ok (.changed changed)

/-- What a command comes to in memory, if it is one that may change rules. -/
def attempt? (d : Desk) : Command → Option Redirection.Attempt
  | .append rules => some (d.append rules)
  | .pop ids => some (d.pop ids)
  | .subscribe _ | .unsubscribe _ => none

/-- The desk with a change that has been made in memory alone. -/
def made (d : Desk) (a : Redirection.Attempt) : Desk :=
  { d.withRoutes a.after with mint := a.mint }

/-- The desks differ in memory alone: what is stored and what is published are the same. -/
structure Agrees (d d' : Desk) : Prop where
  key : d'.registry.key = d.registry.key
  store : d'.store = d.store
  published : d'.registry.published = d.registry.published

theorem agrees_made (d : Desk) (a : Redirection.Attempt) : d.Agrees (d.made a) := ⟨rfl, rfl, rfl⟩

theorem whole_append (d : Desk) (rules : List Redirection.Rule) :
    (d.append rules).Whole d.registry.routes d.mint := by
  match rules with
  | [] => exact Redirection.Registry.whole_of_same (by simp) d.registry.routes d.mint
  | [rule] => exact d.registry.routes.whole_tryPush rule d.mint
  | first :: second :: rest =>
    exact d.registry.routes.whole_tryPushBatch (first :: second :: rest) d.mint

theorem whole_attempt? (h : d.attempt? command = some a) : a.Whole d.registry.routes d.mint := by
  cases command with
  | append rules => cases h; exact d.whole_append rules
  | pop ids => cases h; exact d.registry.routes.whole_popBatch ids d.mint
  | subscribe target => cases h
  | unsubscribe id => cases h

theorem amend_eq_adopt (h : d.attempt? command = some a) : d.amend command = d.adopt a := by
  cases command with
  | append rules => cases h; rfl
  | pop ids => cases h; rfl
  | subscribe target => cases h
  | unsubscribe id => cases h

theorem amend_of_changed (h : d.attempt? command = some a) (hchanged : a.verdict = .ok true) :
    d.amend command = (.pending (.routes d.registry.routes), d.made a) := by
  rw [amend_eq_adopt h, adopt, hchanged, made]

/-- Nothing has been made if nothing has changed. -/
theorem made_eq_self (hwhole : a.Whole d.registry.routes d.mint) (h : a.verdict ≠ .ok true) :
    d.made a = d := by
  obtain ⟨hafter, hmint⟩ := hwhole.unchanged h
  rw [made, withRoutes, hafter, hmint]

/-- A command that changes nothing is answered, and everything is as it was. -/
theorem amend_of_unchanged (h : d.attempt? command = some a) (hsame : a.verdict ≠ .ok true) :
    d.amend command = (.answered (answerTo a), d) := by
  have hmade : d.made a = d := made_eq_self (whole_attempt? h) hsame
  rw [amend_eq_adopt h, adopt, answerTo]
  rcases hverdict : a.verdict with e | (_ | _)
  · exact congrArg (Prod.mk _) hmade
  · exact congrArg (Prod.mk _) hmade
  · exact absurd hverdict hsame

/-- A change that cannot be saved is taken back; the version that was drawn for it is lost. -/
theorem save_made (d : Desk) (a : Redirection.Attempt) :
    (d.made a).save (.routes d.registry.routes) =
      match d.store.save d.registry.key (d.made a).registry.state with
      | .error e => (.answered (.error (.persistence e)), { d with mint := a.mint })
      | .ok store => (.pending (), { d.made a with store }) := rfl

/-! ## The ways to end -/

/-- A command is answered and nobody is told anything, whoever there is and whatever is
cancelled. -/
structure EndsQuietly (d : Desk) (command : Command) (answer : Except Error Answer) (last : Desk) :
    Prop where
  untold : d.apply command = (⟨answer, none⟩, last)
  ran : ∀ directory cancel readable,
    d.run directory cancel command readable = (⟨answer, [], 0⟩, last)

/-- A change of the rules is made in memory, saved, published, and told, in this order.  What is
saved, what is published and what is told of have the version that was drawn for the change, and no
receiver and no cancellation has a say in any of it. -/
structure CommitsInOrder (d : Desk) (command : Command) (a : Redirection.Attempt)
    (store : StateStore) : Prop where
  version : a.after.version = (Version.fresh d.mint).1
  /-- The change is made in memory, while the store and what is published are as before. -/
  amended : d.amend command = (.pending (.routes d.registry.routes), d.made a) ∧
    d.Agrees (d.made a)
  /-- Then it is saved, while what is published is still as before. -/
  saved : (d.made a).save (.routes d.registry.routes) = (.pending (), { d.made a with store }) ∧
    ({ d.made a with store } : Desk).registry.published = d.registry.published
  record : store.documents.get? d.registry.key =
    some (State.toJson ⟨d.registry.roster.all, a.after.all, a.after.version⟩)
  /-- Then it is published, and only then is there an event. -/
  published : d.apply command = (⟨.ok (.changed true), some ⟨.routeChange, a.after.version⟩⟩,
    { d.made a with
      store
      registry := { d.registry with routes := a.after, published := a.after.snapshot } })
  /-- The event is delivered when all else has been done: what receivers can read by then, if they
  can read anything, are the changed rules. -/
  told : ∀ directory cancel readable, ∃ notes lasts,
    d.run directory cancel command readable =
        (⟨.ok (.changed true), notes, lasts⟩, (d.apply command).2) ∧
      (d.registry.roster.notify directory (if readable then some a.after.snapshot else none)
        ⟨.routeChange, a.after.version⟩ cancel).2 = (notes, lasts)

theorem EndsQuietly.of_apply {answer : Except Error Answer} {last : Desk}
    (h : d.apply command = (⟨answer, none⟩, last)) : d.EndsQuietly command answer last :=
  ⟨h, fun directory cancel readable => by rw [run, h]⟩

/-- A command that changes nothing is done after its part in memory. -/
theorem endsQuietly_of_unchanged (h : d.attempt? command = some a) (hsame : a.verdict ≠ .ok true) :
    d.EndsQuietly command (answerTo a) d := by
  apply EndsQuietly.of_apply
  rw [apply, amend_of_unchanged h hsame]

theorem endsQuietly_of_save_error (h : d.attempt? command = some a)
    (hchanged : a.verdict = .ok true) {e : StoreError}
    (hsave : d.store.save d.registry.key (d.made a).registry.state = .error e) :
    d.EndsQuietly command (.error (.persistence e)) { d with mint := a.mint } := by
  have hsaved : (d.made a).save (.routes d.registry.routes) =
      (.answered (.error (.persistence e)), { d with mint := a.mint }) := by
    rw [save_made, hsave]
  apply EndsQuietly.of_apply
  simp only [apply, amend_of_changed h hchanged, hsaved]

/-- A change that can be saved is committed. -/
theorem commitsInOrder_of_save_ok (h : d.attempt? command = some a)
    (hchanged : a.verdict = .ok true) {store : StateStore}
    (hsave : d.store.save d.registry.key (d.made a).registry.state = .ok store) :
    d.CommitsInOrder command a store := by
  have hamend := amend_of_changed h hchanged
  have hsaved : (d.made a).save (.routes d.registry.routes) =
      (.pending (), { d.made a with store }) := by
    rw [save_made, hsave]
  have happly : d.apply command = (⟨.ok (.changed true), some ⟨.routeChange, a.after.version⟩⟩,
      { d.made a with
        store
        registry := { d.registry with routes := a.after, published := a.after.snapshot } }) := by
    simp only [apply, hamend, hsaved]
    rfl
  have hversion := (Prod.ext_iff.mp ((whole_attempt? h).changed hchanged)).1
  refine ⟨hversion, ⟨hamend, d.agrees_made a⟩, ⟨hsaved, rfl⟩, ?_, happly, ?_⟩
  · rw [StateStore.save] at hsave
    split at hsave
    · cases hsave
    · cases hsave
      exact (Dict.get?_put _ _ _ _).trans (if_pos rfl)
  · intro directory cancel readable
    refine ⟨_, _, ?_, rfl⟩
    rw [run, happly]

/-! ## A desk with nothing on it -/

/-- A desk as it is opened on an empty store. -/
def opened : Desk :=
  let (routes, mint) := Redirection.Registry.new default
  ⟨.of "node" routes (.empty Roster.defaultTimeout), .empty, mint⟩

/-- A batch that the opened desk takes. -/
def twoRules : List Redirection.Rule :=
  [.of (.ofNat 1) "billing" (.classPrefix "fast"), .of (.ofNat 2) "stock" (.classPrefix "new")]

end Desk

end Signpost.Admin
