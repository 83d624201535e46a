import Mathlib.Algebra.GroupWithZero.Nat
import Mathlib.Data.List.Nodup
import Signpost.Proofs.Timing
import Signpost.Subscription.Delivery

/-!
# The turns of a delivery

An event is delivered to subscribers in turns, one for each of them and in their order.  What comes
of a turn is up to the subscriber's own receiver and its time, unless the caller gives up first.
When a turn would be over depends on those before it, for they take their time, but what comes of
it does not.

## Main definitions

* `Delivery.Verdict`: what comes of a delivery when nobody interferes.
* `Delivery.Settled`: what comes of a delivery that is due at some moment.
* `Delivery.called`: who is called, told from what is noted.
* `Delivery.lasts`, `Delivery.dueAfter`: how long deliveries take when nobody interferes.
* `Delivery.Turn`, `Delivery.turns`: the turns of the deliveries of one event.
* `Delivery.Report.Says`, `Delivery.Report.Partitions`: what a report says of identifiers.

## Main results

* `Delivery.deliver_cases`: how one delivery goes.
* `Delivery.settled_of_turns`: what comes of every turn.
* `Delivery.called_turns_sublist`, `Delivery.called_turns_never`: who is called.
* `Delivery.deliverAll_eq`, `Delivery.Report.partitions_ofTurns`: the report has every turn once.
-/

namespace Signpost.Delivery

open Redirection (Snapshot)

variable {directory : Directory} {published : Option Snapshot} {timeout start : Nat} {event : Event}
  {cancel : Cancel} {target : Target} {there : Option Receiver}
  {outcome outcome' : Except Error Unit}

/-! ## A receiver by itself -/

/-- What comes of a delivery when nobody interferes.  It is up to the receiver that is there, if
any, and the time that it has. -/
inductive Verdict (timeout : Nat) (target : Target) : Option Receiver → Except Error Unit → Prop
  | unresolved : Verdict timeout target none (.error (.unresolved target))
  /-- The node's own route table takes every event at once. -/
  | mirrored : Verdict timeout target (some .routeTable) (.ok ())
  | accepted {reads : Bool} {work : Course Unit} {d : Nat}
      (hanswers : work.Answers (some timeout) d ()) :
      Verdict timeout target (some (.listener reads work)) (.ok ())
  | failed {reads : Bool} {work : Course Unit} {d : Nat} {f : Failure}
      (hintime : work.InTime (some timeout) d) (hresult : work.result = .error f) :
      Verdict timeout target (some (.listener reads work)) (.error (.receiver f.chain))
  | late {reads : Bool} {work : Course Unit} (hlate : ∀ d, work.delay = some d → timeout < d) :
      Verdict timeout target (some (.listener reads work)) (.error (.timedOut timeout))

/-- What comes of a delivery is one thing. -/
theorem Verdict.unique (h : Verdict timeout target there outcome)
    (h' : Verdict timeout target there outcome') : outcome = outcome' := by
  cases h <;> cases h' <;> simp_all [Course.Answers, Course.InTime]
  -- nothing is both in time and late
  all_goals omega

theorem verdict_ne_cancelled : ¬Verdict timeout target there (.error .cancelled) := nofun

/-- An event is taken in time exactly if the receiver that is there says so. -/
theorem verdict_ok_iff :
    Verdict timeout target there (.ok ()) ↔
      there = some .routeTable ∨
        ∃ reads work d, there = some (.listener reads work) ∧
          work.Answers (some timeout) d () := by
  constructor
  · intro h
    cases h with
    | mirrored => exact .inl rfl
    | accepted hanswers => exact .inr ⟨_, _, _, rfl, hanswers⟩
  · rintro (rfl | ⟨_, _, _, rfl, hanswers⟩)
    · exact .mirrored
    · exact .accepted hanswers

/-- How long a receiver has a delivery in hand, within a time. -/
def Receiver.lasts (timeout : Nat) : Receiver → Nat
  | .routeTable => 0
  | .listener _ work => (work.delay.map (min timeout)).getD timeout

/-- How long a delivery to a target takes when nobody interferes. -/
def lasts (directory : Directory) (timeout : Nat) (target : Target) : Nat :=
  ((directory.get? target).map (Receiver.lasts timeout)).getD 0

theorem lasts_contact (published : Option Snapshot) (timeout : Nat) (event : Event)
    (receiver : Receiver) :
    (contact published timeout event receiver).lasts = receiver.lasts timeout := by
  cases receiver with
  | routeTable => rfl
  | listener reads work =>
    obtain ⟨_ | d, result⟩ := work
    · rfl
    · by_cases hle : d ≤ timeout
      · cases result <;> simp [contact, Receiver.lasts, hle]
      · simp [contact, Receiver.lasts, hle, Nat.le_of_not_le hle]

/-- A receiver that is contacted does what the verdict says. -/
theorem verdict_contact (published : Option Snapshot) (timeout : Nat) (event : Event)
    (target : Target) (receiver : Receiver) :
    Verdict timeout target (some receiver) (contact published timeout event receiver).outcome := by
  cases receiver with
  | routeTable => exact .mirrored
  | listener reads work =>
    obtain ⟨_ | d, result⟩ := work
    · exact .late nofun
    · by_cases hle : d ≤ timeout
      · have hintime : (Course.mk (some d) result).InTime (some timeout) d :=
          ⟨rfl, fun l hl => Option.some.inj hl ▸ hle⟩
        cases result with
        | ok =>
          rw [show (contact published timeout event _).outcome = .ok () by simp [contact, hle]]
          exact .accepted ⟨hintime, rfl⟩
        | error f =>
          rw [show (contact published timeout event _).outcome = .error (.receiver f.chain) by
            simp [contact, hle]]
          exact .failed hintime rfl
      · rw [show (contact published timeout event _).outcome = .error (.timedOut timeout) by
          simp [contact, hle]]
        refine .late fun d' hd' => ?_
        rw [← Option.some.inj hd']
        exact Nat.lt_of_not_le hle

/-! ## One delivery -/

/-- What comes of a delivery that would be over at some moment: its verdict if the caller has not
given up by then.  A target that is missing is told of even to a caller who has. -/
structure Settled (timeout : Nat) (cancel : Cancel) (due : Nat) (target : Target)
    (there : Option Receiver) (outcome : Except Error Unit) : Prop where
  verdict : cancel.before due = false ∨ there = none → Verdict timeout target there outcome
  cancelled : cancel.before due = true → there ≠ none → outcome = .error .cancelled

/-- How one delivery goes: it is settled, and either takes its time, or is given up so that all
later ones are begun by a caller who has given up. -/
theorem deliver_cases (directory : Directory) (published : Option Snapshot) (timeout : Nat)
    (event : Event) (cancel : Cancel) (start : Nat) (target : Target) :
    let d := deliver directory published timeout event cancel start target
    let due := start + lasts directory timeout target
    Settled timeout cancel due target (directory.get? target) d.outcome ∧
      ((d.gaveUp = false ∧ d.ends = due) ∨ (d.gaveUp = true ∧ cancel.before due = true)) := by
  dsimp only
  unfold deliver lasts
  cases directory.get? target with
  | none => exact ⟨⟨fun _ => .unresolved, fun _ hne => absurd rfl hne⟩, .inl ⟨rfl, rfl⟩⟩
  | some receiver =>
    rw [Option.map_some, Option.getD_some]
    dsimp only
    by_cases hdue : cancel.before (start + receiver.lasts timeout) = true
    -- the caller gives up, before the delivery begins or while it lasts
    · rw [lasts_contact, if_pos hdue]
      have hsettled : Settled timeout cancel (start + receiver.lasts timeout) target
          (some receiver) (.error .cancelled) :=
        ⟨fun h => by simp [hdue] at h, fun _ _ => rfl⟩
      split
      · exact ⟨hsettled, .inr ⟨rfl, hdue⟩⟩
      · exact ⟨hsettled, .inr ⟨rfl, hdue⟩⟩
    · have hdue' : cancel.before (start + receiver.lasts timeout) = false := by simpa using hdue
      have hstart := Cancel.before_eq_false_of_le (Nat.le_add_right _ _) hdue'
      have hverdict := verdict_contact published timeout event target receiver
      rw [hstart, if_neg (by simp), lasts_contact, if_neg hdue]
      refine ⟨⟨fun _ => hverdict, fun h => absurd h hdue⟩, .inl ⟨?_, rfl⟩⟩
      unfold Delivered.gaveUp
      split
      · next hcancelled =>
        dsimp only at hcancelled
        rw [hcancelled] at hverdict
        exact absurd hverdict verdict_ne_cancelled
      · rfl

/-! ## Who is called -/

/-- The targets that notes tell to have been called, in their order. -/
def called (notes : List Note) : List Target :=
  (notes.filter fun n => decide (n.occasion = .start)).map Note.target

theorem called_append (ns ms : List Note) : called (ns ++ ms) = called ns ++ called ms := by
  rw [called, List.filter_append, List.map_append]
  rfl

/-- Whether a receiver is a listener. -/
def Receiver.listens : Receiver → Bool
  | .listener _ _ => true
  | .routeTable => false

/-- Whether somebody listens at a target. -/
def Directory.hasListener (directory : Directory) (target : Target) : Bool :=
  (directory.get? target).any Receiver.listens

theorem called_opening (published : Option Snapshot) (timeout : Nat) (event : Event) (reads : Bool)
    (work : Course Unit) (target : Target) :
    called (notes event target
      (contact published timeout event (.listener reads work)).opening) = [target] := by
  obtain ⟨_ | d, result⟩ := work
  · cases reads <;> cases published <;> rfl
  · by_cases hle : d ≤ timeout
    · cases result <;> cases reads <;> cases published <;> simp [contact, called, notes, hle]
    · cases reads <;> cases published <;> simp [contact, called, notes, hle]

theorem called_closing (published : Option Snapshot) (timeout : Nat) (event : Event) (reads : Bool)
    (work : Course Unit) (target : Target) :
    called (notes event target
      (contact published timeout event (.listener reads work)).closing) = [] := by
  obtain ⟨_ | d, result⟩ := work
  · rfl
  · by_cases hle : d ≤ timeout
    · cases result <;> simp [contact, hle, called, notes]
    · simp [contact, hle, called, notes]

/-- In one delivery a receiver is called once, unless the caller has given up before. -/
theorem called_deliver (directory : Directory) (published : Option Snapshot) (timeout : Nat)
    (event : Event) (cancel : Cancel) (start : Nat) (target : Target) :
    called (deliver directory published timeout event cancel start target).notes =
      if cancel.before start = false ∧ directory.hasListener target = true then [target]
      else [] := by
  unfold deliver Directory.hasListener
  cases directory.get? target with
  | none => simp [called]
  | some receiver =>
    rw [Option.any_some]
    dsimp only
    cases cancel.before start with
    | true => simp [called]
    | false =>
      rw [if_neg Bool.false_ne_true]
      cases receiver with
      | routeTable => split <;> rfl
      | listener reads work =>
        have hlistens : (Receiver.listener reads work).listens = true := rfl
        simp only [hlistens, and_self, if_true]
        split
        · exact called_opening published timeout event reads work target
        · rw [called_append, called_opening, called_closing, List.append_nil]

/-! ## Turns -/

/-- The turn of one subscriber. -/
structure Turn where
  subscription : Subscription
  delivered : Delivered

/-- The turns of the deliveries of one event, of which the first begins at a moment. -/
def turns (directory : Directory) (published : Option Snapshot) (timeout : Nat) (event : Event)
    (cancel : Cancel) : Nat → List Subscription → List Turn
  | _, [] => []
  | start, s :: rest =>
    let d := deliver directory published timeout event cancel start s.target
    ⟨s, d⟩ :: turns directory published timeout event (cancel.afterGivingUp d.gaveUp) d.ends rest

/-- How long the deliveries to some subscribers take, one after another, when nobody interferes. -/
def dueAfter (directory : Directory) (timeout : Nat) (subscriptions : List Subscription) : Nat :=
  (subscriptions.map fun s => lasts directory timeout s.target).sum

/-- Every subscriber has one turn, in its order. -/
theorem map_subscription_turns (directory : Directory) (published : Option Snapshot)
    (timeout : Nat) (event : Event) (cancel : Cancel) (start : Nat)
    (subscriptions : List Subscription) :
    (turns directory published timeout event cancel start subscriptions).map Turn.subscription =
      subscriptions := by
  induction subscriptions generalizing cancel start with
  | nil => rfl
  | cons s rest ih => rw [turns, List.map_cons, ih]

/-- **What comes of every turn**: it is due when those before it and it have had their time, and is
settled by that moment. -/
theorem settled_of_turns {subscriptions : List Subscription} {before after : List Turn}
    {turn : Turn}
    (h : turns directory published timeout event cancel start subscriptions =
      before ++ turn :: after) :
    Settled timeout cancel
      (start + dueAfter directory timeout ((before ++ [turn]).map Turn.subscription))
      turn.subscription.target (directory.get? turn.subscription.target)
      turn.delivered.outcome := by
  induction subscriptions generalizing cancel start before with
  | nil => simp [turns] at h
  | cons s rest ih =>
    obtain ⟨hsettled, hrest⟩ :=
      deliver_cases directory published timeout event cancel start s.target
    rw [turns] at h
    cases before with
    | nil =>
      cases h
      simpa [dueAfter] using hsettled
    -- a later turn is due when the first one and those between have had their time
    | cons first before =>
      obtain ⟨hfirst, hlater⟩ := List.cons_eq_cons.mp h
      have hdue : start + dueAfter directory timeout
          ((first :: before ++ [turn]).map Turn.subscription) =
          start + lasts directory timeout s.target +
            dueAfter directory timeout ((before ++ [turn]).map Turn.subscription) := by
        simp [dueAfter, ← hfirst, Nat.add_assoc]
      rw [hdue]
      rcases hrest with ⟨hkept, hends⟩ | ⟨hgaveUp, hbefore⟩
      · rw [hkept, hends] at hlater
        exact ih hlater
      -- after one delivery has been given up, all others are given up
      · have hgivenUp := Cancel.before_mono (Nat.le_add_right _
          (dueAfter directory timeout ((before ++ [turn]).map Turn.subscription))) hbefore
        rw [hgaveUp] at hlater
        have hsettled := ih hlater
        refine ⟨fun hcases => ?_, fun _ hne => hsettled.cancelled rfl hne⟩
        rcases hcases with hfalse | habsent
        · rw [hgivenUp] at hfalse
          cases hfalse
        · exact hsettled.verdict (.inr habsent)

/-- Each subscriber is called at most once, and in its order. -/
theorem called_turns_sublist (directory : Directory) (published : Option Snapshot) (timeout : Nat)
    (event : Event) (cancel : Cancel) (start : Nat) (subscriptions : List Subscription) :
    (called ((turns directory published timeout event cancel start subscriptions).flatMap
      fun t => t.delivered.notes)).Sublist (subscriptions.map Subscription.target) := by
  induction subscriptions generalizing cancel start with
  | nil => exact List.Sublist.refl _
  | cons s rest ih =>
    rw [turns, List.flatMap_cons, called_append, called_deliver, List.map_cons]
    split
    · exact (ih _ _).cons_cons _
    · exact (ih _ _).cons _

/-- If nobody gives up, then everybody is called who listens. -/
theorem called_turns_never (directory : Directory) (published : Option Snapshot) (timeout : Nat)
    (event : Event) (start : Nat) (subscriptions : List Subscription) :
    called ((turns directory published timeout event .never start subscriptions).flatMap
      fun t => t.delivered.notes) =
      (subscriptions.map Subscription.target).filter directory.hasListener := by
  induction subscriptions generalizing start with
  | nil => rfl
  | cons s rest ih =>
    obtain ⟨-, ⟨hkept, -⟩ | ⟨-, hbefore⟩⟩ :=
      deliver_cases directory published timeout event .never start s.target
    · rw [turns, List.flatMap_cons, called_append, called_deliver, hkept, Cancel.afterGivingUp,
        if_neg Bool.false_ne_true, ih, List.map_cons, List.filter_cons]
      simp only [Cancel.before_never, true_and]
      split <;> rfl
    · cases hbefore

/-! ## Reports -/

/-- The report of turns: those that went well, and those that failed, in their order. -/
def Report.ofTurns (turns : List Turn) : Report where
  delivered := turns.filterMap fun t =>
    match t.delivered.outcome with
    | .ok () => some t.subscription.id
    | .error _ => none
  failed := turns.filterMap fun t =>
    match t.delivered.outcome with
    | .ok () => none
    | .error e => some (t.subscription.id, e)

theorem Report.ofTurns_cons (t : Turn) (rest : List Turn) :
    ofTurns (t :: rest) = (ofTurns rest).add t.subscription.id t.delivered.outcome := by
  unfold ofTurns add
  cases ht : t.delivered.outcome <;> simp [ht]

/-- The deliveries of an event are reported and noted turn by turn. -/
theorem deliverAll_eq (directory : Directory) (published : Option Snapshot) (timeout : Nat)
    (event : Event) (cancel : Cancel) (start : Nat) (subscriptions : List Subscription) :
    (deliverAll directory published timeout event cancel start subscriptions).1 =
        .ofTurns (turns directory published timeout event cancel start subscriptions) ∧
      (deliverAll directory published timeout event cancel start subscriptions).2.1 =
        (turns directory published timeout event cancel start subscriptions).flatMap
          fun t => t.delivered.notes := by
  induction subscriptions generalizing cancel start with
  | nil => exact ⟨rfl, rfl⟩
  | cons s rest ih =>
    obtain ⟨hreport, hnotes⟩ := ih
      (cancel.afterGivingUp
        (deliver directory published timeout event cancel start s.target).gaveUp)
      (deliver directory published timeout event cancel start s.target).ends
    rw [turns, Report.ofTurns_cons, List.flatMap_cons, ← hreport, ← hnotes]
    exact ⟨rfl, rfl⟩

namespace Report

variable {ts : List Turn} {t : Turn} {report : Report} {id : Uuid} {ids : List Uuid}

/-- What a report says of an identifier. -/
def Says (report : Report) (id : Uuid) : Except Error Unit → Prop
  | .ok () => id ∈ report.delivered
  | .error e => (id, e) ∈ report.failed

/-- A report has each of some identifiers in one of its two lists, and both keep the order. -/
structure Partitions (report : Report) (ids : List Uuid) : Prop where
  delivered : report.delivered.Sublist ids
  failed : (report.failed.map Prod.fst).Sublist ids
  complete : (report.delivered ++ report.failed.map Prod.fst).Perm ids

/-- A report says one thing of every identifier if they are distinct. -/
theorem Partitions.says_unique (h : report.Partitions ids) (hdistinct : ids.Nodup)
    (hreported : report.Says id outcome) (hreported' : report.Says id outcome') :
    outcome = outcome' := by
  obtain ⟨-, hfailed, hdisjoint⟩ := List.nodup_append.mp (h.complete.nodup_iff.mpr hdistinct)
  cases outcome with
  | ok =>
    cases outcome' with
    | ok => rfl
    | error e => exact absurd rfl (hdisjoint _ hreported _ (List.mem_map_of_mem hreported'))
  | error e =>
    cases outcome' with
    | ok => exact absurd rfl (hdisjoint _ hreported' _ (List.mem_map_of_mem hreported))
    | error e' =>
      cases List.inj_on_of_nodup_map hfailed hreported hreported' rfl
      rfl

theorem says_ofTurns (ht : t ∈ ts) : (ofTurns ts).Says t.subscription.id t.delivered.outcome := by
  cases houtcome : t.delivered.outcome with
  | ok => exact List.mem_filterMap.mpr ⟨t, ht, by rw [houtcome]⟩
  | error e => exact List.mem_filterMap.mpr ⟨t, ht, by rw [houtcome]⟩

/-- Every turn is in one of the two lists of the report. -/
theorem partitions_ofTurns (ts : List Turn) :
    (ofTurns ts).Partitions (ts.map fun t => t.subscription.id) := by
  induction ts with
  | nil => exact ⟨List.Sublist.refl _, List.Sublist.refl _, List.Perm.refl _⟩
  | cons t rest ih =>
    obtain ⟨hdelivered, hfailed, hcomplete⟩ := ih
    rw [ofTurns_cons, List.map_cons]
    cases t.delivered.outcome with
    | ok => exact ⟨hdelivered.cons_cons _, hfailed.cons _, hcomplete.cons _⟩
    | error e =>
      exact ⟨hdelivered.cons _, hfailed.cons_cons _, List.perm_middle.trans (hcomplete.cons _)⟩

end Report

end Signpost.Delivery
