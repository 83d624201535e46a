import Signpost.Proofs.Admin.Stage
import Signpost.Proofs.Subscription.History
import Signpost.Proofs.Subscription.Turns

/-!
# Telling subscribers of an event

An event is delivered to the subscribers that a roster lists, and its report has each of them once
as long as their identifiers are distinct.  They are for a roster into which nothing is restored
twice.  An identifier that is restored twice, however, is listed twice until it leaves, and then the
last of its entries is told of every event twice.

## Main results

* `Roster.reported_of_split`: what comes of a subscriber, whatever its place.
* `Roster.Run.isolated_fanout`: every subscriber is told once, and by itself.
* `Roster.Run.listed_as_restored`: identifiers that are restored twice are told twice.
-/

namespace Signpost

open Delivery (Directory Event Receiver Report Settled Target Verdict called dueAfter)
open Redirection (Snapshot)

namespace Roster

variable {r : Roster} {directory : Directory} {published : Option Snapshot} {event : Event}
  {cancel : Cancel} {s : Subscription} {before after : List Subscription}

/-! ## Subscribers of an event -/

/-- The report of an event has each subscriber, as often as it is listed. -/
theorem partitions_notify (r : Roster) (directory : Directory) (published : Option Snapshot)
    (event : Event) (cancel : Cancel) :
    (r.notify directory published event cancel).1.Partitions
      ((r.subscribers event.category).map Subscription.id) := by
  have hturns := Delivery.map_subscription_turns directory published r.timeout event cancel 0
    (r.subscribers event.category)
  have hpartitions := Report.partitions_ofTurns (Delivery.turns directory published r.timeout event
    cancel 0 (r.subscribers event.category))
  rw [← Function.comp_def, ← List.map_map, hturns] at hpartitions
  rw [notify, (Delivery.deliverAll_eq _ _ _ _ _ _ _).1]
  exact hpartitions

/-- What comes of a subscriber is settled by its own receiver, and by the moment at which those
before it and it have had their time. -/
theorem reported_of_split (h : r.subscribers event.category = before ++ s :: after)
    (directory : Directory) (published : Option Snapshot) (cancel : Cancel) :
    ∃ outcome, (r.notify directory published event cancel).1.Says s.id outcome ∧
      Settled r.timeout cancel (dueAfter directory r.timeout (before ++ [s])) s.target
        (directory.get? s.target) outcome := by
  obtain ⟨earlier, others, hsplit, hearlier, hothers⟩ := List.map_eq_append_iff.mp
    ((Delivery.map_subscription_turns directory published r.timeout event cancel 0 _).trans h)
  obtain ⟨turn, later, rfl, hturn, -⟩ := List.map_eq_cons_iff.mp hothers
  have hsettled := Delivery.settled_of_turns hsplit
  have hreported : (Report.ofTurns (earlier ++ turn :: later)).Says turn.subscription.id
      turn.delivered.outcome := Report.says_ofTurns (by simp)
  rw [List.map_append, List.map_singleton, hearlier, hturn, Nat.zero_add] at hsettled
  rw [← hsplit, hturn] at hreported
  refine ⟨turn.delivered.outcome, ?_, hsettled⟩
  rw [notify, (Delivery.deliverAll_eq _ _ _ _ _ _ _).1]
  exact hreported

/-- A listener is called as often as it is listed, at most, and in that order. -/
theorem called_notify_sublist (r : Roster) (directory : Directory) (published : Option Snapshot)
    (event : Event) (cancel : Cancel) :
    (called (r.notify directory published event cancel).2.1).Sublist
      ((r.subscribers event.category).map Subscription.target) := by
  rw [notify, (Delivery.deliverAll_eq _ _ _ _ _ _ _).2]
  exact Delivery.called_turns_sublist directory published r.timeout event cancel 0 _

/-- Everybody who listens is called as often as it is listed, if nobody gives up. -/
theorem called_notify_never (r : Roster) (directory : Directory) (published : Option Snapshot)
    (event : Event) :
    called (r.notify directory published event .never).2.1 =
      ((r.subscribers event.category).map Subscription.target).filter directory.hasListener := by
  rw [notify, (Delivery.deliverAll_eq _ _ _ _ _ _ _).2]
  exact Delivery.called_turns_never directory published r.timeout event 0 _

/-- Of distinct subscribers each is reported with what is settled for it, and nothing else. -/
theorem says_iff_settled (h : r.subscribers event.category = before ++ s :: after)
    (hdistinct : ((r.subscribers event.category).map Subscription.id).Nodup)
    (directory : Directory) (published : Option Snapshot) (cancel : Cancel) :
    ∃ settled, Settled r.timeout cancel (dueAfter directory r.timeout (before ++ [s])) s.target
        (directory.get? s.target) settled ∧
      ∀ outcome, (r.notify directory published event cancel).1.Says s.id outcome ↔
        outcome = settled := by
  obtain ⟨settled, hreported, hsettled⟩ := reported_of_split h directory published cancel
  refine ⟨settled, hsettled, fun outcome => ⟨fun hreported' => ?_, fun heq => heq ▸ hreported⟩⟩
  exact (partitions_notify r directory published event cancel).says_unique hdistinct hreported'
    hreported

/-- A subscriber whose time is over before the caller gives up is reported with its verdict. -/
theorem says_iff_verdict (h : r.subscribers event.category = before ++ s :: after)
    (hdistinct : ((r.subscribers event.category).map Subscription.id).Nodup)
    (directory : Directory) (published : Option Snapshot)
    (hdue : cancel.before (dueAfter directory r.timeout (before ++ [s])) = false ∨
      directory.get? s.target = none) (outcome : Except Delivery.Error Unit) :
    (r.notify directory published event cancel).1.Says s.id outcome ↔
      Verdict r.timeout s.target (directory.get? s.target) outcome := by
  obtain ⟨settled, hsettled, hreported⟩ := says_iff_settled h hdistinct directory published cancel
  have hverdict := hsettled.verdict hdue
  rw [hreported]
  exact ⟨fun heq => heq ▸ hverdict, fun hverdict' => hverdict'.unique hverdict⟩

end Roster

namespace Admin.Worker

/-- While subscribers are told of an event, no move changes the subscriptions. -/
theorem roster_of_telling {s s' : System} {m : Move} {ticket : Ticket}
    (hstage : s.phase.stage = .telling ticket) (hstep : step s m = some s') :
    s'.desk.registry.roster = s.desk.registry.roster := by
  cases advance_of_step hstep with
  | aside _ hdesk _ => rw [hdesk]
  | setFailure failure => rfl
  | take hphase _ | save hphase | publish hphase =>
    rw [hphase] at hstage
    cases hstage
  | reply _ => rfl

end Admin.Worker

/-! ## Distinct subscribers -/

namespace Roster

variable {r : Roster} {restored : List Subscription} {timeout : Nat} {past : List Change}

/-- **Every subscriber is told once, and by itself.**  Let nothing be restored or drawn twice.  The
subscribers are those who came and have not left, in the order in which they came.  Unless the
caller gives up, each of them is called once and in its order, and what is reported of it is the
verdict of its own receiver.  If the caller gives up, all who are not through by then and could have
been reached are reported as cancelled, and the others with their verdicts.  Nobody is missing from
the report or repeated in it, and the subscriptions stay as they are. -/
theorem Run.isolated_fanout (h : Run restored timeout r past)
    (hdistinct : (drawnIn past ++ restored.map Subscription.id).Nodup) :
    (∀ c, r.subscribers c =
        (entriesAfter restored past).filter (fun s => decide (s.category = c)) ∧
      ((r.subscribers c).map Subscription.id).Nodup) ∧
    (∀ (directory : Directory) (published : Option Snapshot) (event : Event),
      called (r.notify directory published event .never).2.1 =
          ((r.subscribers event.category).map Subscription.target).filter directory.hasListener ∧
        ∀ s ∈ r.subscribers event.category,
          (∀ outcome, (r.notify directory published event .never).1.Says s.id outcome ↔
            Verdict timeout s.target (directory.get? s.target) outcome) ∧
          (s.id ∈ (r.notify directory published event .never).1.delivered ↔
            directory.get? s.target = some .routeTable ∨
              ∃ reads work d, directory.get? s.target = some (.listener reads work) ∧
                work.Answers (some timeout) d ())) ∧
    (∀ (directory : Directory) (published : Option Snapshot) (event : Event) (cancel : Cancel),
      (r.notify directory published event cancel).1.Partitions
          ((r.subscribers event.category).map Subscription.id) ∧
        (called (r.notify directory published event cancel).2.1).Sublist
          ((r.subscribers event.category).map Subscription.target) ∧
        ∀ before s after, r.subscribers event.category = before ++ s :: after →
          (cancel.before (dueAfter directory timeout (before ++ [s])) = true →
            directory.get? s.target ≠ none →
            (s.id, .cancelled) ∈ (r.notify directory published event cancel).1.failed) ∧
          (cancel.before (dueAfter directory timeout (before ++ [s])) = false ∨
            directory.get? s.target = none →
            ∀ outcome, (r.notify directory published event cancel).1.Says s.id outcome ↔
              Verdict timeout s.target (directory.get? s.target) outcome)) ∧
    ∀ (s s' : Admin.Worker.System) (m : Admin.Worker.Move) (ticket : Admin.Worker.Ticket),
      s.phase.stage = .telling ticket → Admin.Worker.step s m = some s' →
        s'.desk.registry.roster = s.desk.registry.roster := by
  have hnodup := nodup_entriesAfter hdistinct
  have hsubscribers := h.carries.subscribers_eq hnodup
  have hids : ∀ c, ((r.subscribers c).map Subscription.id).Nodup := fun c => by
    rw [hsubscribers]
    exact hnodup
  obtain rfl := h.timeout_eq
  refine ⟨fun c => ⟨?_, hids c⟩, ?_, ?_, fun _ _ _ _ => Admin.Worker.roster_of_telling⟩
  -- there is one category
  · rw [hsubscribers, eq_comm, List.filter_eq_self]
    intro s _
    cases s.category
    cases c
    rfl
  -- nobody gives up: whatever the place of a subscriber, its time is over before that
  · intro directory published event
    refine ⟨called_notify_never r directory published event, fun s hs => ?_⟩
    obtain ⟨before, after, hsplit⟩ := List.append_of_mem hs
    have hreported := says_iff_verdict hsplit (hids _) directory published
      (.inl (Cancel.before_never _))
    exact ⟨hreported, (hreported (.ok ())).trans Delivery.verdict_ok_iff⟩
  · intro directory published event cancel
    refine ⟨partitions_notify r directory published event cancel,
      called_notify_sublist r directory published event cancel, fun before s after hsplit => ?_⟩
    refine ⟨fun hdue hthere => ?_, says_iff_verdict hsplit (hids _) directory published⟩
    obtain ⟨settled, hsettled, hreported⟩ :=
      says_iff_settled hsplit (hids _) directory published cancel
    exact (hreported (.error .cancelled)).mpr (hsettled.cancelled hdue hthere).symm

/-- Three subscriptions that have been stored. -/
def storedThree : List Subscription :=
  [⟨.ofNat 1, .routeChange, .service "lost"⟩, ⟨.ofNat 2, .routeChange, .service "stuck"⟩,
    ⟨.ofNat 3, .routeChange, .service "broken"⟩]

/-- The roster with these and a fourth one. -/
def storedThreeAndOne : Roster :=
  ((restore storedThree 2000).subscribe .routeChange (.service "prompt") default).1.1

/-- Three of the four services are there. -/
def threeReceivers : Directory :=
  .ofList [(.service "stuck", .listener false ⟨none, .ok ()⟩),
    (.service "broken", .listener false (.prompt (.error (.root "out of order")))),
    (.service "prompt", .listener false (.prompt (.ok ())))]

/-- The fourth service is told although the first is missing, the second takes for ever, and the
third fails. -/
theorem isolated_fanout_threeReceivers :
    let report := (storedThreeAndOne.notify threeReceivers none ⟨.routeChange, ⟨"v1"⟩⟩ .never).1
    (Mint.fresh default).1 ∈ report.delivered ∧
      (.ofNat 1, .unresolved (.service "lost")) ∈ report.failed ∧
      (.ofNat 2, .timedOut 2000) ∈ report.failed ∧
      (.ofNat 3, .receiver "out of order") ∈ report.failed ∧
      (.ofNat 2, .cancelled) ∈
        (storedThreeAndOne.notify threeReceivers none ⟨.routeChange, ⟨"v1"⟩⟩
          (.after 50)).1.failed := by
  have hrun : Run storedThree 2000 storedThreeAndOne
      [.joined ⟨(Mint.fresh default).1, .routeChange, .service "prompt"⟩] :=
    .subscribe .restore .routeChange (.service "prompt") default
  obtain ⟨-, hnever, hcancel, -⟩ := hrun.isolated_fanout (by decide)
  obtain ⟨-, hall⟩ := hnever threeReceivers none ⟨.routeChange, ⟨"v1"⟩⟩
  obtain ⟨-, -, hsplit⟩ := hcancel threeReceivers none ⟨.routeChange, ⟨"v1"⟩⟩ (.after 50)
  refine ⟨?_, ?_, ?_, ?_, ?_⟩
  · exact ((hall ⟨_, .routeChange, .service "prompt"⟩ (by decide)).1 (.ok ())).mpr
      (.accepted (Course.answers_prompt _ _))
  · exact ((hall ⟨_, .routeChange, .service "lost"⟩ (by decide)).1 (.error _)).mpr .unresolved
  · exact ((hall ⟨_, .routeChange, .service "stuck"⟩ (by decide)).1 (.error _)).mpr (.late nofun)
  · have hfailed : Verdict 2000 (.service "broken") (threeReceivers.get? (.service "broken"))
        (.error (.receiver (Failure.root "out of order").chain)) :=
      .failed ⟨rfl, fun l _ => Nat.zero_le l⟩ rfl
    rw [Failure.chain_root] at hfailed
    exact ((hall ⟨_, .routeChange, .service "broken"⟩ (by decide)).1 (.error _)).mpr hfailed
  -- the caller gives up while the second service is called
  · exact (hsplit [⟨_, .routeChange, .service "lost"⟩] ⟨_, .routeChange, .service "stuck"⟩ _
      rfl).1 rfl nofun

/-! ## Identifiers that are restored twice -/

/-- **An identifier that is restored twice is told twice.**  Let what is drawn be new and distinct.
An identifier is listed as often as it was restored, until it leaves; one that was drawn is listed
at most once.  So the subscribers are distinct exactly if every identifier that was restored twice
has left.  What is listed under an identifier is the last of its entries each time, and an event is
reported, and told to a listener, as often as it is listed. -/
theorem Run.listed_as_restored (h : Run restored timeout r past)
    (hfresh : (drawnIn past).Nodup)
    (hnew : ∀ id ∈ drawnIn past, id ∉ restored.map Subscription.id) :
    (∀ c, r.all = r.subscribers c ∧ (∀ s ∈ r.subscribers c, r.get? s.id = some s) ∧
      (∀ id ∈ restored.map Subscription.id, ((r.subscribers c).map Subscription.id).count id =
        if .left id ∈ past then 0 else (restored.map Subscription.id).count id) ∧
      (∀ id ∉ restored.map Subscription.id,
        ((r.subscribers c).map Subscription.id).count id ≤ 1) ∧
      (((r.subscribers c).map Subscription.id).Nodup ↔
        ∀ id, 1 < (restored.map Subscription.id).count id → .left id ∈ past)) ∧
    ∀ (directory : Directory) (published : Option Snapshot) (event : Event),
      (∀ cancel, ((r.notify directory published event cancel).1.delivered ++
          (r.notify directory published event cancel).1.failed.map Prod.fst).Perm
        ((r.subscribers event.category).map Subscription.id)) ∧
      called (r.notify directory published event .never).2.1 =
        ((r.subscribers event.category).map Subscription.target).filter
          directory.hasListener := by
  have hids := h.carries.map_id_subscribers
  have hrestored : ∀ c, ∀ id ∈ restored.map Subscription.id,
      ((r.subscribers c).map Subscription.id).count id =
        if .left id ∈ past then 0 else (restored.map Subscription.id).count id := by
    intro c id hid
    rw [hids, count_entriesAfter fun hdrawn => hnew id hdrawn hid]
  have hothers : ∀ c, ∀ id ∉ restored.map Subscription.id,
      ((r.subscribers c).map Subscription.id).count id ≤ 1 := by
    intro c id hid
    have hle := count_entriesAfter_le restored past id
    have hdrawn := List.nodup_iff_count_le_one.mp hfresh id
    rw [List.count_eq_zero_of_not_mem hid] at hle
    rw [hids]
    omega
  refine ⟨fun c => ⟨r.all_eq_subscribers c, fun s hs => ?_, hrestored c, hothers c, ?_⟩,
    fun directory published event => ⟨fun cancel => ?_,
      called_notify_never r directory published event⟩⟩
  · obtain ⟨id, -, hget⟩ := List.mem_filterMap.mp hs
    rw [h.carries.id_of_get? hget, hget]
  -- an identifier that is listed twice was restored twice, for one that was drawn is listed once
  · rw [List.nodup_iff_count_le_one]
    constructor
    · intro hone id htwice
      have hcount := hrestored c id (List.count_pos_iff.mp (Nat.zero_lt_of_lt htwice))
      by_contra hstays
      rw [if_neg hstays] at hcount
      exact absurd (hcount ▸ hone id) (Nat.not_le_of_gt htwice)
    · intro hgone id
      by_cases hid : id ∈ restored.map Subscription.id
      · rw [hrestored c id hid]
        split
        · exact Nat.zero_le 1
        · next hstays => exact Nat.le_of_not_gt fun htwice => hstays (hgone id htwice)
      · exact hothers c id hid
  · exact (partitions_notify r directory published event cancel).complete

/-- One subscription that has been stored twice. -/
def storedTwice : List Subscription :=
  [⟨.ofNat 1, .routeChange, .service "prompt"⟩, ⟨.ofNat 1, .routeChange, .service "prompt"⟩]

/-- The service is told twice until it leaves. -/
theorem listed_as_restored_storedTwice :
    (((restore storedTwice 2000).subscribers .routeChange).map Subscription.id).count (.ofNat 1) =
        2 ∧
      ((((restore storedTwice 2000).unsubscribe (.ofNat 1)).1.subscribers .routeChange).map
        Subscription.id).Nodup := by
  have hrun : Run storedTwice 2000 (restore storedTwice 2000) [] := .restore
  have hcount := ((hrun.listed_as_restored (by decide) (by decide)).1 .routeChange).2.2.1
  have hdistinct := (((hrun.unsubscribe (.ofNat 1)).listed_as_restored (by decide) (by decide)).1
    .routeChange).2.2.2.2
  refine ⟨hcount (.ofNat 1) (by decide), hdistinct.mpr fun id htwice => ?_⟩
  have hid : id ∈ storedTwice.map Subscription.id :=
    List.count_pos_iff.mp (Nat.zero_lt_of_lt htwice)
  have heq : id = .ofNat 1 := by simpa [storedTwice] using hid
  exact heq ▸ List.mem_cons_self

/-- **What is restored need not be told once**: a service that is restored twice under one
identifier is called twice for one event. -/
theorem restored_twice_told_twice :
    ∃ restored r past, Run restored 2000 r past ∧ ¬(r.all.map Subscription.id).Nodup ∧
      ¬((r.subscribers .routeChange).map Subscription.id).Nodup ∧
      ∃ s, r.get? s.id = some s ∧ called (r.notify threeReceivers none ⟨.routeChange, ⟨"v1"⟩⟩
        .never).2.1 = [s.target, s.target] :=
  ⟨storedTwice, _, _, .restore, by decide, by decide, ⟨.ofNat 1, .routeChange, .service "prompt"⟩,
    rfl, by decide⟩

end Roster

end Signpost
