import Signpost.Proofs.Admin.Publication
import Signpost.Proofs.Admin.Stage

/-!
# Runs and what is drawn in them

A run of a registry draws versions and identifiers of subscriptions from its supply: a version for a
new registry and for every command that changes rules, whether or not the change can be saved, and
an identifier for every subscription.  That nothing is drawn twice is said of a run and what has
been drawn in it.

## Main definitions

* `Drawn`: what has been drawn.
* `Desk.drawn`, `Desk.drawnByLoad`: what a command draws, and what loading a registry draws.
* `Desk.Amends`: what a command does in memory, together with what it draws.
* `Worker.Drawing`: the runs from a store, with restarts and with what they draw.

## Main results

* `Desk.amends`: every command does one of these things.
* `Worker.Drawing.run`, `Worker.Run.exists_drawing`: these are all runs from an empty store.
-/

namespace Signpost.Admin

/-- What has been drawn from the supply, the last one first. -/
structure Drawn where
  versions : List Version
  /-- The identifiers of subscriptions. -/
  ids : List Uuid

namespace Drawn

/-- Nothing. -/
def none : Drawn := ⟨[], []⟩

instance : Append Drawn := ⟨fun later earlier =>
  ⟨later.versions ++ earlier.versions, later.ids ++ earlier.ids⟩⟩

@[simp] theorem versions_append (later earlier : Drawn) :
    (later ++ earlier).versions = later.versions ++ earlier.versions := rfl

@[simp] theorem ids_append (later earlier : Drawn) :
    (later ++ earlier).ids = later.ids ++ earlier.ids := rfl

@[simp] theorem none_append (earlier : Drawn) : none ++ earlier = earlier := rfl

theorem append_assoc (a b c : Drawn) : a ++ b ++ c = a ++ (b ++ c) := by
  show Drawn.mk _ _ = Drawn.mk _ _
  simp only [versions_append, ids_append, List.append_assoc]

/-- If nothing is drawn twice, then neither was before. -/
theorem nodup_of_append {later earlier : Drawn} {versions : List Version}
    (h : ((later ++ earlier).versions ++ versions).Nodup) :
    (earlier.versions ++ versions).Nodup := by
  rw [versions_append, List.append_assoc] at h
  exact (List.nodup_append.mp h).2.1

end Drawn

/-- What a command draws. -/
def Desk.drawn (d : Desk) (command : Command) : Drawn where
  versions :=
    match d.attempt? command with
    | some ⟨.ok true, _, _⟩ => [(Version.fresh d.mint).1]
    | some ⟨.ok false, _, _⟩ | some ⟨.error _, _, _⟩ | none => []
  ids :=
    match command with
    | .subscribe _ => [d.mint.fresh.1]
    | .append _ | .pop _ | .unsubscribe _ => []

/-- What a command does in memory, together with what it draws. -/
inductive Desk.Amends (d : Desk) : Command → Progress Draft × Desk → Drawn → Prop
  /-- It changes nothing or is refused, and nothing is touched. -/
  | answered {command : Command} {outcome : Except Error Answer}
      (hsame : outcome = .ok (.changed false) ∨ ∃ e, outcome = .error (.redirection e)) :
      Amends d command (.answered outcome, d) .none
  /-- It changes the rules, whose version is drawn. -/
  | rules {command : Command} {a : Redirection.Attempt} (hattempt : d.attempt? command = some a)
      (hchanged : a.verdict = .ok true) :
      Amends d command (.pending (.routes d.registry.routes), d.made a) ⟨[a.after.version], []⟩
  /-- It adds a subscription, whose identifier is drawn. -/
  | subscribed (target : Delivery.Target) :
      Amends d (.subscribe target)
        (.pending (.subscription d.mint.fresh.1),
          { d.withRoster (d.registry.roster.insert ⟨d.mint.fresh.1, .routeChange, target⟩) with
            mint := d.mint.fresh.2 })
        ⟨[], [d.mint.fresh.1]⟩
  /-- It removes a subscription that is there. -/
  | unsubscribed {id : Uuid} {s : Subscription} (hget : d.registry.roster.get? id = some s) :
      Amends d (.unsubscribe id)
        (.pending (.removal s), d.withRoster (d.registry.roster.unsubscribe id).1) .none

theorem Desk.ids_drawn_of_attempt {d : Desk} {command : Command} {a : Redirection.Attempt}
    (h : d.attempt? command = some a) : (d.drawn command).ids = [] := by
  cases command with
  | subscribe target | unsubscribe id => cases h
  | append rules | pop ids => rfl

/-- A command that changes rules draws the version of the rules after it. -/
theorem Desk.drawn_of_changed {d : Desk} {command : Command} {a : Redirection.Attempt}
    (h : d.attempt? command = some a) (hchanged : a.verdict = .ok true) :
    d.drawn command = ⟨[a.after.version], []⟩ := by
  have hversion : a.after.version = (Version.fresh d.mint).1 :=
    (Prod.ext_iff.mp ((whole_attempt? h).changed hchanged)).1
  have hversions : (d.drawn command).versions = [(Version.fresh d.mint).1] := by
    obtain ⟨verdict, after, mint⟩ := a
    cases hchanged
    simp only [drawn, h]
  calc d.drawn command = ⟨(d.drawn command).versions, (d.drawn command).ids⟩ := rfl
    _ = ⟨[a.after.version], []⟩ := by rw [hversions, ids_drawn_of_attempt h, hversion]

/-- A command that could change rules and does not draws nothing. -/
theorem Desk.drawn_of_unchanged {d : Desk} {command : Command} {a : Redirection.Attempt}
    (h : d.attempt? command = some a) (hsame : a.verdict ≠ .ok true) :
    d.drawn command = .none := by
  have hversions : (d.drawn command).versions = [] := by
    obtain ⟨e | (_ | _), after, mint⟩ := a
    · simp only [drawn, h]
    · simp only [drawn, h]
    · exact absurd rfl hsame
  calc d.drawn command = ⟨(d.drawn command).versions, (d.drawn command).ids⟩ := rfl
    _ = .none := by rw [hversions, ids_drawn_of_attempt h, Drawn.none]

/-- Every command does one of these things in memory. -/
theorem Desk.amends (d : Desk) (command : Command) :
    d.Amends command (d.amend command) (d.drawn command) := by
  cases hattempt : d.attempt? command with
  | some a =>
    by_cases hchanged : a.verdict = .ok true
    · rw [amend_of_changed hattempt hchanged, drawn_of_changed hattempt hchanged]
      exact .rules hattempt hchanged
    · rw [amend_of_unchanged hattempt hchanged, drawn_of_unchanged hattempt hchanged]
      exact .answered (outcome_of_amend (amend_of_unchanged hattempt hchanged))
  | none =>
    cases command with
    | append rules | pop ids => cases hattempt
    | subscribe target => exact .subscribed target
    | unsubscribe id =>
      have hdrawn : d.drawn (.unsubscribe id) = .none := rfl
      rw [hdrawn]
      cases hget : d.registry.roster.get? id with
      | none =>
        rw [amend, hget]
        exact .answered (.inl rfl)
      | some s =>
        rw [amend, hget]
        exact .unsubscribed hget

/-- What loading a registry draws, which is a version if nothing has been stored. -/
def Desk.drawnByLoad (key : String) (store : StateStore) (mint : Mint) : Drawn :=
  match store.load key with
  | .ok none => ⟨[(Version.fresh mint).1], []⟩
  | .ok (some _) | .error _ => .none

namespace Worker

/-- What a move draws. -/
def System.drawn (s : System) : Move → Drawn
  | .take =>
    match s.queue with
    | (_, command) :: _ => s.desk.drawn command
    | [] => .none
  | .call _ _ | .enter _ | .cancel _ | .collect _ | .save | .publish | .contact | .finish
  | .interrupt | .reply | .stop | .shutDown | .abandon | .register _ _ | .unregister _
  | .setFailure _ | .refreshRoutes => .none

/-- Only commands that are taken draw anything. -/
theorem System.drawn_of_ne_take {s : System} {m : Move} (hm : m ≠ .take) : s.drawn m = .none := by
  cases m <;> first | rfl | exact absurd rfl hm

/-- A run of a registry that begins with some store, with what has been drawn in it: the system as
it is now, and as it was before, the last one first. -/
inductive Drawing (key : String) (origin : StateStore) : System → List System → Drawn → Prop
  | start {desk : Desk} {timeout : Nat} {mint : Mint} (directory : Delivery.Directory)
      (capacity : Nat) (hload : Desk.load key origin timeout mint = .ok desk) :
      Drawing key origin (start desk directory capacity) [] (Desk.drawnByLoad key origin mint)
  | move {s s' : System} {past : List System} {m : Move} {drawn : Drawn}
      (h : Drawing key origin s past drawn) (hstep : step s m = some s') :
      Drawing key origin s' (s :: past) (s.drawn m ++ drawn)
  | reload {s : System} {past : List System} {desk : Desk} {timeout : Nat} {mint : Mint}
      {drawn : Drawn} (h : Drawing key origin s past drawn) (directory : Delivery.Directory)
      (capacity : Nat) (hload : Desk.load key s.desk.store timeout mint = .ok desk) :
      Drawing key origin (start desk directory capacity) (s :: past)
        (Desk.drawnByLoad key s.desk.store mint ++ drawn)

variable {key : String} {origin : StateStore} {s s' : System} {past : List System} {drawn : Drawn}

theorem Drawing.run (h : Drawing key .empty s past drawn) : Run key s past := by
  induction h with
  | start directory capacity hload => exact .start directory capacity hload
  | move _ hstep ih => exact .move ih hstep
  | reload _ directory capacity hload ih => exact .reload ih directory capacity hload

/-- In every run from an empty store something has been drawn. -/
theorem Run.exists_drawing (h : Run key s past) : ∃ drawn, Drawing key .empty s past drawn := by
  induction h with
  | start directory capacity hload => exact ⟨_, .start directory capacity hload⟩
  | move _ hstep ih =>
    obtain ⟨drawn, ih⟩ := ih
    exact ⟨_, .move ih hstep⟩
  | reload _ directory capacity hload ih =>
    obtain ⟨drawn, ih⟩ := ih
    exact ⟨_, .reload ih directory capacity hload⟩

/-- What a list of moves draws, the last one first. -/
def drawnIn (s : System) : List Move → Drawn
  | [] => .none
  | m :: rest =>
    match step s m with
    | none => .none
    | some s' => drawnIn s' rest ++ s.drawn m

/-- A run goes on with the moves that are possible, and keeps its history. -/
theorem Drawing.replay (h : Drawing key origin s past drawn) (moves : List Move)
    (hmoves : replay s moves = some s') :
    ∃ past', Drawing key origin s' past' (drawnIn s moves ++ drawn) ∧
      s :: past ⊆ s' :: past' := by
  induction moves generalizing s past drawn with
  | nil =>
    cases hmoves
    exact ⟨past, h, List.Subset.refl _⟩
  | cons m rest ih =>
    obtain ⟨next, hstep, hrest⟩ := Option.bind_eq_some_iff.mp hmoves
    obtain ⟨past', hlast, hkept⟩ := ih (h.move hstep) hrest
    refine ⟨past', ?_, fun q hq => hkept (List.mem_cons_of_mem next hq)⟩
    rw [drawnIn, hstep]
    dsimp only
    rw [Drawn.append_assoc]
    exact hlast

end Worker

end Signpost.Admin
