import Signpost.Proofs.Routing.LookUps

/-!
# The mirror of a subscribed table

A route table that is registered under a subscribed target is told of every change of the rules
before the change is answered.  So when the worker answers that rules have been changed, the table
has the changed rules, whatever became of the other subscribers; and when it answers anything else,
nobody has told the table anything.  A caller that stops waiting learns nothing of this: its command
goes on, and may still change the rules and with them the table.

## Main definitions

* `Worker.Served`: the worker has taken a command and had it in hand ever since.
* `Worker.System.Attends`: the route table is registered under a subscribed target, and the worker
  has not been told to stop.
* `Worker.Bearing`: what a command in hand, or just answered, has meant to the table.

## Main results

* `Worker.telling_of_step`: all that can happen while subscribers are being told.
* `Worker.Served.bearing`: a command in hand stands somewhere on its way.
* `Worker.Served.mirror_keeps_up`: the table never lags behind an answer of the worker.
* `Worker.cancelled_change_is_mirrored`: it may be ahead of what a caller is told that gave up.
-/

namespace Signpost.Admin

open Redirection (CallSite destination)

/-- Rules are changed by the commands that may change them, and by no others. -/
theorem Desk.Amends.concernsRules {d d' : Desk} {command : Command} {draft : Draft} {drawn : Drawn}
    (h : d.Amends command (.pending draft, d') drawn) :
    draft.before?.isSome = command.concernsRules := by
  cases h with
  | rules hattempt hchanged =>
    cases command with
    | append rules | pop ids => rfl
    | subscribe target | unsubscribe id => cases hattempt
  | subscribed target => rfl
  | unsubscribed hget => rfl

namespace Worker

variable {key : String} {origin : StateStore} {s s' first : System} {m : Move} {drawn : Drawn}
  {ticket : Ticket} {command : Command} {polled : Bool} {past between : List System}
  {target : Delivery.Target}

/-! ## While subscribers are being told -/

namespace Phase

/-- The subscribers that are still to be turned to. -/
def rest : Phase → List Subscription
  | .delivering _ _ rest | .contacting _ _ _ _ rest => rest
  | .idle | .stopped | .saving _ _ | .publishing _ => []

end Phase

/-- What can happen while subscribers are being told of a change. -/
inductive Telling (s : System) (ticket : Ticket) : Move → System → Prop
  /-- All have been told, and the command is answered. -/
  | answered {event : Delivery.Event} (hphase : s.phase = .delivering ticket event []) :
      Telling s ticket .reply (s.answer ticket (.ok (.changed true)))
  /-- The worker turns to the next one. -/
  | turned {event : Delivery.Event} {next : Subscription} {rest : List Subscription}
      (hphase : s.phase = .delivering ticket event (next :: rest)) :
      Telling s ticket .contact (s.turnTo ticket event next.target rest)
  /-- The same ones are still to be told. -/
  | aside {m : Move} {s' : System} (hstage : s'.phase.stage = .telling ticket)
      (hevent : s'.phase.event? = s.phase.event?) (hrest : s'.phase.rest = s.phase.rest)
      (hm : m ≠ .publish) : Telling s ticket m s'

theorem telling_of_step (hstage : s.phase.stage = .telling ticket) (h : step s m = some s') :
    Telling s ticket m s' := by
  by_cases hspares : m.sparesWorker = true
  -- a move of a caller or of the surroundings leaves the phase alone
  · obtain ⟨hphase, -, -⟩ := step_of_sparesWorker hspares h
    exact .aside (by rw [hphase, hstage]) (by rw [hphase]) (by rw [hphase])
      (by rintro rfl; cases hspares)
  cases m <;> try exact absurd rfl hspares
  all_goals simp only [step] at h
  case contact =>
    split at h
    · next hphase =>
      rw [hphase] at hstage
      cases hstage
      cases h
      exact .turned hphase
    · cases h
  case reply =>
    split at h
    · next hphase =>
      rw [hphase] at hstage
      cases hstage
      cases h
      exact .answered hphase
    · cases h
  case setFailure failure =>
    cases h
    exact .aside hstage rfl rfl (by rintro ⟨⟩)
  case finish =>
    split at h
    · next hphase =>
      rw [hphase] at hstage
      cases hstage
      cases h
      exact .aside rfl (by rw [hphase]; rfl) (by rw [hphase]; rfl) (by rintro ⟨⟩)
    · cases h
  case take =>
    split at h
    · next hphase _ =>
      rw [hphase] at hstage
      cases hstage
    · cases h
  case interrupt =>
    split at h
    · next hphase =>
      split at h <;> cases h
      rw [hphase] at hstage
      cases hstage
      exact .aside rfl (by rw [hphase]; rfl) (by rw [hphase]; rfl) (by rintro ⟨⟩)
    · cases h
  -- the other moves belong to other stages
  all_goals
    split at h
    · next hphase =>
      rw [hphase] at hstage
      cases hstage
    · cases h

/-- Whoever the worker turns to, it goes on with the same event and the subscribers after that. -/
theorem phase_turnTo (s : System) (ticket : Ticket) (event : Delivery.Event)
    (target : Delivery.Target) (rest : List Subscription) :
    (s.turnTo ticket event target rest).phase.stage = .telling ticket ∧
      (s.turnTo ticket event target rest).phase.event? = some event ∧
      (s.turnTo ticket event target rest).phase.rest = rest := by
  unfold System.turnTo
  split
  · exact ⟨rfl, rfl, rfl⟩
  · split <;> exact ⟨rfl, rfl, rfl⟩

/-- The route table is registered under a subscribed target, and the worker has not been told to
stop. -/
structure System.Attends (target : Delivery.Target) (s : System) : Prop where
  registered : s.directory.get? target = some .routeTable
  subscribed : ∃ sub ∈ s.desk.registry.roster.subscribers .routeChange, sub.target = target
  running : s.shutdown = false

/-- A table that is told of what is published mirrors it then. -/
theorem inSync_turnTo {event : Delivery.Event} (hattends : s.Attends target)
    (hevent : event.version = s.published.version)
    (hknown : s.routes.version = some s.published.version → s.InSync)
    (rest : List Subscription) : (s.turnTo ticket event target rest).InSync := by
  have htold : (s.routes.receive event.version s.published).version = some s.published.version ∧
      (s.routes.receive event.version s.published).Mirrors s.published.rules := by
    unfold RouteTable.receive
    rw [hevent]
    split
    · next hversion =>
      have hsync := hknown hversion
      exact ⟨hsync.version, hsync.mirrors⟩
    · next hversion =>
      rw [RouteTable.refresh_of_ne hversion]
      exact ⟨rfl, s.routes.mirrors_apply s.published⟩
  unfold System.turnTo
  simp only [hattends.registered, hattends.running]
  exact ⟨htold.1, htold.2⟩

/-! ## Commands in hand -/

/-- Whether the route table takes up what is published without being told. -/
def Move.polls : Move → Bool
  | .refreshRoutes => true
  | _ => false

/-- The worker has taken a command in some state and had it in hand in all states since, of which
those before the present one are listed, the last one first; with whether the route table has polled
since. -/
inductive Served (ticket : Ticket) (command : Command) (first : System) :
    Bool → List System → System → Prop
  | take {s : System} {queue : List (Ticket × Command)}
      (hqueue : first.queue = (ticket, command) :: queue) (hstep : step first .take = some s) :
      Served ticket command first false [first] s
  | move {s s' : System} {polled : Bool} {between : List System} {m : Move}
      (h : Served ticket command first polled between s)
      (hhand : s.phase.stage.ticket? = some ticket) (hstep : step s m = some s') :
      Served ticket command first (polled || m.polls) (s :: between) s'
  | lookUp {s : System} {polled : Bool} {between : List System}
      (h : Served ticket command first polled between s)
      (hhand : s.phase.stage.ticket? = some ticket) (capability : String) (site : CallSite) :
      Served ticket command first polled (s :: between) (s.lookUp capability site)

theorem ne_take_of_hand (hhand : s.phase.stage.ticket? = some ticket) (hstep : step s m = some s') :
    m ≠ .take := by
  rintro rfl
  simp only [step] at hstep
  split at hstep
  · next hphase _ =>
    rw [hphase] at hhand
    cases hhand
  · cases hstep

/-- Nothing is drawn while a command is in hand. -/
theorem Served.routing (h : Served ticket command first polled between s)
    (hfirst : Routing key origin first past drawn) :
    ∃ past', Routing key origin s past' (first.drawn .take ++ drawn) := by
  induction h with
  | take hqueue hstep => exact ⟨_, hfirst.move hstep⟩
  | move h hhand hstep ih =>
    obtain ⟨past', hrun⟩ := ih
    have hnext := hrun.move hstep
    rw [System.drawn_of_ne_take (ne_take_of_hand hhand hstep), Drawn.none_append] at hnext
    exact ⟨_, hnext⟩
  | lookUp h hhand capability site ih =>
    obtain ⟨past', hrun⟩ := ih
    exact ⟨_, hrun.lookUp capability site⟩

/-- What is published is as it was, and the table has the rules that it had, or, if it has polled,
those that it gets by that. -/
structure Untouched (first : System) (polled : Bool) (s : System) : Prop where
  published : s.published = first.published
  routes : s.routes.Shows first.routes ∨
    (polled = true ∧ s.routes.Shows (first.routes.refresh first.published).1)

namespace Untouched

theorem refl (s : System) : Untouched s false s := ⟨rfl, .inl (.refl _)⟩

theorem step (h : Untouched first polled s) (hstep : step s m = some s') (hm : m ≠ .publish)
    (htelling : ∀ ticket, s.phase.stage ≠ .telling ticket) :
    Untouched first (polled || m.polls) s' := by
  refine ⟨(published_of_step hm hstep).trans h.published, ?_⟩
  rcases routes_of_step hstep with heq | ⟨rfl | ⟨ticket, htold⟩, heq⟩
  · rw [heq]
    exact h.routes.imp_right fun ⟨hpolled, hshows⟩ => ⟨by rw [hpolled]; rfl, hshows⟩
  · refine .inr ⟨Bool.or_true _, ?_⟩
    rw [heq, h.published]
    rcases h.routes with hsame | ⟨-, hrefreshed⟩
    · exact hsame.refresh _
    -- who has been refreshed already has the version
    · have hversion := hrefreshed.version.trans (RouteTable.version_refresh _ _)
      rwa [RouteTable.refresh_of_version hversion]
  · exact absurd htold (htelling ticket)

theorem lookUp (h : Untouched first polled s) (capability : String) (site : CallSite) :
    Untouched first polled (s.lookUp capability site) := by
  have hshows := s.routes.shows_resolve capability site
  exact ⟨h.published, h.routes.imp hshows.trans fun ⟨hpolled, h⟩ => ⟨hpolled, hshows.trans h⟩⟩

end Untouched

/-- What a command that the worker has in hand, or has just answered, has meant to the route table.
Where the command has changed rules, the table is or will be told, if it is attended to in the
states between. -/
inductive Bearing (ticket : Ticket) (command : Command) (first : System) (polled : Bool)
    (between : List System) (s : System) : Prop
  | saving {draft : Draft} (hstage : s.phase.stage = .saving ticket draft)
      (hdraft : draft.before?.isSome = command.concernsRules) (hsame : Untouched first polled s)
  | publishing (hstage : s.phase.stage = .publishing ticket)
      (hrules : command.concernsRules = true) (hsame : Untouched first polled s)
  | telling (hstage : s.phase.stage = .telling ticket) (hrules : command.concernsRules = true)
      (hevent : ∀ event, s.phase.event? = some event → event.version = s.published.version)
      (htold : ∀ target, (∀ q ∈ between, q.Attends target) →
        (∃ sub ∈ s.phase.rest, sub.target = target) ∨ s.InSync)
  /-- It is answered that rules have been changed. -/
  | changed (hstage : s.phase.stage = .resting) (hrules : command.concernsRules = true)
      (hanswer : s.answers.get? ticket = some (.ok (.changed true)))
      (htold : ∀ target, (∀ q ∈ between, q.Attends target) → s.InSync)
  /-- It is answered anything else. -/
  | spared {outcome : Except Error Answer} (hstage : s.phase.stage = .resting)
      (hanswer : s.answers.get? ticket = some outcome)
      (hother : command.concernsRules = true → outcome ≠ .ok (.changed true))
      (hsame : Untouched first polled s)

theorem get?_answer (s : System) (ticket : Ticket) (outcome : Except Error Answer) :
    (s.answer ticket outcome).answers.get? ticket = some outcome := by
  rw [System.answer, Dict.get?_put, if_pos rfl]

namespace Bearing

/-- A command that is taken is answered at once if it changes nothing. -/
theorem take {queue : List (Ticket × Command)} (hqueue : first.queue = (ticket, command) :: queue)
    (hstep : step first .take = some s) : Bearing ticket command first false [first] s := by
  cases advance_of_step hstep with
  | aside hpart => cases hpart
  | @take ticket' command' rest hidle hqueue' =>
    have hsame : Untouched first false _ :=
      (Untouched.refl first).step hstep nofun (by rw [hidle]; nofun)
    cases hqueue.symm.trans hqueue'
    rcases System.serve_cases { first with queue } ticket command with
      ⟨outcome, hamend, heq⟩ | ⟨draft, desk, hamend, heq⟩ <;> rw [heq] at hsame ⊢
    · refine .spared rfl (get?_answer _ _ _) ?_ hsame
      rintro - rfl
      rcases Desk.outcome_of_amend hamend with h | ⟨e, h⟩ <;> cases h
    · have hamends := Desk.amends first.desk command
      have hamend' : first.desk.amend command = (.pending draft, desk) := hamend
      rw [hamend'] at hamends
      exact .saving rfl hamends.concernsRules hsame

/-- A change is saved, or taken back. -/
theorem save {draft : Draft} (hphase : s.phase = .saving ticket draft)
    (hdraft : draft.before?.isSome = command.concernsRules)
    (hsame : Untouched first polled (s.save ticket draft)) :
    Bearing ticket command first polled between (s.save ticket draft) := by
  rcases s.save_cases ticket draft with ⟨e, -, heq⟩ |
    ⟨store, -, ⟨answer, hbefore, -, heq⟩ | ⟨⟨before, rfl⟩, heq⟩⟩ <;> rw [heq] at hsame ⊢
  · exact .spared rfl (get?_answer _ _ _) nofun hsame
  · refine .spared rfl (get?_answer _ _ _) (fun hrules => ?_) hsame
    rw [hrules, hbefore] at hdraft
    cases hdraft
  · exact .publishing rfl hdraft.symm hsame

/-- Rules are published, and all subscribers are still to be told. -/
theorem publish (hrules : command.concernsRules = true) :
    Bearing ticket command first polled (s :: between) (s.publish ticket) := by
  refine .telling rfl hrules ?_ fun target hattended => ?_
  · rintro event ⟨⟩
    rfl
  · exact .inl (hattended s List.mem_cons_self).subscribed

/-- The worker turns to the next subscriber, if there is one. -/
theorem tell (hhand : s.phase.stage = .telling ticket) (hrules : command.concernsRules = true)
    (hevent : ∀ event, s.phase.event? = some event → event.version = s.published.version)
    (htold : ∀ target, (∀ q ∈ between, q.Attends target) →
      (∃ sub ∈ s.phase.rest, sub.target = target) ∨ s.InSync)
    (hknown : s.routes.version = some s.published.version → s.InSync)
    (hstep : step s m = some s') : Bearing ticket command first polled (s :: between) s' := by
  have hearlier : ∀ {target}, (∀ q ∈ s :: between, q.Attends target) →
      ∀ q ∈ between, q.Attends target := fun h q hq => h q (List.mem_cons_of_mem s hq)
  cases telling_of_step hhand hstep with
  | @answered event hphase =>
    refine .changed rfl hrules (get?_answer _ _ _) fun target hattended => ?_
    -- nobody is left to be told, so the table has been
    rcases htold target (hearlier hattended) with ⟨sub, hsub, -⟩ | hsync
    · rw [hphase] at hsub
      cases hsub
    · exact ⟨hsync.version, hsync.mirrors⟩
  | @turned event next rest hphase =>
    obtain ⟨hstage', hevent', hrest'⟩ := phase_turnTo s ticket event next.target rest
    have hversion : event.version = s.published.version := hevent event (by rw [hphase]; rfl)
    have hpublished : (s.turnTo ticket event next.target rest).published = s.published :=
      published_of_step (show Move.contact ≠ .publish by nofun) hstep
    refine .telling hstage' hrules ?_ fun target hattended => ?_
    · intro event' heq
      rw [hevent'] at heq
      cases heq
      rw [hversion, hpublished]
    · rw [hrest']
      rcases htold target (hearlier hattended) with ⟨sub, hsub, hsubtarget⟩ | hsync
      · rw [hphase] at hsub
        rcases List.mem_cons.mp hsub with rfl | hsub
        -- it is the table's turn
        · subst hsubtarget
          exact .inr (inSync_turnTo (hattended s List.mem_cons_self) hversion hknown rest)
        · exact .inl ⟨sub, hsub, hsubtarget⟩
      · exact .inr (hsync.step hstep (show Move.contact ≠ .publish by nofun))
  | aside hstage' hevent' hrest' hm =>
    refine .telling hstage' hrules ?_ fun target hattended => ?_
    · intro event heq
      rw [published_of_step hm hstep]
      exact hevent event (hevent' ▸ heq)
    · rw [hrest']
      exact (htold target (hearlier hattended)).imp_right fun hsync => hsync.step hstep hm

/-- Every move of the worker, its callers and the surroundings takes a command in hand further on its
way, or leaves it where it is. -/
theorem step (h : Bearing ticket command first polled between s)
    (hhand : s.phase.stage.ticket? = some ticket)
    (hknown : s.routes.version = some s.published.version → s.InSync)
    (hstep : step s m = some s') :
    Bearing ticket command first (polled || m.polls) (s :: between) s' := by
  cases h with
  | saving hstage hdraft hsame =>
    have hquiet : ∀ ticket, s.phase.stage ≠ .telling ticket := by rw [hstage]; nofun
    cases advance_of_step hstep with
    | aside hpart hdesk hstage' =>
      refine .saving (hstage'.trans hstage) hdraft (hsame.step hstep ?_ hquiet)
      rintro rfl
      cases hpart
    | setFailure failure => exact .saving hstage hdraft (hsame.step hstep nofun hquiet)
    | save hphase =>
      rw [hphase] at hstage
      cases hstage
      exact .save hphase hdraft (hsame.step hstep nofun hquiet)
    | take hphase | publish hphase | reply hphase =>
      rw [hphase] at hstage
      cases hstage
  | publishing hstage hrules hsame =>
    have hquiet : ∀ ticket, s.phase.stage ≠ .telling ticket := by rw [hstage]; nofun
    cases advance_of_step hstep with
    | aside hpart hdesk hstage' =>
      refine .publishing (hstage'.trans hstage) hrules (hsame.step hstep ?_ hquiet)
      rintro rfl
      cases hpart
    | setFailure failure => exact .publishing hstage hrules (hsame.step hstep nofun hquiet)
    | publish hphase =>
      rw [hphase] at hstage
      cases hstage
      exact .publish hrules
    | take hphase | save hphase | reply hphase =>
      rw [hphase] at hstage
      cases hstage
  | telling hstage hrules hevent htold => exact .tell hstage hrules hevent htold hknown hstep
  -- a command that has been answered is not in hand
  | changed hstage | spared hstage =>
    rw [hstage] at hhand
    cases hhand

theorem lookUp (h : Bearing ticket command first polled between s)
    (hhand : s.phase.stage.ticket? = some ticket) (capability : String) (site : CallSite) :
    Bearing ticket command first polled (s :: between) (s.lookUp capability site) := by
  cases h with
  | saving hstage hdraft hsame => exact .saving hstage hdraft (hsame.lookUp capability site)
  | publishing hstage hrules hsame => exact .publishing hstage hrules (hsame.lookUp capability site)
  | telling hstage hrules hevent htold =>
    refine .telling hstage hrules hevent fun target hattended => ?_
    refine (htold target fun q hq => hattended q (List.mem_cons_of_mem _ hq)).imp_right ?_
    exact fun hsync => hsync.lookUp capability site
  | changed hstage | spared hstage =>
    rw [hstage] at hhand
    cases hhand

end Bearing

/-- **A command in hand stands somewhere on its way**, in every run in which no version is drawn
twice. -/
theorem Served.bearing (h : Served ticket command first polled between s)
    (hfirst : Routing key origin first past drawn)
    (hfresh : ((first.drawn .take).versions ++ drawn.versions ++ origin.versions key).Nodup) :
    Bearing ticket command first polled between s := by
  induction h with
  | take hqueue hstep => exact .take hqueue hstep
  | move h hhand hstep ih =>
    -- a table that is skipped because it has the version has the rules too
    obtain ⟨past', hrun⟩ := h.routing hfirst
    exact ih.step hhand (hrun.inSync_of_version hfresh) hstep
  | lookUp h hhand capability site ih => exact ih.lookUp hhand capability site

/-- **A subscribed table never lags behind an answer**, in every run in which no version is drawn
twice, whatever becomes of the other subscribers and whichever saves fail.  When the worker answers
that rules have been changed, a table that it attends to has the version of the committed rules and
routes every call by them.  When it answers anything else, nobody has told the table anything. -/
theorem Served.mirror_keeps_up (h : Served ticket command first polled between s)
    (hfirst : Routing key origin first past drawn)
    (hfresh : ((first.drawn .take).versions ++ drawn.versions ++ origin.versions key).Nodup)
    (hdone : s.phase.stage.ticket? ≠ some ticket) :
    ∃ outcome, s.answers.get? ticket = some outcome ∧
      (command.concernsRules = true → outcome = .ok (.changed true) →
        ∀ target, (∀ q ∈ between, q.Attends target) →
          s.published = s.desk.registry.routes.snapshot ∧
          s.routes.version = some s.desk.registry.routes.version ∧
          ∀ capability site, (s.routes.resolve capability site).1 =
            destination s.desk.registry.routes.snapshot.rules capability site) ∧
      (¬ (command.concernsRules = true ∧ outcome = .ok (.changed true)) →
        Untouched first polled s) := by
  cases h.bearing hfirst hfresh with
  | saving hstage | publishing hstage | telling hstage =>
    rw [hstage] at hdone
    exact absurd rfl hdone
  | changed hstage hrules hanswer htold =>
    refine ⟨_, hanswer, fun _ _ target hattended => ?_, fun hnot => absurd ⟨hrules, rfl⟩ hnot⟩
    obtain ⟨past', hrun⟩ := h.routing hfirst
    rw [← Drawn.versions_append] at hfresh
    obtain ⟨book, hledger⟩ := hrun.ledger hfresh
    have hshown : s.published = s.desk.registry.routes.snapshot :=
      hledger.kept.shown (by rw [hstage]; exact id)
    have hsync := htold target hattended
    rw [← hshown]
    exact ⟨rfl, hsync.version.trans (by rw [hshown]; rfl),
      fun capability site => (hsync.mirrors.resolve capability site).1⟩
  | spared hstage hanswer hother hsame =>
    exact ⟨_, hanswer, fun hrules houtcome => absurd houtcome (hother hrules), fun _ => hsame⟩

/-! ## Two subscribers -/

/-- The states from which a list of moves is made. -/
def visited (s : System) : List Move → List System
  | [] => []
  | m :: rest =>
    s :: match step s m with
      | none => []
      | some s' => visited s' rest

/-- A run goes on with the moves that are possible. -/
theorem Routing.replay (h : Routing key origin s past drawn) (moves : List Move)
    (hmoves : replay s moves = some s') :
    ∃ past', Routing key origin s' past' (drawnIn s moves ++ drawn) := by
  induction moves generalizing s past drawn with
  | nil =>
    cases hmoves
    exact ⟨past, h⟩
  | cons m rest ih =>
    obtain ⟨next, hstep, hrest⟩ := Option.bind_eq_some_iff.mp hmoves
    rw [drawnIn, hstep]
    dsimp only
    rw [Drawn.append_assoc]
    exact ih (h.move hstep) hrest

/-- A command stays in hand while the worker has it. -/
theorem Served.replay (h : Served ticket command first polled between s) (moves : List Move)
    (hmoves : replay s moves = some s')
    (hhand : ∀ q ∈ visited s moves, q.phase.stage.ticket? = some ticket) :
    Served ticket command first (polled || moves.any Move.polls)
      ((visited s moves).reverse ++ between) s' := by
  induction moves generalizing s polled between with
  | nil =>
    cases hmoves
    rwa [List.any_nil, Bool.or_false]
  | cons m rest ih =>
    obtain ⟨next, hstep, hrest⟩ := Option.bind_eq_some_iff.mp hmoves
    rw [visited, hstep, List.forall_mem_cons] at hhand
    rw [visited, hstep]
    simp only [List.reverse_cons, List.append_assoc, List.singleton_append, List.any_cons,
      ← Bool.or_assoc]
    exact ih (h.move hhand.1 hstep) hrest hhand.2

instance (target : Delivery.Target) (s : System) : Decidable (s.Attends target) :=
  if hrest : (∃ sub ∈ s.desk.registry.roster.subscribers .routeChange, sub.target = target) ∧
      s.shutdown = false then
    match hreceiver : s.directory.get? target with
    | some .routeTable => isTrue ⟨hreceiver, hrest.1, hrest.2⟩
    | some (.listener _ _) => isFalse fun h => by cases hreceiver.symm.trans h.registered
    | none => isFalse fun h => by cases hreceiver.symm.trans h.registered
  else isFalse fun h => hrest ⟨h.subscribed, h.running⟩

/-- A route table subscribes, and after it a service that never comes to an end with an event. -/
def tableAndSluggard : List Move :=
  [.register (.service "table") .routeTable,
    .register (.service "sluggard") (.listener false ⟨none, .ok ()⟩),
    .call 0 (.subscribe (.service "table")), .take, .save,
    .call 1 (.subscribe (.service "sluggard")), .take, .save]

/-- Calls for billing go to the fast class. -/
def fastBilling : Command := .append [.of (.ofNat 1) "billing" (.classPrefix "fast")]

/-- The system when the worker is about to take the rule. -/
def beforeFastBilling : System :=
  (replay (start Desk.opened .empty 4) (tableAndSluggard ++ [.call 2 fastBilling])).getD
    (start Desk.opened .empty 4)

/-- The rule is saved and published, and the worker turns to the service that never ends. -/
def tellingOfFastBilling : List Move := [.save, .publish, .contact, .finish, .contact]

/-- The system after some moves with the rule in hand. -/
def withFastBilling (moves : List Move) : System :=
  (replay beforeFastBilling (.take :: moves)).getD beforeFastBilling

theorem routing_beforeFastBilling :
    ∃ past, Routing "node" .empty beforeFastBilling past
      (drawnIn (start Desk.opened .empty 4) (tableAndSluggard ++ [.call 2 fastBilling]) ++
        Desk.drawnByLoad "node" .empty default) :=
  (Routing.start .empty 4 rfl).replay (tableAndSluggard ++ [.call 2 fastBilling]) rfl

theorem served_fastBilling : Served 2 fastBilling beforeFastBilling false [beforeFastBilling]
    (withFastBilling []) := .take rfl rfl

/-- The service has all the time that it may take, and then the worker answers. -/
theorem mirror_keeps_up_besideSluggard :
    ∃ s between, Served 2 fastBilling beforeFastBilling false between s ∧
      (∀ q ∈ between, q.Attends (.service "table")) ∧
      s.answers.get? 2 = some (.ok (.changed true)) ∧
      s.routes.version = some s.desk.registry.routes.version ∧
      ∀ capability site, (s.routes.resolve capability site).1 =
        destination s.desk.registry.routes.snapshot.rules capability site := by
  let moves := tellingOfFastBilling ++ [.finish, .reply]
  obtain ⟨past, hfirst⟩ := routing_beforeFastBilling
  have hserved : Served 2 fastBilling beforeFastBilling false _ (withFastBilling moves) :=
    served_fastBilling.replay moves rfl (by decide)
  have hattended : ∀ q ∈ (visited (withFastBilling []) moves).reverse ++ [beforeFastBilling],
      q.Attends (.service "table") := by decide
  obtain ⟨outcome, houtcome, hchanged, -⟩ :=
    hserved.mirror_keeps_up hfirst (by decide) (by decide)
  cases houtcome
  obtain ⟨-, hversion, hroutes⟩ := hchanged rfl rfl _ hattended
  exact ⟨_, _, hserved, hattended, rfl, hversion, hroutes⟩

/-- **A change whose caller has given up is mirrored**: the caller stops waiting while the worker
waits for the service, and is told that its command is cancelled, but the table has the rule. -/
theorem cancelled_change_is_mirrored :
    (∃ past drawn, Routing "node" .empty beforeFastBilling past drawn) ∧
    ∃ s between, Served 2 fastBilling beforeFastBilling false between s ∧
      (∀ q ∈ between, q.Attends (.service "table")) ∧
      s.callers.get? 2 = some (.returned (.error .cancelled)) ∧
      s.routes.version ≠ beforeFastBilling.routes.version ∧
      (s.routes.resolve "billing" ⟨none, none⟩).1 ≠
        (beforeFastBilling.routes.resolve "billing" ⟨none, none⟩).1 := by
  let moves := tellingOfFastBilling ++ [.cancel 2]
  have hserved : Served 2 fastBilling beforeFastBilling false _ (withFastBilling moves) :=
    served_fastBilling.replay moves rfl (by decide)
  obtain ⟨past, hrun⟩ := routing_beforeFastBilling
  exact ⟨⟨past, _, hrun⟩, _, _, hserved, by decide, rfl, by decide, by decide +kernel⟩

end Worker

end Signpost.Admin
