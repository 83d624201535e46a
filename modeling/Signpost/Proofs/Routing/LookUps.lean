import Signpost.Proofs.Admin.Polling
import Signpost.Proofs.Routing.Memo

/-!
# Runs with look-ups

Routes are looked up in the node's table at any moment of a run, and the table remembers some of
them.  That changes the table and nothing else.  A table has its rules from the snapshots that
readers are given; therefore, if no version is drawn twice, a table that has the version of what is
published has its rules, too.

## Main definitions

* `Worker.Routing`: the runs from a store, with look-ups and with what they draw.
* `Worker.Follows`: a table mirrors a snapshot that readers were given, or is new.
* `Worker.System.InSync`: the route table mirrors what is published.

## Main results

* `Worker.routes_of_step`: all that a move can do to the route table.
* `Worker.Routing.follows`: what the table of a run mirrors.
* `Worker.Routing.inSync_of_version`: a version tells what a table mirrors.
-/

namespace Signpost

open Redirection (CallSite Rule Snapshot)

/-! ## Refreshing a table -/

namespace RouteTable

variable {t u : RouteTable} {p : Snapshot}

/-- Two tables have the same version and the same rules, whatever they remember. -/
structure Shows (t u : RouteTable) : Prop where
  version : t.version = u.version
  bySource : t.bySource = u.bySource

theorem Shows.refl (t : RouteTable) : t.Shows t := ⟨rfl, rfl⟩

theorem Shows.trans {v : RouteTable} (h : t.Shows u) (h' : u.Shows v) : t.Shows v :=
  ⟨h.version.trans h'.version, h.bySource.trans h'.bySource⟩

theorem Shows.refresh (h : t.Shows u) (p : Snapshot) : (t.refresh p).1.Shows (u.refresh p).1 := by
  unfold RouteTable.refresh
  rw [h.version]
  split
  · exact h
  · exact ⟨rfl, rfl⟩

theorem refresh_of_version (h : t.version = some p.version) : (t.refresh p).1 = t := by
  rw [refresh, if_pos h]

theorem refresh_of_ne (h : t.version ≠ some p.version) : (t.refresh p).1 = t.apply p := by
  rw [refresh, if_neg h]

theorem version_refresh (t : RouteTable) (p : Snapshot) :
    (t.refresh p).1.version = some p.version := by
  unfold refresh
  split
  · assumption
  · rfl

/-- A route that has been looked up leaves version and rules alone. -/
theorem shows_resolve (t : RouteTable) (capability : String) (site : CallSite) :
    (t.resolve capability site).2.Shows t := by
  unfold resolve
  dsimp only
  split
  · exact .refl t
  · split <;> exact ⟨rfl, rfl⟩

end RouteTable

namespace Admin.Worker

variable {key : String} {origin : StateStore} {s s' : System} {m : Move} {drawn : Drawn}

namespace System

/-- The system after a route has been looked up. -/
def lookUp (s : System) (capability : String) (site : CallSite) : System :=
  { s with routes := (s.routes.resolve capability site).2 }

end System

/-! ## What moves do to the table -/

theorem routes_offer (s : System) (ticket : Ticket) (command : Command) :
    (s.offer ticket command).routes = s.routes := by
  unfold System.offer
  split
  · rfl
  · split <;> rfl

theorem routes_serve (s : System) (ticket : Ticket) (command : Command) :
    (s.serve ticket command).routes = s.routes := by
  rcases s.serve_cases ticket command with ⟨_, -, heq⟩ | ⟨_, _, -, heq⟩ <;> rw [heq]
  rfl

theorem routes_save (s : System) (ticket : Ticket) (draft : Draft) :
    (s.save ticket draft).routes = s.routes := by
  rcases s.save_cases ticket draft with ⟨_, -, heq⟩ | ⟨_, -, ⟨_, -, -, heq⟩ | ⟨-, heq⟩⟩ <;>
    rw [heq] <;> rfl

/-- A table that is told of a version is refreshed, or has that version. -/
theorem receive_cases (t : RouteTable) (version : Version) (p : Snapshot) :
    (t.version = some version ∧ t.receive version p = t) ∨
      t.receive version p = (t.refresh p).1 := by
  unfold RouteTable.receive
  split
  · next h => exact .inl ⟨h, rfl⟩
  · exact .inr rfl

theorem routes_turnTo (s : System) (ticket : Ticket) (event : Delivery.Event)
    (target : Delivery.Target) (rest : List Subscription) :
    (s.turnTo ticket event target rest).routes = s.routes ∨
      (s.turnTo ticket event target rest).routes = (s.routes.refresh s.published).1 := by
  unfold System.turnTo
  split
  · exact .inl rfl
  · next receiver _ =>
    split
    · exact .inl rfl
    · cases receiver with
      | listener reads work => exact .inl rfl
      | routeTable =>
        rcases receive_cases s.routes event.version s.published with ⟨-, heq⟩ | heq
        · exact .inl heq
        · exact .inr heq

/-- A move leaves the route table as it is, or refreshes it: when the table polls, or is told. -/
theorem routes_of_step (h : step s m = some s') :
    s'.routes = s.routes ∨
      ((m = .refreshRoutes ∨ ∃ ticket, s.phase.stage = .telling ticket) ∧
        s'.routes = (s.routes.refresh s.published).1) := by
  cases m <;> simp only [step] at h
  case call ticket command =>
    split at h <;> cases h
    exact .inl (routes_offer s ticket command)
  case enter ticket =>
    split at h
    · split at h <;> cases h
      exact .inl (routes_offer s ticket _)
    · cases h
  case take =>
    split at h
    · next ticket command rest _ _ =>
      cases h
      exact .inl (routes_serve { s with queue := rest } ticket command)
    · cases h
  case save =>
    split at h
    · next ticket draft _ =>
      cases h
      exact .inl (routes_save s ticket draft)
    · cases h
  case contact =>
    split at h
    · next ticket event next rest hphase =>
      cases h
      have htelling : s.phase.stage = .telling ticket := by rw [hphase]; rfl
      exact (routes_turnTo s ticket event next.target rest).imp_right (⟨.inr ⟨ticket, htelling⟩, ·⟩)
    · cases h
  case refreshRoutes =>
    cases h
    exact .inr ⟨.inl rfl, rfl⟩
  all_goals
    repeat' split at h
    all_goals cases h
    all_goals exact .inl rfl

/-! ## Runs -/

/-- A run of a registry that begins with some store, in which routes are looked up at any moment,
with what has been drawn in it: the system as it is now, and as it was before, the last one
first. -/
inductive Routing (key : String) (origin : StateStore) : System → List System → Drawn → Prop
  | start {desk : Desk} {timeout : Nat} {mint : Mint} (directory : Delivery.Directory)
      (capacity : Nat) (hload : Desk.load key origin timeout mint = .ok desk) :
      Routing key origin (start desk directory capacity) [] (Desk.drawnByLoad key origin mint)
  | move {s s' : System} {past : List System} {m : Move} {drawn : Drawn}
      (h : Routing key origin s past drawn) (hstep : step s m = some s') :
      Routing key origin s' (s :: past) (s.drawn m ++ drawn)
  | lookUp {s : System} {past : List System} {drawn : Drawn} (h : Routing key origin s past drawn)
      (capability : String) (site : CallSite) :
      Routing key origin (s.lookUp capability site) (s :: past) drawn

/-- The table mirrors a snapshot that a reader may have been given, or it is new. -/
def Follows (t : RouteTable) (history : List System) : Prop :=
  (t.version = none ∧ t.Mirrors []) ∨
    ∃ p, HandedOut history p ∧ t.version = some p.version ∧ t.Mirrors p.rules

/-- The route table mirrors what is published. -/
structure System.InSync (s : System) : Prop where
  version : s.routes.version = some s.published.version
  mirrors : s.routes.Mirrors s.published.rules

section Follows

variable {t : RouteTable} {history history' : List System} {p : Snapshot}

theorem Follows.mono (h : Follows t history) (hsub : history ⊆ history') : Follows t history' := by
  rcases h with hnew | ⟨p, ⟨q, hq, hgives⟩, hversion, hmirrors⟩
  · exact .inl hnew
  · exact .inr ⟨p, ⟨q, hsub hq, hgives⟩, hversion, hmirrors⟩

theorem Follows.refresh (h : Follows t history) (hp : HandedOut history p) :
    Follows (t.refresh p).1 history := by
  by_cases hversion : t.version = some p.version
  · rw [RouteTable.refresh_of_version hversion]
    exact h
  · rw [RouteTable.refresh_of_ne hversion]
    exact .inr ⟨p, hp, rfl, t.mirrors_apply p⟩

theorem Follows.resolve (h : Follows t history) (capability : String) (site : CallSite) :
    Follows (t.resolve capability site).2 history := by
  have hversion := (t.shows_resolve capability site).version
  rcases h with ⟨hnone, hmirrors⟩ | ⟨p, hp, hsome, hmirrors⟩
  · exact .inl ⟨hversion.trans hnone, (hmirrors.resolve capability site).2⟩
  · exact .inr ⟨p, hp, hversion.trans hsome, (hmirrors.resolve capability site).2⟩

end Follows

namespace Routing

variable {past : List System}

/-- The table of a run has its rules from the snapshots that readers were given. -/
theorem follows (h : Routing key origin s past drawn) : Follows s.routes (s :: past) := by
  induction h with
  | start directory capacity hload => exact .inl ⟨rfl, RouteTable.mirrors_empty⟩
  | @move s s' past m drawn h hstep ih =>
    have hnext : s :: past ⊆ s' :: s :: past := List.subset_cons_self s' (s :: past)
    rcases routes_of_step hstep with heq | ⟨-, heq⟩ <;> rw [heq]
    · exact ih.mono hnext
    · exact (ih.refresh (handedOut_published past)).mono hnext
  | lookUp h capability site ih =>
    exact (ih.resolve capability site).mono (List.subset_cons_self _ _)

/-- There is a ledger of every run in which no version is drawn twice, look-ups or not. -/
theorem ledger (h : Routing key origin s past drawn)
    (hfresh : (drawn.versions ++ origin.versions key).Nodup) :
    ∃ book, Ledger key s (s :: past) (drawn.versions ++ origin.versions key) book := by
  induction h with
  | start directory capacity hload => exact ledger_start directory capacity hload
  | move h hstep ih =>
    rw [Drawn.versions_append, List.append_assoc] at hfresh ⊢
    obtain ⟨book, hledger⟩ := ih (List.nodup_append.mp hfresh).2.1
    exact hledger.step hstep hfresh
  -- a look-up leaves alone all that a ledger is about
  | lookUp h capability site ih =>
    obtain ⟨book, hledger⟩ := ih hfresh
    exact ⟨book, hledger.next_same hledger.kept rfl hledger.hidden⟩

/-- **A version tells what a table mirrors**, if no version is drawn twice. -/
theorem inSync_of_version (h : Routing key origin s past drawn)
    (hfresh : (drawn.versions ++ origin.versions key).Nodup)
    (hversion : s.routes.version = some s.published.version) : s.InSync := by
  refine ⟨hversion, ?_⟩
  obtain ⟨book, hledger⟩ := h.ledger hfresh
  rcases h.follows with ⟨hnone, -⟩ | ⟨p, hp, hsome, hmirrors⟩
  · rw [hnone] at hversion
    cases hversion
  · have hsame : p = s.published :=
      hledger.eq_of_version_eq hfresh (hledger.handed p hp) hledger.published_mem
        (Option.some.inj (hsome.symm.trans hversion))
    rwa [hsame] at hmirrors

end Routing

/-! ## Tables in sync -/

namespace System.InSync

/-- A table that is in sync stays so in every move that publishes nothing. -/
theorem step (h : s.InSync) (hstep : step s m = some s') (hm : m ≠ .publish) : s'.InSync := by
  have hpublished := published_of_step hm hstep
  have hroutes : s'.routes = s.routes := by
    rcases routes_of_step hstep with heq | ⟨-, heq⟩
    · exact heq
    · rw [heq, RouteTable.refresh_of_version h.version]
  exact ⟨by rw [hroutes, hpublished, h.version], by rw [hroutes, hpublished]; exact h.mirrors⟩

theorem lookUp (h : s.InSync) (capability : String) (site : CallSite) :
    (s.lookUp capability site).InSync :=
  ⟨(s.routes.shows_resolve capability site).version.trans h.version,
    (h.mirrors.resolve capability site).2⟩

end System.InSync

end Admin.Worker

end Signpost
