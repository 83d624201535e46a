import Signpost.Routing

/-!
# The memo of a route table

A route table remembers routes by the capability and the class prefix of a call, though a rule may
also look at the key of the actor.  Nobody can see that it remembers anything: what it answers is
where the rules of the last snapshot send the call, whatever was asked before.  This rests on when a
route is remembered, which is only if no rule of its capability has a condition, and on all routes
being forgotten when a snapshot is applied.

## Main definitions

* `Redirection.deciding?`, `Redirection.destination`: where rules send a call, without a table.
* `RouteTable.Mirrors`: a table has certain rules, and remembers nothing else.
* `RouteTable.Request`, `RouteTable.answers`: what a table answers to a sequence of requests.
* `Redirection.destinations`: what the rules of the last snapshot alone answer to it.

## Main results

* `RouteTable.mirrors_apply`, `RouteTable.Mirrors.resolve`: every request leaves a table that
  mirrors the last snapshot.
* `RouteTable.memo_invisible`
-/

namespace Signpost

/-! ## Where rules send a call -/

namespace Redirection

/-- The rule that decides where a call goes: of the rules of its capability the first one with a
condition that applies, or else the first one without a condition. -/
def deciding? (rules : List Rule) (capability : String) (site : CallSite) : Option Rule :=
  let own := rules.filter fun r => decide (r.source = capability)
  (own.find? fun r => r.condition.isSome && r.appliesTo site).or
    (own.find? fun r => r.condition.isNone)

/-- Where rules send a call: to another capability without a class prefix, to another class prefix
of the same capability, or where it was going. -/
def destination (rules : List Rule) (capability : String) (site : CallSite) : Route :=
  match deciding? rules capability site with
  | none => ⟨capability, site.classPrefix, none⟩
  | some r =>
    match r.target with
    | .otherCapability name => ⟨name, none, some r.id⟩
    | .classPrefix text => ⟨capability, some text, some r.id⟩

/-- A rule without a condition applies to every call. -/
theorem Rule.appliesTo_of_condition_eq_none {r : Rule} (h : r.condition = none) (site : CallSite) :
    r.appliesTo site = true := by
  rw [appliesTo, h]

variable {rules : List Rule} {capability : String}

/-- Where no rule of a capability has a condition, only the class prefix of a call counts. -/
theorem destination_congr
    (h : ∀ r ∈ rules, r.source = capability → r.condition = none) {site site' : CallSite}
    (hclass : site.classPrefix = site'.classPrefix) :
    destination rules capability site = destination rules capability site' := by
  have hconditioned : ∀ site : CallSite,
      (rules.filter fun r => decide (r.source = capability)).find?
        (fun r => r.condition.isSome && r.appliesTo site) = none := by
    intro site
    rw [List.find?_eq_none]
    intro r hr
    obtain ⟨hmem, hsource⟩ := List.mem_filter.mp hr
    simp [h r hmem (of_decide_eq_true hsource)]
  have hdeciding : deciding? rules capability site = deciding? rules capability site' := by
    simp only [deciding?, hconditioned]
  rw [destination, destination, hdeciding, hclass]

end Redirection

open Redirection (CallSite Rule Snapshot deciding? destination)

namespace RouteTable

/-! ## Candidates -/

/-- The rules of a source are grouped in the order of the list. -/
theorem getD_get?_group (rules : List Rule) (source : String) :
    ((group rules).get? source).getD [] = rules.filter fun r => decide (r.source = source) := by
  have hgeneral : ∀ (rules : List Rule) (d : Dict String (List Rule)),
      ((rules.foldl (fun d r => d.put r.source ((d.get? r.source).getD [] ++ [r])) d).get?
          source).getD [] =
        (d.get? source).getD [] ++ rules.filter fun r => decide (r.source = source) := by
    intro rules
    induction rules with
    | nil => simp
    | cons r rest ih =>
      intro d
      rw [List.foldl_cons, ih, Dict.get?_put, List.filter_cons]
      by_cases hsource : r.source = source
      · simp [hsource]
      · simp [hsource, Ne.symm hsource]
  exact hgeneral rules .empty

theorem candidates_apply (t : RouteTable) (s : Snapshot) (capability : String) :
    (t.apply s).candidates capability =
      conditionedFirst (s.rules.filter fun r => decide (r.source = capability)) := by
  rw [candidates, apply, Dict.get?_mapValues, ← getD_get?_group]
  cases (group s.rules).get? capability <;> rfl

/-- The first rule that applies, rules with a condition being tried first, is the one that
decides. -/
theorem find?_conditionedFirst (rules : List Rule) (capability : String) (site : CallSite) :
    (conditionedFirst (rules.filter fun r => decide (r.source = capability))).find?
      (fun r => r.appliesTo site) = deciding? rules capability site := by
  have happlies : ∀ r : Rule, (r.condition.isNone && r.appliesTo site) = r.condition.isNone := by
    intro r
    cases hcondition : r.condition with
    | some c => rfl
    | none => exact Rule.appliesTo_of_condition_eq_none hcondition site
  rw [conditionedFirst, List.find?_append, deciding?]
  generalize rules.filter (fun r => decide (r.source = capability)) = own
  simp only [List.find?_filter, Bool.decide_and, Bool.decide_eq_true, happlies]

theorem choose_conditionedFirst (rules : List Rule) (capability : String) (site : CallSite) :
    choose (conditionedFirst (rules.filter fun r => decide (r.source = capability))) capability
      site = destination rules capability site := by
  rw [choose, find?_conditionedFirst, destination]
  cases deciding? rules capability site <;> rfl

/-! ## Tables that mirror rules -/

/-- The table has certain rules, and every route that it remembers is where they send all calls that
the route is remembered for. -/
structure Mirrors (t : RouteTable) (rules : List Rule) : Prop where
  candidates : ∀ capability, t.candidates capability =
    conditionedFirst (rules.filter fun r => decide (r.source = capability))
  resolved : ∀ key route, t.resolved.get? key = some route →
    ∀ site : CallSite, site.classPrefix = key.classPrefix →
      route = destination rules key.capability site

theorem mirrors_empty : empty.Mirrors [] := ⟨fun _ => rfl, nofun⟩

/-- A table that has been given a snapshot mirrors it, whatever it was before. -/
theorem mirrors_apply (t : RouteTable) (s : Snapshot) : (t.apply s).Mirrors s.rules :=
  ⟨t.candidates_apply s, nofun⟩

namespace Mirrors

variable {t : RouteTable} {rules : List Rule}

/-- Candidates without conditions are rules without conditions. -/
theorem condition_eq_none (h : t.Mirrors rules) {capability : String}
    (hall : (t.candidates capability).all fun r => r.condition.isNone) :
    ∀ r ∈ rules, r.source = capability → r.condition = none := by
  intro r hr hsource
  rw [h.candidates, List.all_eq_true] at hall
  have hown : r ∈ rules.filter fun r => decide (r.source = capability) :=
    List.mem_filter.mpr ⟨hr, decide_eq_true hsource⟩
  cases hcondition : r.condition with
  | none => rfl
  | some c =>
    have hmem : r ∈ conditionedFirst (rules.filter fun r => decide (r.source = capability)) :=
      List.mem_append_left _ (List.mem_filter.mpr ⟨hown, by rw [hcondition]; rfl⟩)
    have hnone := hall r hmem
    rw [hcondition] at hnone
    cases hnone

/-- A table that mirrors rules answers where they send a call, and still mirrors them. -/
theorem resolve (h : t.Mirrors rules) (capability : String) (site : CallSite) :
    (t.resolve capability site).1 = destination rules capability site ∧
      (t.resolve capability site).2.Mirrors rules := by
  rw [RouteTable.resolve]
  cases hmemo : t.resolved.get? ⟨capability, site.classPrefix⟩ with
  | some route => exact ⟨h.resolved _ route hmemo site rfl, h⟩
  | none =>
    have hchoice : choose (t.candidates capability) capability site =
        destination rules capability site := by
      rw [h.candidates, choose_conditionedFirst]
    dsimp only
    split
    · next hall =>
      refine ⟨hchoice, h.candidates, fun key route hroute other hother => ?_⟩
      rw [Cache.get?_putOne] at hroute
      split at hroute
      -- the route that is remembered now
      · next hkey =>
        subst hkey
        cases hroute
        rw [hchoice]
        exact Redirection.destination_congr (h.condition_eq_none hall) hother.symm
      · exact h.resolved key route hroute other hother
    · exact ⟨hchoice, h⟩

end Mirrors

/-! ## Sequences of requests -/

/-- What is asked of a table. -/
inductive Request where
  /-- To mirror a snapshot. -/
  | apply (s : Snapshot)
  /-- Where a call goes. -/
  | resolve (capability : String) (site : CallSite)

/-- What a table answers to requests that are made one after another. -/
def answers (t : RouteTable) : List Request → List Route
  | [] => []
  | .apply s :: rest => (t.apply s).answers rest
  | .resolve capability site :: rest =>
    (t.resolve capability site).1 :: (t.resolve capability site).2.answers rest

end RouteTable

/-- Where the rules of the last snapshot send the calls of a sequence of requests, before the first
of which there were some rules. -/
def Redirection.destinations (rules : List Rule) : List RouteTable.Request → List Route
  | [] => []
  | .apply s :: rest => destinations s.rules rest
  | .resolve capability site :: rest => destination rules capability site :: destinations rules rest

namespace RouteTable

open Redirection (destinations)

theorem Mirrors.answers_eq {t : RouteTable} {rules : List Rule} (h : t.Mirrors rules)
    (requests : List Request) : t.answers requests = destinations rules requests := by
  induction requests generalizing t rules with
  | nil => rfl
  | cons request rest ih =>
    cases request with
    | apply s => exact ih (t.mirrors_apply s)
    | resolve capability site =>
      obtain ⟨hroute, hmirrors⟩ := h.resolve capability site
      rw [answers, destinations, hroute, ih hmirrors]

/-- **The memo is invisible.**  Whatever snapshots are applied to a new table and whatever routes
are asked for, in any order, every answer is where the rules of the last snapshot send the call, or
the call's own destination before the first one.  A snapshot makes the same of every table, whatever it
mirrored and remembered before. -/
theorem memo_invisible (requests : List Request) :
    empty.answers requests = destinations [] requests ∧
      ∀ (t : RouteTable) (s : Snapshot),
        (t.apply s).answers requests = destinations s.rules requests :=
  ⟨mirrors_empty.answers_eq requests, fun t s => (t.mirrors_apply s).answers_eq requests⟩

end RouteTable

end Signpost
