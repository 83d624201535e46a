import Signpost.Cache
import Signpost.Redirection.Registry

/-!
# Route tables

A route table mirrors the last snapshot that it has taken from the registry, and says on its own
where a call to a capability goes: to the target of the first rule that applies, rules with a
condition before those without.  Routes of capabilities all of whose rules are unconditioned are
remembered until the next snapshot is applied.

## Main definitions

* `Route`, `RouteTable`
* `RouteTable.apply`: mirrors a snapshot.
* `RouteTable.resolve`: the route of a call.
* `RouteTable.refresh`: mirrors the current snapshot unless that is done already.
-/

namespace Signpost

open Redirection (CallSite Rule Snapshot)

/-- Where a call goes. -/
structure Route where
  capability : String
  classPrefix : Option String
  /-- The rule that was applied. -/
  rule : Option Uuid
deriving DecidableEq

/-- The JSON form of a route. -/
def Route.toJson (r : Route) : Json :=
  .object [("capability", .string r.capability),
    ("class_prefix", .orNull .string r.classPrefix), ("rule", .orNull Uuid.toJson r.rule)]

/-- What a route is remembered by. -/
structure RouteKey where
  capability : String
  classPrefix : Option String
deriving DecidableEq

/-- A mirror of the registry's rules. -/
structure RouteTable where
  /-- The version of the snapshot that is mirrored. -/
  version : Option Version
  /-- The rules of each source, those with a condition first. -/
  bySource : Dict String (List Rule)
  /-- The routes that are remembered. -/
  resolved : Cache RouteKey Route

namespace RouteTable

/-- The table that mirrors nothing yet. -/
def empty : RouteTable := ⟨none, .empty, .empty⟩

/-- The number of rules. -/
def size (t : RouteTable) : Nat := t.bySource.values.flatten.length

/-- Rules by their source, each source's rules in the order of the list. -/
def group (rules : List Rule) : Dict String (List Rule) :=
  rules.foldl (fun d r => d.put r.source ((d.get? r.source).getD [] ++ [r])) .empty

/-- The rules with a condition, followed by those without. -/
def conditionedFirst (rules : List Rule) : List Rule :=
  rules.filter (fun r => r.condition.isSome) ++ rules.filter fun r => r.condition.isNone

/-- Replaces the mirrored rules and forgets all routes. -/
def apply (t : RouteTable) (s : Snapshot) : RouteTable where
  version := some s.version
  bySource := (group s.rules).mapValues conditionedFirst
  resolved := t.resolved.clear

/-- The rules of a source in the order in which they are tried. -/
def candidates (t : RouteTable) (capability : String) : List Rule :=
  (t.bySource.get? capability).getD []

/-- Where a rule sends a call to a capability. -/
def follow (capability : String) (r : Rule) : Route :=
  match r.target with
  | .otherCapability name => ⟨name, none, some r.id⟩
  | .classPrefix text => ⟨capability, some text, some r.id⟩

/-- The route of a call by the rules of its capability. -/
def choose (rules : List Rule) (capability : String) (site : CallSite) : Route :=
  match rules.find? fun r => r.appliesTo site with
  | some r => follow capability r
  | none => ⟨capability, site.classPrefix, none⟩

/-- The route of a call, and the table with the route remembered if it depends on nothing but what
it is remembered by. -/
def resolve (t : RouteTable) (capability : String) (site : CallSite) : Route × RouteTable :=
  let key : RouteKey := ⟨capability, site.classPrefix⟩
  match t.resolved.get? key with
  | some route => (route, t)
  | none =>
    let rules := t.candidates capability
    let route := choose rules capability site
    -- a condition may look at the key of the actor, by which nothing is remembered
    if rules.all fun r => r.condition.isNone then
      (route, { t with resolved := t.resolved.putOne key route })
    else (route, t)

/-- Mirrors the published snapshot; says whether the table had another one. -/
def refresh (t : RouteTable) (published : Snapshot) : RouteTable × Bool :=
  if t.version = some published.version then (t, false) else (t.apply published, true)

/-- Takes notice of a version: mirrors the published snapshot unless the table has that version. -/
def receive (t : RouteTable) (version : Version) (published : Snapshot) : RouteTable :=
  if t.version = some version then t else (t.refresh published).1

end RouteTable

end Signpost
