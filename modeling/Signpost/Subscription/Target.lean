import Signpost.Redirection.Registry

/-!
# Delivery targets and events

An administrative event is of some category and carries the version of the registry after the
change.  It is delivered to targets: services of the cluster, and single actors.

## Main definitions

* `Delivery.Target`, `Delivery.Category`, `Delivery.Event`
* `IdentityCard`: who asks for a change.
-/

namespace Signpost

open Json (Decoder)

/-- Decodes a version. -/
def Version.decode : Decoder Version := fun d => Version.mk <$> Decoder.string d

/-- Who asks for a change. -/
structure IdentityCard where
  principal : String
deriving DecidableEq

/-- The card of somebody unknown. -/
def IdentityCard.anonymous : IdentityCard := ⟨"anonymous"⟩

/-- Decodes an identity card. -/
def IdentityCard.decode : Decoder IdentityCard :=
  Decoder.single "principal" .string IdentityCard.mk

/-- The JSON form of an identity card. -/
def IdentityCard.toJson (card : IdentityCard) : Json :=
  .object [("principal", .string card.principal)]

namespace Delivery

/-- What kind of change an event tells of. -/
inductive Category where
  /-- The redirection table has changed. -/
  | routeChange
deriving DecidableEq, Inhabited

/-- The name of a category. -/
def Category.name : Category → String
  | .routeChange => "route_change"

/-- The JSON form of a category. -/
def Category.toJson (c : Category) : Json := .string c.name

/-- Decodes a category. -/
def Category.decode : Decoder Category :=
  Decoder.tagged fun
    | "route_change" => some (.bare .routeChange)
    | _ => none

/-- An administrative event. -/
structure Event where
  category : Category
  /-- The version of the registry after the change. -/
  version : Version
deriving DecidableEq

/-- Decodes an event. -/
def Event.decode : Decoder Event := fun d =>
  (fun r => ⟨r.1, r.2.1⟩) <$> Decoder.record
    (.required "category" Category.decode <| .required "version" Version.decode .nil) d

/-- Where events go. -/
inductive Target where
  /-- A service of which the cluster has one. -/
  | service (name : String)
  /-- One addressable actor. -/
  | actor (kind key : String)
deriving DecidableEq

namespace Target

/-- The text of a target. -/
def text : Target → String
  | .service name => "service:" ++ name
  | .actor kind key => "actor:" ++ kind ++ "/" ++ key

/-- The JSON form of a target. -/
def toJson : Target → Json
  | .service name => .object [("service", .object [("service", .string name)])]
  | .actor kind key =>
    .object [("actor", .object [("kind", .string kind), ("key", .string key)])]

/-- Decodes a target. -/
def decode : Decoder Target :=
  Decoder.tagged fun
    | "service" => some (.holding (.single "service" .string .service))
    | "actor" => some (.holding fun d => (fun r => .actor r.1 r.2.1) <$> Decoder.record
        (.required "kind" .string <| .required "key" .string .nil) d)
    | _ => none

end Target

end Delivery

end Signpost
