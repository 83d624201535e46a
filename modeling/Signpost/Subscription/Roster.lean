import Signpost.Subscription.Target

/-!
# Rosters

A roster knows the subscriptions and, for every category, the order in which they came.

## Main definitions

* `Subscription`, `Roster`
* `Roster.subscribe`, `Roster.unsubscribe`, `Roster.restore`
* `Roster.subscribers`: the subscriptions of a category in their order.
-/

namespace Signpost

open Json (Decoder)
open Delivery (Category Target)

/-- A target that wants the events of a category. -/
structure Subscription where
  id : Uuid
  category : Category
  target : Target
deriving DecidableEq

/-- The JSON form of a subscription. -/
def Subscription.toJson (s : Subscription) : Json :=
  .object [("id", s.id.toJson), ("category", s.category.toJson), ("target", s.target.toJson)]

/-- Decodes a subscription. -/
def Subscription.decode : Decoder Subscription := fun d =>
  (fun r => ⟨r.1, r.2.1, r.2.2.1⟩) <$> Decoder.record
    (.required "id" Uuid.decode <| .required "category" Category.decode <|
      .required "target" Target.decode .nil) d

/-- The subscriptions, and how long a delivery to one of them may take. -/
structure Roster where
  subscriptions : Dict Uuid Subscription
  /-- The identifiers of the subscriptions of a category, in the order in which they came. -/
  byCategory : Dict Category (List Uuid)
  timeout : Nat

namespace Roster

/-- How long a delivery may take unless something else is said, in milliseconds. -/
def defaultTimeout : Nat := 2000

/-- The roster without subscriptions. -/
def empty (timeout : Nat) : Roster := ⟨.empty, .empty, timeout⟩

/-- The identifiers listed for a category. -/
def listed (r : Roster) (c : Category) : List Uuid := (r.byCategory.get? c).getD []

/-- Puts a subscription at the end of its category. -/
def insert (r : Roster) (s : Subscription) : Roster :=
  { r with
    subscriptions := r.subscriptions.put s.id s
    byCategory := r.byCategory.put s.category (r.listed s.category ++ [s.id]) }

/-- The roster of stored subscriptions. -/
def restore (subscriptions : List Subscription) (timeout : Nat) : Roster :=
  subscriptions.foldl insert (empty timeout)

/-- Adds a subscription with a fresh identifier. -/
def subscribe (r : Roster) (category : Category) (target : Target) (mint : Mint) :
    (Roster × Uuid) × Mint :=
  let (id, mint) := mint.fresh
  ((r.insert ⟨id, category, target⟩, id), mint)

/-- Removes a subscription; says whether it was there. -/
def unsubscribe (r : Roster) (id : Uuid) : Roster × Bool :=
  match r.subscriptions.get? id with
  | none => (r, false)
  | some s =>
    let byCategory := match r.byCategory.get? s.category with
      | none => r.byCategory
      | some ids => r.byCategory.put s.category (ids.filter fun other => decide (other ≠ id))
    ({ r with subscriptions := r.subscriptions.erase id, byCategory }, true)

/-- The subscription with an identifier. -/
def get? (r : Roster) (id : Uuid) : Option Subscription := r.subscriptions.get? id

theorem get?_insert (r : Roster) (s : Subscription) (id : Uuid) :
    (r.insert s).get? id = if id = s.id then some s else r.get? id :=
  Dict.get?_put r.subscriptions s.id id s

/-- The subscriptions of a category, in the order in which they came. -/
def subscribers (r : Roster) (c : Category) : List Subscription :=
  (r.listed c).filterMap r.get?

/-- All subscriptions, category by category. -/
def all (r : Roster) : List Subscription :=
  (r.byCategory.values.flatten).filterMap r.get?

end Roster

end Signpost
