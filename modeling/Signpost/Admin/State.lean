import Signpost.Failure
import Signpost.Subscription.Roster

/-!
# The persisted state of an administration registry

Everything that a registry needs to come back after a restart is one record.  Records are kept as
documents, one for every instance, in a store that may be out of order.  A process that need not
come back keeps them as they are.

## Main definitions

* `Admin.State`, `State.toJson`, `State.decode`
* `Admin.StateStore`, `StateStore.load`, `StateStore.save`, `StoreError`
* `Admin.StateTable`: states that are kept as they are.
-/

namespace Signpost.Admin

open Json (Decoder)

/-- What a registry needs to come back. -/
structure State where
  subscriptions : List Subscription
  rules : List Redirection.Rule
  version : Version
deriving DecidableEq

namespace State

/-- The JSON form of a state. -/
def toJson (s : State) : Json :=
  .object [("subscriptions", .array (s.subscriptions.map Subscription.toJson)),
    ("redirection_rules", .array (s.rules.map Redirection.Rule.toJson)),
    ("version", .string s.version.text)]

/-- Decodes a state, whose lists may be missing. -/
def decode : Decoder State := fun d =>
  (fun r => ⟨r.1, r.2.1, r.2.2.1⟩) <$> Decoder.record
    (.defaulted "subscriptions" (.list Subscription.decode) [] <|
      .defaulted "redirection_rules" (.list Redirection.Rule.decode) [] <|
      .required "version" Version.decode .nil) d

end State

/-- Documents by instance. -/
structure StateStore where
  documents : Dict String Json
  /-- What everything that is asked of the store fails with, while it is there. -/
  failure : Option Failure
  /-- How often something has been saved. -/
  saves : Nat

/-- Why no state can be loaded or saved. -/
inductive StoreError where
  | failed (failure : Failure)
  /-- The stored document is no state. -/
  | malformed (key : String)
deriving DecidableEq

/-- The wording of a store error. -/
def StoreError.message : StoreError → String
  | .failed f => f.chain
  | .malformed key => "malformed administration state for " ++ key

namespace StateStore

/-- The store without documents. -/
def empty : StateStore := ⟨.empty, none, 0⟩

/-- The state of an instance, as it is stored. -/
def read (s : StateStore) (key : String) : Except StoreError (Option State) :=
  match s.documents.get? key with
  | none => .ok none
  | some document =>
    match Json.decode? State.decode document with
    | some state => .ok (some state)
    | none => .error (.malformed key)

/-- Puts a document, whatever it is. -/
def write (s : StateStore) (key : String) (document : Json) : StateStore :=
  { s with documents := s.documents.put key document }

/-- Loads the state of an instance. -/
def load (s : StateStore) (key : String) : Except StoreError (Option State) :=
  match s.failure with
  | some f => .error (.failed f)
  | none => s.read key

/-- Saves the state of an instance. -/
def save (s : StateStore) (key : String) (state : State) : Except StoreError StateStore :=
  match s.failure with
  | some f => .error (.failed f)
  | none => .ok { s.write key state.toJson with saves := s.saves + 1 }

end StateStore

/-- States by instance, as a process keeps them for itself. -/
structure StateTable where
  states : Dict String State

namespace StateTable

/-- The state of an instance. -/
def load (t : StateTable) (key : String) : Option State := t.states.get? key

/-- Puts the state of an instance. -/
def save (t : StateTable) (key : String) (state : State) : StateTable := ⟨t.states.put key state⟩

end StateTable

end Signpost.Admin
