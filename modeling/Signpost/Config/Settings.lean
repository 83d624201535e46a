import Signpost.Config.Placeholder
import Signpost.Json.Decode
import Signpost.Json.Printer
import Signpost.Text.Duration

/-!
# Settings of a node

A node reads its settings from a JSON text in which every section and every field may be missing.
Texts in it may hold placeholders for values of the environment, which also gives the database
settings that are missing.

## Main definitions

* `Settings` with its sections, `Settings.default`
* `Settings.ofText`: the settings in a text.
-/

namespace Signpost

open Json (Decoder Fault)

/-- The values of the environment by name. -/
abbrev Environment := String → Option String

/-- Where the database is and how to sign in. -/
structure DatabaseSettings where
  url : String
  nameSpace : String
  database : String
  username : Option String
  password : Option String
deriving DecidableEq

/-- The database settings that the environment gives. -/
def DatabaseSettings.default (env : Environment) : DatabaseSettings where
  url := (env "SURREALDB_URL").getD "memory"
  nameSpace := (env "SURREALDB_NAMESPACE").getD "unicity"
  database := (env "SURREALDB_DATABASE").getD "registry"
  username := env "SURREALDB_USERNAME"
  password := env "SURREALDB_PASSWORD"

/-- The settings of the administration. -/
structure AdminSettings where
  /-- The key of the stored record that this node owns. -/
  instanceKey : String
  /-- How long a delivery to a receiver may take, in milliseconds. -/
  notificationTimeout : Nat
  /-- How many commands may wait for the worker. -/
  commandBuffer : Nat
deriving DecidableEq

/-- The administration settings unless others are given. -/
def AdminSettings.default : AdminSettings := ⟨"cluster", 2000, 64⟩

/-- The settings of definition look-up. -/
structure ResolverSettings where
  /-- How long a call to one source may take, in milliseconds; none waits for ever. -/
  sourceTimeout : Option Nat
  /-- How often caches are reconciled with the store, in seconds; zero is never. -/
  refreshSeconds : Nat
  /-- A file of definitions that are served ahead of the store. -/
  bootstrapPath : Option String
deriving DecidableEq

/-- The look-up settings unless others are given. -/
def ResolverSettings.default : ResolverSettings := ⟨some 5000, 30, none⟩

/-- The time between two refreshes in milliseconds. -/
def ResolverSettings.refreshInterval (s : ResolverSettings) : Option Nat :=
  if s.refreshSeconds = 0 then none else some (s.refreshSeconds * 1000)

/-- The settings of the interface. -/
structure ApiSettings where
  /-- The address to listen at. -/
  bind : String
deriving DecidableEq

/-- The interface settings unless others are given. -/
def ApiSettings.default : ApiSettings := ⟨"127.0.0.1:8080"⟩

/-- The settings of a node. -/
structure Settings where
  database : DatabaseSettings
  admin : AdminSettings
  resolver : ResolverSettings
  api : ApiSettings
deriving DecidableEq

namespace Settings

/-- The settings unless others are given. -/
def default (env : Environment) : Settings := ⟨.default env, .default, .default, .default⟩

/-! ## JSON form -/

/-- Decodes the database section. -/
def decodeDatabase (env : Environment) : Decoder DatabaseSettings := fun d =>
  let absent := DatabaseSettings.default env
  (fun r => ⟨r.1, r.2.1, r.2.2.1, r.2.2.2.1, r.2.2.2.2.1⟩) <$> Decoder.record
    (.defaulted "url" .string absent.url <|
      .defaulted "namespace" .string absent.nameSpace <|
      .defaulted "database" .string absent.database <|
      .defaulted "username" (.nullable .string) absent.username <|
      .defaulted "password" (.nullable .string) absent.password .nil) d

/-- Decodes the administration section. -/
def decodeAdmin : Decoder AdminSettings := fun d =>
  let absent := AdminSettings.default
  (fun r => ⟨r.1, r.2.1, r.2.2.1⟩) <$> Decoder.record
    (.defaulted "instance_key" .string absent.instanceKey <|
      .defaulted "notification_timeout_ms" .natural absent.notificationTimeout <|
      .defaulted "command_buffer" .natural absent.commandBuffer .nil) d

/-- Decodes the look-up section. -/
def decodeResolver : Decoder ResolverSettings := fun d =>
  let absent := ResolverSettings.default
  (fun r => ⟨r.1, r.2.1, r.2.2.1⟩) <$> Decoder.record
    (.defaulted "source_timeout_ms" (.nullable .natural) absent.sourceTimeout <|
      .defaulted "refresh_interval_secs" .natural absent.refreshSeconds <|
      .defaulted "bootstrap_path" (.nullable .string) absent.bootstrapPath .nil) d

/-- Decodes the interface section. -/
def decodeApi : Decoder ApiSettings := fun d =>
  (fun r => ⟨r.1⟩) <$> Decoder.record (.defaulted "bind" .string ApiSettings.default.bind .nil) d

/-- Decodes settings. -/
def decode (env : Environment) : Decoder Settings := fun d =>
  (fun r => ⟨r.1, r.2.1, r.2.2.1, r.2.2.2.1⟩) <$> Decoder.record
    (.defaulted "database" (decodeDatabase env) (.default env) <|
      .defaulted "admin" decodeAdmin .default <|
      .defaulted "resolver" decodeResolver .default <|
      .defaulted "api" decodeApi .default .nil) d

/-- The JSON form of settings. -/
def toJson (s : Settings) : Json :=
  .object [
    ("database", .object [("url", .string s.database.url),
      ("namespace", .string s.database.nameSpace), ("database", .string s.database.database),
      ("username", .orNull .string s.database.username),
      ("password", .orNull .string s.database.password)]),
    ("admin", .object [("instance_key", .string s.admin.instanceKey),
      ("notification_timeout_ms", .ofNat s.admin.notificationTimeout),
      ("command_buffer", .ofNat s.admin.commandBuffer)]),
    ("resolver", .object [("source_timeout_ms", .orNull .ofNat s.resolver.sourceTimeout),
      ("refresh_interval_secs", .ofNat s.resolver.refreshSeconds),
      ("bootstrap_path", .orNull .string s.resolver.bootstrapPath)]),
    ("api", .object [("bind", .string s.api.bind)])]

/-- The JSON form of settings together with the durations that follow from them. -/
def report (s : Settings) : Json :=
  .object [("config", s.toJson), ("notification_timeout_ms", .ofNat s.admin.notificationTimeout),
    ("notification_timeout", .string (Text.duration s.admin.notificationTimeout)),
    ("source_timeout_ms", .orNull .ofNat s.resolver.sourceTimeout),
    ("refresh_interval_ms",
      .orNull (fun ms => .string (toString ms)) s.resolver.refreshInterval)]

/-! ## Reading -/

mutual

/-- A value with the placeholders in its texts replaced; keys stay as they are. -/
def expandValue (env : Environment) : Json → Json
  | .string s => .string (Placeholder.expand env s)
  | .array items => .array (expandItems env items)
  | .object members => .object (expandMembers env members)
  | v => v

/-- Items with their placeholders replaced. -/
def expandItems (env : Environment) : List Json → List Json
  | [] => []
  | v :: rest => expandValue env v :: expandItems env rest

/-- Members with the placeholders in their values replaced. -/
def expandMembers (env : Environment) : List (String × Json) → List (String × Json)
  | [] => []
  | (key, v) :: rest => (key, expandValue env v) :: expandMembers env rest

end

/-- The settings in a text.  Once it is read as JSON, whatever else is wrong is its shape. -/
def ofText (env : Environment) (text : String) : Except Fault Settings := do
  let value ← Json.ofText text
  -- repeated members are gone by now, so the last one of each key has counted
  match Json.decode? (decode env) (expandValue env value) with
  | some settings => .ok settings
  | none => .error .shape

end Settings

end Signpost
