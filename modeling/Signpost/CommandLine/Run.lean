import Signpost.Admin.Registry
import Signpost.CommandLine.Arguments
import Signpost.Config.Load
import Signpost.Store.Database

/-!
# Running a command

A run loads the settings, then does what its command says with a database that is empty when the run
begins, and ends with lines to be printed or with an error.

## Main definitions

* `CommandLine.Outcome`, `CommandLine.StartError`
* `CommandLine.run`
-/

namespace Signpost.CommandLine

/-- Why a run ends with an error. -/
inductive StartError where
  | settings (e : LoadError)
  | definitions (e : LoadError)
  /-- The database cannot be reached, or refuses to let the node in. -/
  | database
  | administration (e : Admin.Error)
  /-- Nothing can listen at an address. -/
  | binding (address : String)
deriving DecidableEq

/-- The wording of an error. -/
def StartError.message : StartError → String
  | .settings e => e.message Settings.content
  | .definitions e => e.message Bundle.content
  | .database => "the database cannot be used"
  | .administration e => e.message
  | .binding address => "binding " ++ address

/-- How a run ends. -/
inductive Outcome where
  /-- The arguments were refused. -/
  | refused
  /-- Lines are printed and all is well. -/
  | done (lines : List String)
  | failed (e : StartError)
  /-- The node is ready to serve requests at an address. -/
  | serving (address : String)
deriving DecidableEq

/-- The exit code of a run. -/
def Outcome.exitCode : Outcome → Nat
  | .refused => 2
  | .done _ | .serving _ => 0
  | .failed _ => 1

/-- Refuses a database that is not in memory, and the sign-in that a fresh database never grants. -/
def connect (s : DatabaseSettings) : Except StartError Database :=
  if s.url ≠ "memory" ∧ ¬"mem://".toList.isPrefixOf s.url.toList then .error .database
  else if s.username.isSome ∧ s.password.isSome then .error .database
  else .ok .empty

/-- The registry of a node, as it starts. -/
def openDesk (s : Settings) (mint : Mint) : Except StartError Admin.Desk :=
  (Admin.Desk.load s.admin.instanceKey .empty s.admin.notificationTimeout mint).mapError
    .administration

/-- Whether an address has a host and a port that is a number of 16 bits. -/
def isBindable (address : String) : Bool :=
  let reversed := address.toList.reverse
  let port := (reversed.takeWhile fun c => c ≠ ':').reverse
  let digits := match port with
    | '+' :: rest => rest
    | port => port
  let host := reversed.dropWhile fun c => c ≠ ':'
  2 ≤ host.length && !digits.isEmpty && digits.all Char.isDigit &&
    decide (Path.digitsValue digits < UInt16.size)

/-- The target under which the route table of a node subscribes. -/
def routeTarget (address : String) : Delivery.Target := .service ("route-table@" ++ address)

section
variable {m : Type → Type} [Monad m]

/-- The bundle that a node is shipped with. -/
def loadBootstrap (files : Files m) (s : Settings) : m (Except StartError Bundle) := do
  match s.resolver.bootstrapPath with
  | none => return .ok .empty
  | some path => return (← Bundle.load files path).mapError .definitions

/-- Starts a node that serves requests: its registry with the subscription of its own route table,
then its catalog, then its address. -/
def startServer (files : Files m) (s : Settings) (bind : Option String) (mint : Mint) :
    m Outcome := do
  let address := bind.getD s.api.bind
  match connect s.database with
  | .error e => return .failed e
  | .ok _ =>
    match openDesk s mint with
    | .error e => return .failed e
    | .ok desk =>
      -- the route table subscribes first, so that it hears of every change that requests make
      match (desk.apply (.subscribe (routeTarget address))).1.answer with
      | .error e => return .failed (.administration e)
      | .ok _ =>
        match ← loadBootstrap files s with
        | .error e => return .failed e
        | .ok _ =>
          return if isBindable address then .serving address else .failed (.binding address)

/-- Stores the definitions of a file. -/
def importDefinitions (files : Files m) (s : Settings) (file : String) : m Outcome := do
  match ← Bundle.load files file with
  | .error e => return .failed (.definitions e)
  | .ok bundle =>
    match connect s.database with
    | .error e => return .failed e
    | .ok db =>
      let (_, count) := db.importBundle bundle
      return .done ["Imported " ++ toString count ++ " definition(s) from " ++ file]

/-- The lines that show a table of rules. -/
def tableLines (s : Redirection.Snapshot) : List String :=
  if s.rules.isEmpty then ["No redirection rules (version " ++ s.version.text ++ ")."]
  else
    ["Version: " ++ s.version.text,
      padded "ID" 38 ++ " " ++ padded "SOURCE" 24 ++ " " ++ padded "TARGET" 32 ++ " CONDITION",
      String.ofList (List.replicate 110 '-')] ++
    s.rules.map fun r => padded r.id.toString 38 ++ " " ++ padded r.source 24 ++ " " ++
      padded r.target.text 32 ++ " " ++ match r.condition with
        | some (.keyPrefix text) => "KeyPrefix(" ++ Text.quoted text ++ ")"
        | some (.classPrefixEquals text) => "ClassPrefixEquals(" ++ Text.quoted text ++ ")"
        | none => "-"

/-- Shows the redirection table. -/
def showRedirections (s : Settings) (mint : Mint) : Outcome :=
  match connect s.database with
  | .error e => .failed e
  | .ok _ =>
    match openDesk s mint with
    | .error e => .failed e
    | .ok desk => .done (tableLines desk.registry.routes.snapshot)

/-- Prepares the database. -/
def prepare (s : Settings) : Outcome :=
  match connect s.database with
  | .error e => .failed e
  | .ok _ => .done []

/-- Runs the command that the arguments say. -/
def run (files : Files m) (env : Environment) (mint : Mint) (arguments : List String) :
    m Outcome := do
  let named := env "REGISTRY_CONFIG"
  match parse named arguments with
  | .error .usage => return .refused
  | .error (.help topic) => return .done (help named topic)
  | .error .helpOnHelp => return .done helpOnHelp
  | .ok arguments =>
    match ← Settings.load files env arguments.config with
    | .error e => return .failed (.settings e)
    | .ok settings =>
      match arguments.command with
      | .server bind => startServer files settings bind mint
      | .init => return prepare settings
      | .importFile file => importDefinitions files settings file
      | .showRedirections => return showRedirections settings mint

end

end Signpost.CommandLine
