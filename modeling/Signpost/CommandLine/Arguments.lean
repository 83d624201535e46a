/-!
# Arguments

The command line names one command, which may be preceded and followed by the settings file.
Options have a long form, whose value may follow an equals sign or be the next argument, and some
have a short form, whose value may also follow it directly.  After two hyphens alone no argument is
an option.

## Main definitions

* `CommandLine.Arguments`, `CommandLine.Verb`
* `CommandLine.parse`: reads the arguments.
* `CommandLine.help`: what is printed on request.
-/

namespace Signpost.CommandLine

/-- What the program can do. -/
inductive Verb where
  | server
  | init
  | importFile
  | showRedirections
deriving DecidableEq

namespace Verb

/-- The commands in the order in which they are listed. -/
def all : List Verb := [.server, .init, .importFile, .showRedirections]

/-- The name of a command. -/
def name : Verb → String
  | .server => "server"
  | .init => "init"
  | .importFile => "import"
  | .showRedirections => "show-redirections"

/-- What a command does, in a few words. -/
def summary : Verb → String
  | .server => "Start the administration REST server"
  | .init => "Initialize the database"
  | .importFile => "Store every definition from a bundle file"
  | .showRedirections => "Print the persisted redirection table"

/-- The command of a name. -/
def ofName? (name : String) : Option Verb := all.find? fun v => v.name == name

@[simp] theorem ofName?_name (v : Verb) : ofName? v.name = some v := by cases v <;> rfl

end Verb

/-- A command with what it needs. -/
inductive Command where
  | server (bind : Option String)
  | init
  | importFile (file : String)
  | showRedirections
deriving DecidableEq

/-- What the command line says. -/
structure Arguments where
  /-- The settings file, if one is named. -/
  config : Option String
  command : Command
deriving DecidableEq

/-- Why there is nothing to do. -/
inductive Refusal where
  /-- The arguments make no sense. -/
  | usage
  /-- Help is wanted, perhaps on a command. -/
  | help (topic : Option Verb)
  /-- Help on help is wanted. -/
  | helpOnHelp
deriving DecidableEq

/-- An option that takes a value. -/
inductive Flag where
  | config
  | bind
deriving DecidableEq

/-- What has been read of a command line. -/
structure Reader where
  verb : Option Verb
  /-- The settings file named before the command. -/
  outerConfig : Option String
  /-- The settings file named after the command. -/
  innerConfig : Option String
  bind : Option String
  file : Option String
  /-- The option whose value is due. -/
  waiting : Option Flag
  /-- Whether arguments are no options any more. -/
  literal : Bool
  /-- The topics after a request for help. -/
  topics : Option (List String)

namespace Reader

/-- Nothing has been read. -/
def start : Reader := ⟨none, none, none, none, none, none, false, none⟩

/-- Takes the value of an option, which may be given once before and once after the command, and
which may not be empty for a file. -/
def take (r : Reader) (flag : Flag) (value : String) : Except Refusal Reader :=
  let r := { r with waiting := none }
  match flag with
  | .config =>
    if value.isEmpty then .error .usage
    else
      match r.verb with
      | none =>
        if r.outerConfig.isSome then .error .usage else .ok { r with outerConfig := some value }
      | some _ =>
        if r.innerConfig.isSome then .error .usage else .ok { r with innerConfig := some value }
  | .bind => if r.bind.isSome then .error .usage else .ok { r with bind := some value }

/-- The option with a long name, where it may stand. -/
def flag? (r : Reader) (name : List Char) : Option Flag :=
  if name = "config".toList then some .config
  else if name = "bind".toList ∧ r.verb = some .server then some .bind
  else none

/-- Takes an option in its long form, without the hyphens. -/
def takeLong (r : Reader) (text : List Char) : Except Refusal Reader :=
  let name := text.takeWhile fun c => c ≠ '='
  let value := text.dropWhile fun c => c ≠ '='
  if name = "help".toList ∧ value = [] then .error (.help r.verb)
  else
    match r.flag? name with
    | none => .error .usage
    | some flag =>
      if value = [] then .ok { r with waiting := some flag }
      else r.take flag (String.ofList (value.drop 1))

/-- Takes an option in its short form, without the hyphen. -/
def takeShort (r : Reader) : List Char → Except Refusal Reader
  | 'h' :: _ => .error (.help r.verb)
  | ['c'] => .ok { r with waiting := some .config }
  | 'c' :: '=' :: value => r.take .config (String.ofList value)
  | 'c' :: value => r.take .config (String.ofList value)
  | _ => .error .usage

/-- Takes an argument that is no option: the command, or the file to import. -/
def takeBare (r : Reader) (text : String) : Except Refusal Reader :=
  match r.verb with
  | none =>
    if r.literal then .error .usage
    else if text = "help" then .ok { r with topics := some [] }
    else
      match Verb.ofName? text with
      | some verb => .ok { r with verb := some verb }
      | none => .error .usage
  | some .importFile =>
    if r.file.isSome ∨ text.isEmpty then .error .usage else .ok { r with file := some text }
  | some _ => .error .usage

/-- Takes one argument. -/
def step (r : Reader) (text : String) : Except Refusal Reader :=
  match r.topics, r.waiting, text.toList with
  | some topics, _, _ => .ok { r with topics := some (topics ++ [text]) }
  | none, some flag, cs =>
    match cs with
    | '-' :: _ :: _ => .error .usage
    | _ => r.take flag text
  | none, none, cs =>
    if r.literal then r.takeBare text
    else
      match cs with
      | ['-', '-'] => .ok { r with literal := true }
      | '-' :: '-' :: rest => r.takeLong rest
      | '-' :: c :: rest => r.takeShort (c :: rest)
      | _ => r.takeBare text

/-- What is wanted of a request for help. -/
def helpOn : List String → Refusal
  | [] => .help none
  | [topic] =>
    match Verb.ofName? topic with
    | some verb => .help (some verb)
    | none => if topic = "help" then .helpOnHelp else .usage
  | _ => .usage

/-- The command that has been read. -/
def command (r : Reader) : Except Refusal Command :=
  match r.verb with
  | none => .error .usage
  | some .server => .ok (.server r.bind)
  | some .init => .ok .init
  | some .showRedirections => .ok .showRedirections
  | some .importFile =>
    match r.file with
    | some file => .ok (.importFile file)
    | none => .error .usage

/-- The arguments, when all have been read.  The settings file named after the command counts more
than the one before it, and both count more than the one of the environment, which may not be empty
where it is looked at. -/
def finish (environment : Option String) (r : Reader) : Except Refusal Arguments := do
  match r.topics with
  | some topics => .error (helpOn topics)
  | none =>
    if r.waiting.isSome then .error .usage
    let command ← r.command
    -- the environment stands in wherever the option is not given, before the command and after it
    if environment = some "" ∧ (r.innerConfig.isNone ∨ r.outerConfig.isNone) then .error .usage
    return ⟨(r.innerConfig.or r.outerConfig).or environment, command⟩

end Reader

/-- Reads arguments, with the settings file that the environment names. -/
def parse (environment : Option String) (arguments : List String) : Except Refusal Arguments := do
  (← arguments.foldlM Reader.step Reader.start).finish environment

/-! ## Help -/

/-- A text followed by blanks up to a width. -/
def padded (text : String) (width : Nat) : String :=
  text ++ String.ofList (List.replicate (width - text.length) ' ')

/-- The options of every command, with the settings file that the environment names. -/
def optionLines (environment : Option String) : List String :=
  ["  -c, --config <CONFIG>  Path to registry.json (defaults to the standard locations) " ++
      "[env: REGISTRY_CONFIG=" ++ environment.getD "" ++ "]",
    "  -h, --help             Print help"]

/-- What is printed about one command. -/
def verbHelp (environment : Option String) (v : Verb) : List String :=
  let usage := "Usage: cluster-registry " ++ v.name ++ " [OPTIONS]"
  [v.summary, ""] ++
    (match v with
      | .importFile => [usage ++ " <FILE>", "", "Arguments:", "  <FILE>  ", ""]
      | _ => [usage, ""]) ++
    ["Options:"] ++
    (match v with
      | .server => ["      --bind <BIND>      Overrides `api.bind` from the config file"]
      | _ => []) ++
    optionLines environment

/-- What is printed about the program. -/
def programHelp (environment : Option String) : List String :=
  ["Definition resolution and cluster administration registry", "",
      "Usage: cluster-registry [OPTIONS] <COMMAND>", "", "Commands:"] ++
    Verb.all.map (fun v => "  " ++ padded v.name 17 ++ "  " ++ v.summary) ++
    ["  help               Print this message or the help of the given subcommand(s)", "",
      "Options:"] ++ optionLines environment

/-- What is printed when help is wanted. -/
def help (environment : Option String) : Option Verb → List String
  | none => programHelp environment
  | some v => verbHelp environment v

/-- What is printed about help. -/
def helpOnHelp : List String :=
  ["Print this message or the help of the given subcommand(s)", "",
    "Usage: cluster-registry help [COMMAND]...", "", "Arguments:",
    "  [COMMAND]...  Print help for the subcommand(s)"]

end Signpost.CommandLine
