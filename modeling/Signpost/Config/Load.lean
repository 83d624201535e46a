import Signpost.Config.Settings
import Signpost.Definition.Bundle

/-!
# Loading from files

Settings and bundles are read from files.  What a file system answers is given by `Files`, whose
answers may come from anywhere, so that loading itself is a plain function of them.

## Main definitions

* `Files`: what a file system answers.
* `Settings.locate`: the settings file that is used when none is named.
* `Settings.load`, `Bundle.load`, `LoadError`
-/

namespace Signpost

open Json (Decoder Fault)

/-- What a file system answers. -/
structure Files (m : Type → Type) where
  /-- The text of a file that can be read. -/
  read? : String → m (Option String)
  /-- Whether there is a file or a directory. -/
  exists? : String → m Bool

/-- Why a file cannot be loaded. -/
inductive LoadError where
  | unreadable (path : String)
  | refused (path : String) (fault : Fault)
deriving DecidableEq

/-- The name of the kind of a load error. -/
def LoadError.kind : LoadError → String
  | .unreadable _ => "io"
  | .refused _ fault => fault.kind

/-- The wording of a load error, for what the file holds. -/
def LoadError.message (content : String) : LoadError → String
  | .unreadable path => "reading " ++ content ++ " " ++ path
  | .refused path _ => "parsing " ++ content ++ " " ++ path

/-- A path below another one; below the empty path it stands alone. -/
def joinPath (base name : String) : String :=
  if base.isEmpty || base.toList.getLast? == some '/' then base ++ name else base ++ "/" ++ name

section
variable {m : Type → Type} [Monad m]

/-- Reads a file and makes something of its text. -/
def Files.load {α : Type} (files : Files m) (path : String) (parse : String → Except Fault α) :
    m (Except LoadError α) := do
  match ← files.read? path with
  | none => return .error (.unreadable path)
  | some text => return (parse text).mapError (.refused path)

namespace Settings

/-- What settings files hold, in the wording of errors. -/
def content : String := "config"

/-- The settings file that is used when none is named: the one of the environment, then one below
the user's configuration directory, then one in the working directory. -/
def locate (files : Files m) (env : Environment) : m (Option String) := do
  match env "REGISTRY_CONFIG" with
  | some path => return some path
  | none =>
    match env "XDG_CONFIG_HOME" with
    | none => inWorkingDirectory
    | some home =>
      let path := joinPath (joinPath home "unicity") "registry.json"
      if ← files.exists? path then return some path else inWorkingDirectory
where
  /-- The settings file of the working directory. -/
  inWorkingDirectory : m (Option String) := do
    if ← files.exists? "registry.json" then return some "registry.json" else return none

/-- The settings of the named file, else of the one that is located, else the default ones. -/
def load (files : Files m) (env : Environment) (named : Option String) :
    m (Except LoadError Settings) := do
  let path ← match named with
    | some path => pure (some path)
    | none => locate files env
  match path with
  | some path => files.load path (ofText env)
  | none => return .ok (default env)

end Settings

namespace Bundle

/-- What bundle files hold, in the wording of errors. -/
def content : String := "definitions"

/-- The bundle in a file. -/
def load (files : Files m) (path : String) : m (Except LoadError Bundle) :=
  files.load path (Json.decodeText (decode true))

end Bundle

end

end Signpost
