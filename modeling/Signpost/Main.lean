import Signpost.CommandLine.Run

/-!
# The program

The program runs the command of its command line on the real file system and environment.  No
transport for requests is built in, so that a node that is ready to serve says so and ends.

## Main definitions

* `Files.real`, `Environment.real`
* `main`
-/

namespace Signpost

/-- The file system. -/
def Files.real : Files IO where
  read? path := do
    try return some (← IO.FS.readFile path)
    catch _ => return none
  exists? path := do
    try
      discard (IO.FS.realPath path)
      return true
    catch _ => return false

/-- The name and the value of an entry of the environment. -/
def environmentEntry? (entry : List UInt8) : Option (String × String) := do
  let name ← String.fromUTF8? ⟨(entry.takeWhile fun b => b ≠ 61).toArray⟩
  let value ← String.fromUTF8? ⟨((entry.dropWhile fun b => b ≠ 61).drop 1).toArray⟩
  return (name, value)

/-- The entries of the environment that are text, from the form in which the system lists them: each
is followed by a byte zero. -/
def environmentEntries (listing : List UInt8) : List (String × String) :=
  (listing.splitOnP fun b => b = 0).filterMap environmentEntry?

/-- The environment of the program. -/
def Environment.real : IO Environment := do
  try
    let listing ← IO.FS.readBinFile "/proc/self/environ"
    let entries := environmentEntries listing.data.toList
    return fun name => (entries.find? fun e => e.1 == name).map Prod.snd
  catch _ => return fun _ => none

/-- A mint with a random seed. -/
def Mint.random : IO Mint := do
  let bytes ← IO.getRandomBytes 16
  return ⟨bytes.data.toList.foldl (fun n b => n * 256 + b.toNat) 0, 0⟩

open CommandLine in
/-- Prints how a run has ended. -/
def CommandLine.Outcome.report : Outcome → IO Unit
  | .refused => IO.eprintln "error: the arguments make no sense; --help tells what does"
  | .done lines => lines.forM IO.println
  | .failed e => IO.eprintln ("Error: " ++ e.message)
  | .serving address => IO.eprintln ("ready to serve requests at " ++ address)

end Signpost

open Signpost in
/-- Runs the command of the command line. -/
def main (arguments : List String) : IO UInt32 := do
  let environment ← Environment.real
  let mint ← Mint.random
  let outcome ← CommandLine.run Files.real environment mint arguments
  outcome.report
  return outcome.exitCode.toUInt32
