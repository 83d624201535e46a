import Signpost.Config.Load

/-!
# File trees

A file tree is a small file system that is a value.  It has files and directories below a root
directory; paths lead into it from the root, whose name they begin with, or from the working
directory.  A path is followed segment by segment, each of which but the last has to be that of a
directory.

## Main definitions

* `FileTree`, `FileTree.follow`
* `FileTree.files`: what the tree answers.
-/

namespace Signpost

/-- Files and directories below a root directory. -/
structure FileTree where
  /-- The name of the root directory, with which absolute paths begin. -/
  root : String
  /-- Texts of files, and directories without one, by their segments below the root. -/
  entries : List (List String × Option String)
  /-- The segments of the working directory, if it is below the root. -/
  working : Option (List String)

namespace FileTree

/-- The tree of some files, with their texts, and directories, without. -/
def of (root : String) (entries : List (String × Option String)) (working : Option String) :
    FileTree :=
  let segments (path : String) := (path.splitOn "/").filter fun s => s ≠ ""
  ⟨root, entries.map fun e => (segments e.1, e.2), working.map segments⟩

/-- Whether segments are those of a directory: the root, the working directory, a directory of its
own, or one that has an entry below it. -/
def isDirectory (t : FileTree) (path : List String) : Bool :=
  path.isEmpty || t.working == some path || t.entries.any fun e =>
    path.isPrefixOf e.1 && (path != e.1 || e.2.isNone)

/-- The text of a file. -/
def text? (t : FileTree) (path : List String) : Option String :=
  (t.entries.find? fun e => e.1 == path).bind Prod.snd

/-- One segment further from a directory. -/
def enter (t : FileTree) (path : List String) (segment : String) : Option (List String) :=
  if !t.isDirectory path then none
  else if segment = "" ∨ segment = "." then some path
  else if segment = ".." then if path.isEmpty then none else some path.dropLast
  else some (path ++ [segment])

/-- Where a path leads to. -/
def follow (t : FileTree) (path : String) : Option (List String) :=
  match path.splitOn "/" with
  | [] => none
  | first :: rest =>
    if first = t.root then rest.foldlM t.enter []
    else if first = "" then none
    else t.working.bind fun start => (first :: rest).foldlM t.enter start

/-- What the tree answers. -/
def files (t : FileTree) : Files Id where
  read? path := (t.follow path).bind t.text?
  exists? path := match t.follow path with
    | some segments => t.isDirectory segments || (t.text? segments).isSome
    | none => false

end FileTree

end Signpost
