import LineScript.Text.Blank

/-!
# File trees

A snapshot of files and directories, and how a path leads through it.

- `Entries`: the entries of a directory, in any order.
- `Files.resolve`: what stands at a path, or why nothing does.
-/

namespace LineScript

/-- The entries of a directory: files with their bytes, and directories. -/
inductive Entries where
  | nil
  | file (name : String) (bytes : ByteArray) (rest : Entries)
  | directory (name : String) (children : Entries) (rest : Entries)

/-- What stands at a path. -/
inductive Item where
  | file (bytes : ByteArray)
  | directory (entries : Entries)

/-- Why nothing could be read at a path. -/
inductive PathError where
  | notFound
  | notDirectory
deriving DecidableEq, Repr

namespace Entries

/-- The entry of a name. -/
def find? (name : String) : Entries → Option Item
  | nil => none
  | file n bytes rest => if n = name then some (.file bytes) else rest.find? name
  | directory n children rest => if n = name then some (.directory children) else rest.find? name

/-- The entries with a file at a path of names. Directories on the way are made
when they are missing; a file that stands in the way stays. -/
def insert (content : Option ByteArray) : List String → Entries → Entries
  | [], entries => entries
  | [name], nil =>
    match content with
    | some bytes => file name bytes nil
    | none => directory name nil nil
  | name :: path, nil => directory name (insert content path nil) nil
  | name :: path, file n bytes rest =>
    if n = name then file n (if path.isEmpty then content.getD bytes else bytes) rest
    else file n bytes (insert content (name :: path) rest)
  | name :: path, directory n children rest =>
    if n = name then directory n (insert content path children) rest
    else directory n children (insert content (name :: path) rest)

end Entries

/-- The parts of a path between slashes. -/
def pathParts (path : String) : List String :=
  (Text.pieces (· = '/') path.toList).map String.ofList

/-- The names in a path: its parts without empty ones and those that stay where
they are. -/
def pathNames (path : String) : List String :=
  (pathParts path).filter fun part => part ≠ "" ∧ part ≠ "."

/-- Whether a path starts at the root. -/
def isAbsolute (path : String) : Bool :=
  path.toList.head? = some '/'

/-- A path continued by a name. -/
def joinPath (path name : String) : String :=
  if path = "" ∨ path.toList.getLast? = some '/' then path ++ name else path ++ "/" ++ name

/-- A snapshot of files: the entries of the root directory, and the path of the
working directory from there. -/
structure Files where
  root : Entries
  workingDirectory : List String

namespace Files

/-- Follow the parts of a path from the innermost of a list of directories, each
of which is followed by the one that holds it. A file ends the way. -/
def follow : List Entries → List String → Except PathError Item
  | [], _ => .error .notFound
  | here :: _, [] => .ok (.directory here)
  | here :: above, part :: rest =>
    if part = "" ∨ part = "." then follow (here :: above) rest
    else if part = ".." then follow (if above.isEmpty then [here] else above) rest
    else
      match here.find? part with
      | none => .error .notFound
      | some (.directory entries) => follow (entries :: here :: above) rest
      | some (.file bytes) => if rest.isEmpty then .ok (.file bytes) else .error .notDirectory

/-- The item at a path. A path that starts with a slash starts at the root, and
any other path in the working directory; the empty path leads nowhere. -/
def resolve (fs : Files) (path : String) : Except PathError Item :=
  if path = "" then .error .notFound
  else if isAbsolute path then follow [fs.root] (pathParts path)
  else follow [fs.root] (fs.workingDirectory ++ pathParts path)

/-- Whether anything stands at a path. -/
def hasPath (fs : Files) (path : String) : Bool :=
  match fs.resolve path with
  | .ok _ => true
  | .error _ => false

end Files

end LineScript
