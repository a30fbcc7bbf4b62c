import LineScript.CommandLine

/-!
# The program

The command line is a function of the files it may need, so the program takes a
snapshot of those files, asks that function, and then does what it answers.
-/

namespace LineScript

namespace Host

/-- The entries of a directory on disk. Entries that cannot be read are left
out. -/
partial def snapshot (read : String → IO (List String × List (String × ByteArray)))
    (path : String) : IO Entries := do
  let (directories, files) ← read path
  let entries := files.foldr (fun (name, bytes) rest => Entries.file name bytes rest) .nil
  directories.foldrM (fun name rest => do
    let children ← snapshot read (joinPath path name)
    return .directory name children rest) entries

/-- Do something with a directory or file, and answer `none` if that fails. -/
def attempt {α : Type} (x : IO α) : IO (Option α) := do
  try
    return some (← x)
  catch _ => return none

/-- The names of the directories in a directory, and its files with their
bytes. -/
def readDirectory (path : String) : IO (List String × List (String × ByteArray)) := do
  let root ← IO.currentDir
  let entries ← attempt (root / path).readDir
  let mut directories := []
  let mut files := []
  for entry in (entries.getD #[]).toList do
    if ← entry.path.isDir then directories := entry.fileName :: directories
    else if let some bytes ← attempt (IO.FS.readBinFile entry.path) then
      files := (entry.fileName, bytes) :: files
  return (directories, files)

/-- The path of a list of names from the root. -/
def absolutePath (names : List String) : String :=
  "/" ++ String.intercalate "/" names

/-- Put what stands at a path into a snapshot: a file, or a directory with what
is in it if `deep` is set. A part of the path that is a file ends it. -/
def addPath (deep : Bool) (fs : Files) (path : String) : IO Files := do
  let start := if isAbsolute path then [] else fs.workingDirectory
  let root ← IO.currentDir
  let mut fs := fs
  let mut here := start
  for part in pathParts path do
    if part = ".." then here := here.dropLast
    else if part ≠ "" ∧ part ≠ "." then
      here := here ++ [part]
      let file := root / absolutePath here
      if ← file.isDir then fs := { fs with root := fs.root.insert none here }
      else
        if let some bytes ← attempt (IO.FS.readBinFile file) then
          fs := { fs with root := fs.root.insert (some bytes) here }
        return fs
  if deep then
    let entries ← snapshot readDirectory (absolutePath here)
    return { fs with root := graft here entries fs.root }
  else return fs
where
  /-- Put the entries of a directory at a path of names. -/
  graft : List String → Entries → Entries → Entries
    | [], entries, _ => entries
    | _ :: _, _, .nil => .nil
    | name :: path, entries, .file n bytes rest =>
      .file n bytes (graft (name :: path) entries rest)
    | name :: path, entries, .directory n children rest =>
      if n = name then .directory n (graft path entries children) rest
      else .directory n children (graft (name :: path) entries rest)

/-- The files that a command may need: those at every argument that may be a
path, and for a batch the working directory. -/
def snapshotFor (arguments : List String) : IO Files := do
  let names := pathNames (← IO.currentDir).toString
  let fs : Files := ⟨Entries.nil.insert none names, names⟩
  let deep := arguments.head? = some "test"
  let paths := arguments.filter fun a => !CommandLine.isOption a
  (if deep then "." :: paths.drop 1 else paths).foldlM (addPath deep) fs

/-- Let an event happen. -/
def perform : Event → IO Unit
  | .line text => do
    let output ← IO.getStdout
    output.putStrLn text
    output.flush
  | .pause nanoseconds => IO.sleep (UInt32.ofNat (nanoseconds / 1000000))

end Host

end LineScript

/-- Run the command line. -/
def main (arguments : List String) : IO UInt32 := do
  let files ← LineScript.Host.snapshotFor arguments
  let errors ← IO.getStderr
  let report := LineScript.CommandLine.execute ⟨files, ← errors.isTty, Nat.pow 10 18⟩ arguments
  for event in report.events do
    LineScript.Host.perform event
  errors.putStr report.errorOutput
  return UInt32.ofNat report.exitCode
