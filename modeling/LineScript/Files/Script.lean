import LineScript.Files.Tree
import LineScript.Program.Source

/-!
# Script files

- `isScript`: whether a path names a script.
- `Files.readText`, `load`: the text and the program of a file.
- `LoadError.message`: why a file could not be loaded.
-/

namespace LineScript

/-- The extension of scripts. -/
def scriptExtension : String := "qc"

/-- The extension of a name: what follows its last dot, unless that dot comes
first. -/
def extension? (name : String) : Option (List Char) :=
  match (Text.pieces (· = '.') name.toList).reverse with
  | [] | [_] | [_, []] => none
  | last :: _ => some last

/-- Whether a name is that of a script. The case of ASCII letters does not
count. -/
def isScriptName (name : String) : Bool :=
  match extension? name with
  | some e => e.map Char.toLower = scriptExtension.toList
  | none => false

/-- Whether a path names a script: its last name is that of a script. -/
def isScript (path : String) : Bool :=
  match (pathNames path).getLast? with
  | some name => name ≠ ".." && isScriptName name
  | none => false

/-- Why a file could not be read. -/
inductive ReadFault where
  | isDirectory
  | notDirectory
  | notText
deriving DecidableEq, Repr

/-- What is said about a file that could not be read. -/
def ReadFault.text : ReadFault → String
  | .isDirectory => "Is a directory (os error 21)"
  | .notDirectory => "Not a directory (os error 20)"
  | .notText => "stream did not contain valid UTF-8"

/-- Why a script could not be loaded from a path. -/
inductive LoadError where
  | notFound (path : String)
  | read (path : String) (fault : ReadFault)
deriving DecidableEq, Repr

namespace LoadError

/-- The path that could not be loaded. -/
def path : LoadError → String
  | notFound path => path
  | read path _ => path

/-- What is said about a script that could not be loaded. -/
def message : LoadError → String
  | notFound path => "file not found: " ++ path
  | read path fault => "failed to read " ++ path ++ ": " ++ fault.text

end LoadError

namespace Files

/-- The text of the file at a path. -/
def readText (fs : Files) (path : String) : Except LoadError String :=
  match fs.resolve path with
  | .error .notFound => .error (.notFound path)
  | .error .notDirectory => .error (.read path .notDirectory)
  | .ok (.directory _) => .error (.read path .isDirectory)
  | .ok (.file bytes) =>
    match String.fromUTF8? bytes with
    | some s => .ok s
    | none => .error (.read path .notText)

/-- The program of the file at a path. -/
def load (fs : Files) (path : String) : Except LoadError Program :=
  (fs.readText path).map Program.ofSource

end Files

end LineScript
