import LineScript.Diagnostic.Code

/-!
# Diagnostics

A diagnostic is a failure ready to be shown: a code, a message, a place in a
script as far as it is known, notes and advice.

- `Location.text`: how a place is written.
- `Diagnostic.text`: how a diagnostic is written without colours.
-/

namespace LineScript

/-- A place in a script. Both halves may be unknown. -/
structure Location where
  path : Option String
  line : Option Nat
deriving DecidableEq, Repr

namespace Location

/-- Whether at least one half is known. -/
def isKnown (l : Location) : Bool :=
  l.path.isSome || l.line.isSome

/-- A place as it is shown. -/
def text : Location → String
  | ⟨some path, some line⟩ => path ++ ":" ++ toString line
  | ⟨some path, none⟩ => path
  | ⟨none, some line⟩ => "line " ++ toString line
  | ⟨none, none⟩ => "<unknown>"

end Location

/-- A failure as it is shown to a script's author. -/
structure Diagnostic where
  code : ErrorCode
  message : String
  location : Location
  notes : List String
  help : List String
deriving DecidableEq, Repr

/-- The diagnostic with the path of its script. -/
def Diagnostic.withPath (d : Diagnostic) (path : String) : Diagnostic :=
  { d with location := { d.location with path := some path } }

/-- A diagnostic in plain text: the message, then the place if any of it is
known, then the notes and the advice, each on a line of its own. -/
def Diagnostic.text (d : Diagnostic) : String :=
  "error[" ++ d.code.text ++ "]: " ++ d.message ++
    (if d.location.isKnown then "\n  --> " ++ d.location.text else "") ++
    String.join (d.notes.map ("\n  = note: " ++ ·)) ++
    String.join (d.help.map ("\n  = help: " ++ ·))

end LineScript
