import LineScript.Program.Instruction
import LineScript.Text.Lines

/-!
# Programs and their source text

Only the lines between a begin marker and a terminate marker are executable.
Inside that region blank lines and comments are dropped and every line is
trimmed; all other text is free.

- `Program.ofSource`: the instructions of a source text, each with the number
  of its line.
-/

namespace LineScript

/-- The line that opens the executable region starts with this. -/
def beginMarker : String := "%-- BEGIN EXECUTION --%"

/-- The line that closes the executable region starts with this. -/
def terminateMarker : String := "%-- TERMINATE EXECUTION --%"

/-- A comment line starts with this. -/
def commentMarker : String := "//"

/-- Whether a line starts with a marker. -/
def startsWith (line : List Char) (marker : String) : Bool :=
  marker.toList.isPrefixOf line

/-- The executable lines of a source text, in order. -/
structure Program where
  instructions : List Instruction
deriving DecidableEq, Repr

/-- Whether a trimmed line of the executable region is an instruction. -/
def isExecutable (line : List Char) : Bool :=
  !line.isEmpty && !startsWith line commentMarker

/-- The greatest number that a line has: the lines after that one have it as
well. -/
def lastLine : Nat := 4294967295

/-- The instructions among numbered lines, where `within` says whether the
region is open. A begin marker opens it, also when it is open already; the
first terminate marker ends the program. -/
def executableLines : Bool → List (List Char × Nat) → List Instruction
  | _, [] => []
  | within, (raw, number) :: rest =>
    let line := Text.trim raw
    if startsWith line beginMarker then executableLines true rest
    else if startsWith line terminateMarker then []
    else if within && isExecutable line then
      ⟨String.ofList line, min number lastLine⟩ :: executableLines within rest
    else executableLines within rest

/-- The program of a source text. Lines are numbered from one. -/
def Program.ofSource (source : String) : Program :=
  ⟨executableLines false ((Text.lines source.toList).zipIdx 1)⟩

end LineScript
