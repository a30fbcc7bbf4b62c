import LineScript.Text.Blank

/-!
# Lines

A text is cut into lines at each line feed. One carriage return right before
the line feed belongs to the line's end, and a text that ends with a line feed
has no further, empty line.
-/

namespace LineScript

namespace Text

/-- The line without one carriage return at its end. -/
def dropReturn (line : List Char) : List Char :=
  if line.getLast? = some '\r' then line.dropLast else line

/-- The lines among the parts between line feeds: every part but the last was
ended by a line feed, and the last counts only if it holds something. -/
def linesOfPieces : List (List Char) → List (List Char)
  | [] => []
  | [last] => if last.isEmpty then [] else [last]
  | line :: next :: rest => dropReturn line :: linesOfPieces (next :: rest)

/-- The lines of a text, without their ends. -/
def lines (t : List Char) : List (List Char) :=
  linesOfPieces (pieces (· = '\n') t)

end Text

end LineScript
