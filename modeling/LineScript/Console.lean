import LineScript.Text.Blank

/-!
# Console of a host

A host may ask its user on a console: for a line, or for a decision. Prompts go
to the output, answers are lines of the input.

- `Console.readLine`: the next line of the input.
- `Console.ask`, `askAll`: what requests print and which answers they get.
-/

namespace LineScript

namespace Console

/-- What a host asks of a console. -/
inductive Request where
  /-- A line of text. -/
  | input (prompt : String)
  /-- A decision. -/
  | query (question : String)
  /-- A message to show. -/
  | output (message : String)
deriving DecidableEq, Repr

/-- What a console answers. -/
inductive Answer where
  /-- A line, or nothing at the end of the input. -/
  | line (text : Option String)
  /-- A decision. -/
  | decision (yes : Bool)
  /-- Nothing. -/
  | done
deriving DecidableEq, Repr

/-- The next line of the input without its line ends, and the input after it. -/
def readLine (input : List Char) : Option (List Char) × List Char :=
  if input.isEmpty then (none, [])
  else
    match Text.cutAt (· = '\n') input with
    | some (line, rest) => (some (stripEnds line), rest)
    | none => (some (stripEnds input), [])
where
  /-- The line without carriage returns at its end. -/
  stripEnds (line : List Char) : List Char :=
    (line.reverse.dropWhile fun c => c = '\r' || c = '\n').reverse

/-- Whether a line says yes. Blanks around it and ASCII case do not count. -/
def saysYes (line : List Char) : Bool :=
  let word := (Text.trim line).map Char.toLower
  word = ['y'] || word = "yes".toList

/-- What a request prints, its answer, and the input after it. -/
def ask (input : List Char) : Request → String × Answer × List Char
  | .input prompt =>
    let (line, rest) := readLine input
    (prompt ++ " ", .line (line.map String.ofList), rest)
  | .query question =>
    let (line, rest) := readLine input
    (question ++ " [y/N] ", .decision (line.any saysYes), rest)
  | .output message => (message ++ "\n", .done, input)

/-- What requests print, and their answers, in order. -/
def askAll : List Char → List Request → String × List Answer
  | _, [] => ("", [])
  | input, r :: rs =>
    let (printed, answer, rest) := ask input r
    let (more, answers) := askAll rest rs
    (printed ++ more, answer :: answers)

end Console

end LineScript
