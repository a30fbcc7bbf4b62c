import LineScript.Value.Basic

/-!
# Output and waits

Where the values go that a script prints, and the waits that it asks for.

- `Sink`: lines kept, values dropped, values handed on, or a console's record.
- `Sink.emit`, `Sink.lines`, `Sink.text`, `Sink.clear`.
- `Clock`: the waits so far and the instructions begun so far.
-/

namespace LineScript

/-- What happens on a console: a line is printed, or nothing is for a while. -/
inductive Event where
  | line (text : String)
  | pause (nanoseconds : Nat)
deriving DecidableEq, Repr

/-- Where printed values go. -/
inductive Sink where
  /-- The text of every value is kept. -/
  | buffer (lines : Array String)
  /-- Values are dropped. -/
  | silent
  /-- The values themselves are handed to the host. -/
  | forward (values : Array Value)
  /-- What happens on a console, in order. -/
  | console (events : Array Event)

namespace Sink

/-- The sink after a value was printed. -/
def emit (v : Value) : Sink → Sink
  | buffer lines => buffer (lines.push v.text)
  | silent => silent
  | forward values => forward (values.push v)
  | console events => console (events.push (.line v.text))

/-- The sink after a wait. Only a console shows it. -/
def pause (nanoseconds : Nat) : Sink → Sink
  | console events => console (events.push (.pause nanoseconds))
  | sink => sink

/-- The lines that a buffer keeps, oldest first. -/
def lines : Sink → List String
  | buffer lines => lines.toList
  | _ => []

/-- The lines that a buffer keeps, each ended by a line feed. -/
def text (s : Sink) : String :=
  String.join (s.lines.map (· ++ "\n"))

/-- The values that were handed to the host, oldest first. -/
def values : Sink → List Value
  | forward values => values.toList
  | _ => []

/-- What happened on a console, in order. -/
def events : Sink → List Event
  | console events => events.toList
  | _ => []

/-- The sink without the lines that it keeps. -/
def clear : Sink → Sink
  | buffer _ => buffer #[]
  | sink => sink

end Sink

/-- The waits asked for so far, in nanoseconds, and the number of instructions
begun so far. -/
structure Clock where
  waits : Array Nat
  steps : Nat
deriving DecidableEq, Repr

namespace Clock

/-- Nothing has happened yet. -/
def start : Clock :=
  ⟨#[], 0⟩

/-- The clock after a wait. -/
def sleep (c : Clock) (nanoseconds : Nat) : Clock :=
  { c with waits := c.waits.push nanoseconds }

/-- The clock after one more instruction was begun. -/
def tick (c : Clock) : Clock :=
  { c with steps := c.steps + 1 }

/-- The sum of all waits. -/
def total (c : Clock) : Nat :=
  c.waits.foldl (· + ·) 0

end Clock

end LineScript
