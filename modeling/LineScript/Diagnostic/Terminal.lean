import LineScript.Diagnostic.Basic

/-!
# Diagnostics on a terminal

A diagnostic is written line by line, with a blank line after it. With colours,
some of its parts stand between the escape sequences of a style.

- `ColorMode.resolve`: whether colours are used.
- `Diagnostic.render`: a diagnostic as it is written to a terminal.
- `Emitter.emit`: what has been written after one more diagnostic.
-/

namespace LineScript

/-- When to use colours. -/
inductive ColorMode where
  | auto
  | always
  | never
deriving DecidableEq, Repr

/-- Whether a mode uses colours, given whether the output is a terminal. -/
def ColorMode.resolve (mode : ColorMode) (terminal : Bool) : Bool :=
  match mode with
  | .auto => terminal
  | .always => true
  | .never => false

/-- A style of text on a terminal. -/
inductive Style where
  | red
  | blue
  | cyan
  | green
  | bold
deriving DecidableEq, Repr

/-- The escape sequence that turns a style on. -/
def Style.code : Style → String
  | .red => "\x1b[1;31m"
  | .blue => "\x1b[1;34m"
  | .cyan => "\x1b[1;36m"
  | .green => "\x1b[1;32m"
  | .bold => "\x1b[1m"

/-- The escape sequence that turns every style off. -/
def styleReset : String := "\x1b[0m"

/-- A text in a style, when colours are used. -/
def paint (colors : Bool) (style : Style) (text : String) : String :=
  if colors then style.code ++ text ++ styleReset else text

namespace Diagnostic

/-- A line with a label in a style. -/
def labelled (colors : Bool) (style : Style) (label text : String) : String :=
  "  = " ++ paint colors style label ++ ": " ++ text ++ "\n"

/-- A diagnostic as it is written to a terminal. -/
def render (colors : Bool) (d : Diagnostic) : String :=
  paint colors .red "error" ++ paint colors .bold ("[" ++ d.code.text ++ "]") ++ ": " ++
    d.message ++ "\n" ++
    (if d.location.isKnown then "  --> " ++ paint colors .blue d.location.text ++ "\n" else "") ++
    String.join (d.notes.map (labelled colors .cyan "note")) ++
    String.join (d.help.map (labelled colors .green "help")) ++ "\n"

end Diagnostic

/-- An emitter of diagnostics: whether it uses colours, and what it has written. -/
structure Emitter where
  colors : Bool
  written : String
deriving DecidableEq, Repr

namespace Emitter

/-- An emitter that has written nothing. -/
def new (colors : Bool) : Emitter :=
  ⟨colors, ""⟩

/-- Write a diagnostic. -/
def emit (e : Emitter) (d : Diagnostic) : Emitter :=
  { e with written := e.written ++ d.render e.colors }

end Emitter

end LineScript
