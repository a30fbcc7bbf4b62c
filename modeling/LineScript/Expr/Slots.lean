import LineScript.Number.Format
import LineScript.Number.Literal
import LineScript.Value.Basic

/-!
# Slots

While an expression is evaluated, each group in parentheses is replaced by a
placeholder: the number of a slot that holds the group's value, between two
marks that no source line holds.

- `placeholder`: the text that stands for a slot.
- `Slots.read?`: the value that a placeholder stands for.
- `Slots.render`: a text with the values shown in place of the placeholders.
-/

namespace LineScript

namespace Expr

/-- The character at both ends of a placeholder. -/
def slotMark : Char := '\x01'

/-- The values of the groups read so far. -/
abbrev Slots := Array Value

/-- The text that stands for slot `n`. -/
def placeholder (n : Nat) : List Char :=
  slotMark :: Number.digits n ++ [slotMark]

/-- The number that a text of digits denotes; a plus sign may precede them. -/
def slotNumber? (t : List Char) : Option Nat :=
  let ds := match t with
    | '+' :: ds => ds
    | ds => ds
  if ds.isEmpty || !ds.all Char.isDigit then none else some (Number.digitsValue ds)

namespace Slots

variable (slots : Slots)

/-- The value of the slot that a text of digits numbers. -/
def numbered? (t : List Char) : Option Value :=
  (slotNumber? t).bind fun n => slots[n]?

/-- The value that a placeholder stands for. -/
def read? : List Char → Option Value
  | [] => none
  | c :: t =>
    if c = slotMark && t.getLast? = some slotMark then slots.numbered? t.dropLast else none

/-- A sign before a placeholder: the value as a number, negated for a minus. -/
def readSigned? : List Char → Option Value
  | [] => none
  | c :: t =>
    if c = '+' || c = '-' then
      (slots.read? (Text.trimStart t)).map fun v =>
        .number (Number.signed (c = '-') v.toNumber)
    else none

/-- The parts of a text between marks with the values shown: every second part
is the number of a slot, and is shown as it stands if there is no such slot. -/
def renderParts : List (List Char) → List Char
  | [] => []
  | [text] => text
  | text :: number :: rest =>
    let shown := match slots.numbered? number with
      | some v => ['('] ++ v.text.toList ++ [')']
      | none => number
    text ++ shown ++ renderParts rest

/-- A text with every placeholder shown as its value in parentheses. -/
def render (t : List Char) : List Char :=
  slots.renderParts (Text.pieces (· = slotMark) t)

end Slots

end Expr

end LineScript
