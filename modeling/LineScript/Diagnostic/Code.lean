import LineScript.Text.Blank
import LineScript.Text.Upper

/-!
# Error codes

Every failure of a script has a code. Its first digit names the category that
the script's author sees.

- `Category`: syntax, reference, type and range errors.
- `ErrorCode`: the codes, in `ErrorCode.all` in numeric order.
- `ErrorCode.ofText?`: the code that a text names, in any case.
-/

namespace LineScript

/-- The category of an error. -/
inductive Category where
  | syntaxError
  | referenceError
  | typeError
  | rangeError
deriving DecidableEq, Repr

/-- The name of a category, as shown to a script's author. -/
def Category.name : Category → String
  | .syntaxError => "SyntaxError"
  | .referenceError => "ReferenceError"
  | .typeError => "TypeError"
  | .rangeError => "RangeError"

/-- The code of an error. -/
inductive ErrorCode where
  /-- An unknown instruction keyword. -/
  | e1001
  /-- A malformed operand or identifier. -/
  | e1002
  /-- A block without its `END`. -/
  | e1003
  /-- An invalid jump target. -/
  | e1004
  /-- A negation in the middle of an operand. -/
  | e1005
  /-- A return outside of a call. -/
  | e1006
  /-- An empty or unbalanced expression. -/
  | e1007
  /-- An `ELSE` or `END` without an open block. -/
  | e1008
  /-- An identifier that is not declared. -/
  | e2001
  /-- A call of a function that is not declared. -/
  | e2002
  /-- An assignment to a constant. -/
  | e3001
  /-- A constant without a value. -/
  | e3002
  /-- A call of a value that is no function. -/
  | e3003
  /-- A value that should be a number. -/
  | e3004
  /-- Too many nested calls. -/
  | e4001
deriving DecidableEq, Repr

namespace ErrorCode

/-- Every code, in numeric order. -/
def all : List ErrorCode :=
  [e1001, e1002, e1003, e1004, e1005, e1006, e1007, e1008, e2001, e2002, e3001, e3002, e3003,
    e3004, e4001]

/-- The text of a code. -/
def text : ErrorCode → String
  | e1001 => "E1001"
  | e1002 => "E1002"
  | e1003 => "E1003"
  | e1004 => "E1004"
  | e1005 => "E1005"
  | e1006 => "E1006"
  | e1007 => "E1007"
  | e1008 => "E1008"
  | e2001 => "E2001"
  | e2002 => "E2002"
  | e3001 => "E3001"
  | e3002 => "E3002"
  | e3003 => "E3003"
  | e3004 => "E3004"
  | e4001 => "E4001"

/-- A summary in one line. -/
def summary : ErrorCode → String
  | e1001 => "unknown instruction keyword"
  | e1002 => "malformed operand or identifier"
  | e1003 => "block opened without a matching END"
  | e1004 => "invalid jump target"
  | e1005 => "negation operator in the middle of an operand"
  | e1006 => "RET outside of a function call"
  | e1007 => "empty or unbalanced expression"
  | e1008 => "ELSE or END with no open block"
  | e2001 => "identifier used before declaration"
  | e2002 => "call of an undeclared function"
  | e3001 => "assignment to a constant"
  | e3002 => "constant declared without a value"
  | e3003 => "call of a value that is not a function"
  | e3004 => "number expected"
  | e4001 => "maximum call depth exceeded"

/-- The category of a code. -/
def category : ErrorCode → Category
  | e1001 | e1002 | e1003 | e1004 | e1005 | e1006 | e1007 | e1008 => .syntaxError
  | e2001 | e2002 => .referenceError
  | e3001 | e3002 | e3003 | e3004 => .typeError
  | e4001 => .rangeError

/-- The code that a text names. Case and blanks at the ends do not count. -/
def ofText? (s : String) : Option ErrorCode :=
  let name := String.ofList (Text.upper (Text.trim s.toList))
  all.find? (fun code => code.text = name)

/-- Every code is listed. -/
theorem mem_all (code : ErrorCode) : code ∈ all := by
  cases code <;> decide

end ErrorCode

end LineScript
