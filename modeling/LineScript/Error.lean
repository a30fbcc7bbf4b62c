import LineScript.Diagnostic.Basic
import LineScript.Text.Arguments
import LineScript.Value.Basic

/-!
# Errors of a script

An error is a cause, the line of the instruction that failed, and the calls
that were active.

- `Cause`: what went wrong, with the names and texts that the message needs.
- `Cause.message`, `code`, `suggestion?`: what is said about a cause.
- `Error.atLine`, `Error.withBacktrace`: the first line and the first calls that
  an error meets on its way out stay with it.
- `Error.toDiagnostic`: the error as it is shown.
-/

namespace LineScript

/-- Why a script failed. -/
inductive Cause where
  /-- The first word of a line is no keyword; some keywords are like it. -/
  | unknownKeyword (keyword : String) (candidates : List String)
  /-- An `ELSE` or `END` that no block is waiting for. -/
  | strayBlockKeyword (keyword : String)
  /-- An operand without the shape that its keyword asks for. -/
  | malformedOperand (keyword reason : String)
  /-- A block without its `END`. -/
  | unterminatedBlock (keyword : String)
  /-- A jump to a place that does not exist. -/
  | invalidJump (reason : String)
  /-- A negation in the middle of an operand. -/
  | misplacedNegation (operand : String)
  /-- A return outside of a call. -/
  | returnOutsideFunction
  /-- An expression that is empty or unbalanced. -/
  | malformedExpression (reason : String)
  /-- A name that no scope declares. -/
  | undefinedVariable (name : String)
  /-- A call of a name that no scope declares. -/
  | undefinedFunction (name : String)
  /-- An assignment to a constant. -/
  | assignmentToConstant (name : String)
  /-- A constant declared as undefined. -/
  | undefinedConstant (name : String)
  /-- A call of a value that is no function. -/
  | notCallable (name : String) (found : ValueType)
  /-- A value of another type where a number is needed. -/
  | expectedNumber (keyword : String) (found : ValueType)
  /-- More nested calls than allowed. -/
  | callDepthExceeded (limit : Nat)
deriving DecidableEq, Repr

namespace Cause

/-- The code of a cause. -/
def code : Cause → ErrorCode
  | unknownKeyword .. => .e1001
  | malformedOperand .. => .e1002
  | unterminatedBlock .. => .e1003
  | invalidJump .. => .e1004
  | misplacedNegation .. => .e1005
  | returnOutsideFunction => .e1006
  | malformedExpression .. => .e1007
  | strayBlockKeyword .. => .e1008
  | undefinedVariable .. => .e2001
  | undefinedFunction .. => .e2002
  | assignmentToConstant .. => .e3001
  | undefinedConstant .. => .e3002
  | notCallable .. => .e3003
  | expectedNumber .. => .e3004
  | callDepthExceeded .. => .e4001

/-- The category of a cause. -/
def category (c : Cause) : Category :=
  c.code.category

/-- The message of a cause. -/
def message : Cause → String
  | unknownKeyword keyword _ => "Unknown operation: " ++ keyword
  | strayBlockKeyword keyword => keyword ++ " keyword without preceding IF or FUNC."
  | malformedOperand keyword reason => keyword ++ ": " ++ reason
  | unterminatedBlock keyword => keyword ++ " keyword with no corresponding END keyword."
  | invalidJump reason => "JUMP " ++ reason
  | misplacedNegation operand => "! within expression: " ++ operand
  | returnOutsideFunction => "RET outside of function"
  | malformedExpression reason => reason
  | undefinedVariable name => name ++ " is not defined."
  | undefinedFunction name => name ++ " is not defined."
  | assignmentToConstant _ => "Assignment to constant variable."
  | undefinedConstant _ => "Value type of constant variable declaration cannot be undefined."
  | notCallable name found => name ++ " is not a function (found " ++ found.name ++ ")"
  | expectedNumber keyword found => keyword ++ " expects a number, found " ++ found.name
  | callDepthExceeded limit =>
    "Maximum call stack size exceeded (" ++ toString limit ++ " calls)"

/-- A text between back quotes. -/
def ticked (s : String) : String :=
  "`" ++ s ++ "`"

/-- How the script may be mended, where there is advice to give. -/
def suggestion? : Cause → Option String
  | unknownKeyword _ candidates =>
    if candidates.isEmpty then none
    else some ("did you mean " ++ String.intercalate ", " (candidates.map ticked) ++ "?")
  | undefinedVariable name => some ("declare it first with `DECLARE " ++ name ++ " = ...`")
  | undefinedFunction name =>
    some ("define it first with `FUNC " ++ name ++ " ...` and `END`")
  | assignmentToConstant name =>
    some ("declare " ++ ticked name ++ " without `*` if it needs to change")
  | callDepthExceeded _ => some "check that recursive functions have a base case"
  | _ => none

/-- The cause of an argument list with an unbalanced parenthesis. -/
def ofUnbalancedArguments : Text.Unbalanced → Cause
  | .opening => malformedExpression "unbalanced `(` in arguments"
  | .closing => malformedExpression "unbalanced `)` in arguments"

end Cause

/-- An active call: the label of the function and the line of the call. -/
structure Call where
  label : String
  line : Option Nat
deriving DecidableEq, Repr

/-- The calls that were active at an error, the most recent one first. -/
abbrev Backtrace := List Call

namespace Backtrace

/-- Where a call was made, if that is known. -/
def lineNote (call : Call) : String :=
  match call.line with
  | some line => " called at line " ++ toString line
  | none => ""

/-- A numbered list of the calls; nothing for no calls. -/
def text (calls : Backtrace) : String :=
  if calls.isEmpty then ""
  else "stack backtrace:\n" ++ String.join (calls.zipIdx.map fun (call, n) =>
    "  " ++ toString n ++ ": " ++ call.label ++ lineNote call ++ "\n")

end Backtrace

/-- An error of a script. -/
structure Error where
  cause : Cause
  line : Option Nat
  backtrace : Option Backtrace
deriving DecidableEq, Repr

namespace Error

/-- An error about whose place nothing is known yet. -/
def ofCause (cause : Cause) : Error :=
  ⟨cause, none, none⟩

/-- The error with a line, unless it has one already: the innermost failing
instruction is the one that is reported. -/
def atLine (e : Error) (line : Nat) : Error :=
  { e with line := some (e.line.getD line) }

/-- The error with the active calls, unless it has some already or there are
none. -/
def withBacktrace (e : Error) (calls : Backtrace) : Error :=
  if e.backtrace.isNone && !calls.isEmpty then { e with backtrace := some calls } else e

/-- The error as one line of text. -/
def text (e : Error) : String :=
  e.cause.category.name ++ ": " ++ e.cause.message

/-- The error with its line, as it stands in the report of a batch. -/
def textWithLine (e : Error) : String :=
  match e.line with
  | some line => e.text ++ " (line " ++ toString line ++ ")"
  | none => e.text

/-- The error as it is shown, with a note for every active call. -/
def toDiagnostic (e : Error) : Diagnostic where
  code := e.cause.code
  message := e.text
  location := ⟨none, e.line⟩
  notes := (e.backtrace.getD []).map fun call => "in " ++ call.label ++ Backtrace.lineNote call
  help := e.cause.suggestion?.toList

/-! ### The first place wins -/

@[simp] theorem cause_atLine (e : Error) (line : Nat) : (e.atLine line).cause = e.cause := rfl

@[simp] theorem cause_withBacktrace (e : Error) (calls : Backtrace) :
    (e.withBacktrace calls).cause = e.cause := by
  rw [withBacktrace]
  split <;> rfl

theorem atLine_atLine (e : Error) (m n : Nat) : (e.atLine m).atLine n = e.atLine m := by
  simp [atLine]

theorem withBacktrace_of_some {e : Error} {b : Backtrace} (h : e.backtrace = some b)
    (calls : Backtrace) : e.withBacktrace calls = e := by
  simp [withBacktrace, h]

end Error

end LineScript
