import LineScript.Number.Rounding
import LineScript.Program.Instruction
import LineScript.Value.Basic

/-!
# Operands

How the operands of the keywords are read, apart from the expressions in them.

- `Target.ofText`: a name with the mark of a constant.
- `splitDeclaration`, `splitAssignment`: a target and the text of a value.
- `relativeOffset?`, `positionOf`: the target of a jump.
- `waitTime`: the length of a wait.
-/

namespace LineScript

/-- A name to bind, and whether it is marked as a constant. -/
structure Target where
  id : List Char
  constant : Bool
deriving DecidableEq, Repr

/-- A target as it is written: a star marks a constant. -/
def Target.ofText : List Char → Target
  | '*' :: id => ⟨Text.trimStart id, true⟩
  | id => ⟨id, false⟩

/-- Whether a text can be bound: it is one word. -/
def isIdentifier (id : List Char) : Bool :=
  !id.isEmpty && !id.any Text.isBlank

/-- The target and the value of a declaration: the parts around the first equals
sign. Without one the value is empty. -/
def splitDeclaration (operand : List Char) : List Char × List Char :=
  match Text.cutAt (· = '=') operand with
  | some (target, value) => (Text.trim target, Text.trim value)
  | none => (operand, [])

/-- The target and the value of an assignment: the first word and the rest. An
equals sign that stands between them on its own does not count. -/
def splitAssignment (operand : List Char) : List Char × List Char :=
  match Text.cutAt Text.isBlank operand with
  | none => (operand, [])
  | some (target, rest) =>
    match Text.trimStart rest with
    | '=' :: value =>
      (target, if Text.startsBlank value then Text.trimStart value else '=' :: value)
    | value => (target, value)

/-- The offset that a sign and digits denote, if it fits in 63 bits. -/
def relativeOffset? : List Char → Option Int
  | [] => none
  | c :: ds =>
    if (c = '+' || c = '-') && !ds.isEmpty && ds.all Char.isDigit
        && Number.digitsValue ds < Nat.pow 2 63 then
      some (if c = '-' then -(Number.digitsValue ds : Int) else Number.digitsValue ds)
    else none

/-- The cause of a jump to a value that is no position. -/
inductive BadTarget where
  | fraction
  | tooLarge
deriving DecidableEq, Repr

/-- What is said about a jump whose operand has such a value. -/
def BadTarget.reason (operand : String) : BadTarget → String
  | .fraction => "`" ++ operand ++ "` does not evaluate to an integer"
  | .tooLarge => "target `" ++ operand ++ "` is out of range"

/-- The position that a number denotes: a whole number of fewer than 54 bits. -/
def positionOf (x : Float) : Except BadTarget Int :=
  match Number.integer? x with
  | none => .error .fraction
  | some n => if n.natAbs < Nat.pow 2 53 then .ok n else .error .tooLarge

/-- The greatest position that a line can have. -/
def lastPosition : Int := 9223372036854775807

/-- The longest wait, in milliseconds. -/
def longestWait : Float := 2147483647.0

/-- The length of a wait of `ms` milliseconds, in nanoseconds. Negative and too
large numbers and NaN do not wait. The seconds are a double, and its exact value
is rounded to whole nanoseconds. -/
def waitTime (ms : Float) : Nat :=
  let ms := if 0.0 ≤ ms && ms ≤ longestWait then ms else 0.0
  match Number.Binary.ofFloat? (ms / 1000.0) with
  | none => 0
  | some b =>
    Number.roundHalfEven (b.mantissa * Nat.pow 10 9 * Nat.pow 2 b.exponent.toNat)
      (Nat.pow 2 (-b.exponent).toNat)

end LineScript
