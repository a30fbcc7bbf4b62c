import LineScript.Number.Remainder
import LineScript.Value.Equality

/-!
# Operators

- `Operator.ofToken?`: the operator that a word denotes.
- `Operator.tier`: how weakly an operator binds; a smaller tier binds weaker.
- `Operator.apply`: the value of an operator for two values.
- `exists_token`: every operator is denoted by some token.
-/

namespace LineScript

/-- A binary operator. -/
inductive Operator where
  | or
  | and
  | notEq
  | eq
  | strictNotEq
  | strictEq
  | gtEq
  | gt
  | ltEq
  | lt
  | sub
  | add
  | mod
  | mul
  | div
  | pow
deriving DecidableEq, Repr

namespace Operator

/-- The tokens, each with its operator. Multiplication has two. -/
def tokens : List (String × Operator) :=
  [("||", or), ("&&", and), ("!=", notEq), ("==", eq), ("!==", strictNotEq), ("===", strictEq),
    (">=", gtEq), (">", gt), ("<=", ltEq), ("<", lt), ("-", sub), ("+", add), ("%", mod),
    ("*", mul), ("of", mul), ("/", div), ("**", pow)]

/-- The operator that a word denotes. -/
def ofToken? (token : String) : Option Operator :=
  tokens.lookup token

/-- How weakly an operator binds: the operators of tier 0 bind weakest. -/
def tier : Operator → Nat
  | or => 0
  | and => 1
  | notEq | eq | strictNotEq | strictEq => 2
  | gtEq | gt | ltEq | lt => 3
  | sub | add => 4
  | mod | mul | div => 5
  | pow => 6

/-- The sum of two values: a text if either is a text or an object, and a
number otherwise. -/
def sum (l r : Value) : Value :=
  if l.isString || l.isObject || r.isString || r.isObject then .string (l.text ++ r.text)
  else .number (l.toNumber + r.toNumber)

/-- Compare two values: two texts by their code points, all else as numbers.
Every comparison with NaN is false. -/
def compare (texts : String → String → Bool) (numbers : Float → Float → Bool) (l r : Value) :
    Value :=
  match l, r with
  | .string s, .string t => .boolean (texts s t)
  | _, _ => .boolean (numbers l.toNumber r.toNumber)

/-- A power. A NaN exponent gives NaN, and so does one or minus one with an
infinite exponent. -/
def power (base exponent : Float) : Float :=
  if exponent.isNaN || (base.abs == 1.0 && exponent.isInf) then 0.0 / 0.0
  else Float.pow base exponent

/-- The value of an operator. Both operands are values already: the logical
operators choose one of them. -/
def apply (op : Operator) (l r : Value) : Value :=
  match op with
  | or => if l.isTruthy then l else r
  | and => if l.isTruthy then r else l
  | eq => .boolean (l.looseEquals r)
  | notEq => .boolean (!l.looseEquals r)
  | strictEq => .boolean (l.strictEquals r)
  | strictNotEq => .boolean (!l.strictEquals r)
  | lt => compare (fun s t => s < t) (fun x y => x < y) l r
  | ltEq => compare (fun s t => s ≤ t) (fun x y => x ≤ y) l r
  | gt => compare (fun s t => t < s) (fun x y => y < x) l r
  | gtEq => compare (fun s t => t ≤ s) (fun x y => y ≤ x) l r
  | add => sum l r
  | sub => .number (l.toNumber - r.toNumber)
  | mul => .number (l.toNumber * r.toNumber)
  | div => .number (l.toNumber / r.toNumber)
  | mod => .number (Number.remainder l.toNumber r.toNumber)
  | pow => .number (power l.toNumber r.toNumber)

/-- Every operator is denoted by some token. -/
theorem exists_token : ∀ op : Operator, ∃ token, ofToken? token = some op
  | or => ⟨"||", rfl⟩
  | and => ⟨"&&", rfl⟩
  | notEq => ⟨"!=", rfl⟩
  | eq => ⟨"==", rfl⟩
  | strictNotEq => ⟨"!==", rfl⟩
  | strictEq => ⟨"===", rfl⟩
  | gtEq => ⟨">=", rfl⟩
  | gt => ⟨">", rfl⟩
  | ltEq => ⟨"<=", rfl⟩
  | lt => ⟨"<", rfl⟩
  | sub => ⟨"-", rfl⟩
  | add => ⟨"+", rfl⟩
  | mod => ⟨"%", rfl⟩
  | mul => ⟨"*", rfl⟩
  | div => ⟨"/", rfl⟩
  | pow => ⟨"**", rfl⟩

end Operator

end LineScript
