import LineScript.Error
import LineScript.Expr.Chain
import LineScript.Expr.Slots
import LineScript.Text.Arguments

/-!
# Evaluation of an expression

An expression is evaluated from its text:

1. A text that is one literal is that text.
2. Every group in parentheses is evaluated when its closing parenthesis is
   reached and replaced by a placeholder.
3. What is left is a chain of operands, grouped by the tiers of its operators.
4. An operand is a run of negations before a literal, a placeholder, a constant,
   a number or a name.

- `operandValue`: the value of one operand.
- `treeValue`: the value of a tree, its operands from left to right.
- `Reading.step`, `substitute`: groups replaced by placeholders.
- `evaluate`: the value of an expression, given the values of names.
- `splitArguments`: the argument texts of a call.
-/

namespace LineScript

namespace Expr

/-- The value of every name that has one. -/
abbrev Lookup := String → Option Value

/-- The constants that are written as words. -/
def constant? (t : List Char) : Option Value :=
  if t = "true".toList then some (.boolean true)
  else if t = "false".toList then some (.boolean false)
  else if t = "undefined".toList then some .undefined
  else if t = "NaN".toList then some (.number (0.0 / 0.0))
  else none

section

variable (lookup : Lookup) (slots : Slots)

/-- The value of an operand without negations that is no literal. -/
def atomValue (t : List Char) : Except Cause Value :=
  match slots.read? t with
  | some v => .ok v
  | none =>
    match constant? t with
    | some v => .ok v
    | none =>
      match Number.literal? t with
      | some x => .ok (.number x)
      | none =>
        match slots.readSigned? t with
        | some v => .ok v
        | none =>
          match lookup (String.ofList t) with
          | some v => .ok v
          | none => .error (.undefinedVariable (String.ofList (slots.render t)))

/-- The value of an operand. An odd number of negations negates, an even number
keeps the value; a negation anywhere else is an error. -/
def operandValue (operand : List Char) : Except Cause Value :=
  let t := Text.trim operand
  if t.isEmpty then .error (.malformedExpression "missing operand")
  else
    let atom := t.dropWhile (· = '!')
    let negations := t.length - atom.length
    let atom := Text.trimStart atom
    if atom.isEmpty then .error (.malformedExpression "`!` without an operand")
    else
      let value : Except Cause Value :=
        match Quoted.literal? atom with
        | some s => .ok (.string (String.ofList s))
        | none =>
          if atom.contains '!' then .error (.misplacedNegation (String.ofList t))
          else atomValue lookup slots atom
      value.map fun v => if negations % 2 = 1 then .boolean (!v.isTruthy) else v

/-- The value of a tree. Operands are evaluated from left to right, and the
first that fails decides. -/
def treeValue : Tree (List Char) → Except Cause Value
  | .leaf operand => operandValue lookup slots operand
  | .node op l r => do
    let x ← treeValue l
    let y ← treeValue r
    return op.apply x y

/-- The value of a text without parentheses. -/
def flatValue (t : List Char) : Except Cause Value :=
  treeValue lookup slots (Chain.ofText t).tree

/-- The value of a group's content: a text that is not blank and in which all
inner groups are placeholders. -/
def groupValue (content : List Char) : Except Cause Value :=
  let t := Text.trim content
  match Quoted.literal? t with
  | some s => .ok (.string (String.ofList s))
  | none => flatValue lookup slots t

end

/-! ### Groups -/

/-- A text read up to some point: the characters since the innermost open
parenthesis, the characters before each open parenthesis, the innermost first,
and the values of the closed groups. Characters are kept last one first. -/
structure Reading where
  current : List Char
  opened : List (List Char)
  slots : Slots

/-- Nothing read yet. -/
def Reading.start : Reading :=
  ⟨[], [], #[]⟩

section

variable (lookup : Lookup)

/-- Close the innermost group: its content becomes a value in a new slot. -/
def Reading.close (r : Reading) : Except Cause Reading :=
  match r.opened with
  | [] => .error (.malformedExpression "unbalanced `)`")
  | before :: opened =>
    let content := r.current.reverse
    if (Text.trim content).isEmpty then .error (.malformedExpression "empty parentheses")
    else (groupValue lookup r.slots content).map fun v =>
      ⟨(placeholder r.slots.size).reverse ++ before, opened, r.slots.push v⟩

/-- Read one more character. Only parentheses outside all literals group. -/
def Reading.step (r : Reading) (m : Marked) : Except Cause Reading :=
  if m.2 && m.1 = '(' then .ok ⟨[], r.current :: r.opened, r.slots⟩
  else if m.2 && m.1 = ')' then r.close lookup
  else .ok { r with current := m.1 :: r.current }

/-- The text with a placeholder for every group, and the values of the groups. -/
def substitute (t : List Char) : Except Cause (List Char × Slots) := do
  let r ← (Quoted.mark .outside t).foldlM (Reading.step lookup) Reading.start
  if r.opened.isEmpty then return (r.current.reverse, r.slots)
  else throw (.malformedExpression "unbalanced `(`")

/-- The value of an expression. -/
def evaluate (text : String) : Except Cause Value :=
  let t := Text.trim text.toList
  if t.isEmpty then .error (.malformedExpression "empty expression")
  else
    match Quoted.literal? t with
    | some s => .ok (.string (String.ofList s))
    | none => do
      let (flat, slots) ← substitute lookup t
      flatValue lookup slots flat

end

/-- The texts of the arguments of a call. -/
def splitArguments (t : List Char) : Except Cause (List (List Char)) :=
  (Text.arguments t).mapError Cause.ofUnbalancedArguments

end Expr

end LineScript
