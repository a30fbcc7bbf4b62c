import LineScript.Machine.Block
import LineScript.Program.Layout

/-!
# Functions and calls

A function keeps the lines of its body only. Its parameters are bound in a child
of the scope that calls it, so a body sees the bindings of its caller.

- `defineFunction`: make a function from a header and the lines that follow.
- `invoke`: call a function with the texts of its arguments.
- `callExpression`: perform the call that an operand describes.
-/

namespace LineScript

/-- How a nested block is executed. -/
abbrev Runner := Block → Exec Outcome

/-- The name that leaves a function unnamed. -/
def anonymousName : String := "_"

/-- The lines of a block up to but excluding its `END`, from `start` on, and the
position of the `END`. -/
def bodyFrom (b : Block) (start : Nat) : Exec (List Instruction × Nat) := do
  let layout ← Exec.ofOption (.unterminatedBlock functionKeyword) (layout? b.code start)
  return ((b.code.take layout.endAt).drop start, layout.endAt)

/-- Make a function from a header and the lines after the line at hand. A named
function is bound in the scope of the line. Gives the function and the position
of its `END`. -/
def defineFunction (inv : Invocation) (header : List Char) : Exec (Function × Nat) := do
  match (Text.words header).map String.ofList with
  | [] => Exec.fail (.malformedOperand functionKeyword "expected a function name or `_`")
  | name :: params =>
    let (body, endAt) ← bodyFrom inv.block (inv.index + 1)
    let id ← Exec.freshId
    let f : Function := ⟨id, if name = anonymousName then none else some name, params, body⟩
    match f.name with
    | some name => Exec.declare inv.scope name ⟨.function f, false⟩
    | none => pure ()
    return (f, endAt)

/-- The values of the arguments, one for each parameter, evaluated in the scope
of the caller. A missing argument is undefined; a surplus one is not evaluated. -/
def argumentValues (caller : ScopeId) : List String → List String → Exec (List Value)
  | [], _ => pure []
  | _ :: params, [] => do
    let values ← argumentValues caller params []
    return .undefined :: values
  | _ :: params, arg :: args => do
    let v ← Exec.evaluate caller arg
    let values ← argumentValues caller params args
    return v :: values

/-- Bind parameters to values, in order. -/
def bindParameters (scope : ScopeId) : List (String × Value) → Exec Unit
  | [] => pure ()
  | (param, v) :: rest => do
    Exec.declare scope param ⟨v, false⟩
    bindParameters scope rest

/-- The value of a call whose body ended so. -/
def Outcome.callValue : Outcome → Value
  | .returned v => v
  | .completed | .escaped _ => .undefined

/-- Call a function from a scope. An error inside the body gets the calls that
are active there. -/
def invoke (runner : Runner) (caller : ScopeId) (f : Function) (args : List String) (line : Nat) :
    Exec Value := do
  let values ← argumentValues caller f.params args
  Exec.inCall ⟨f.label, some line⟩ <| Exec.inChild caller fun scope => do
    bindParameters scope (f.params.zip values)
    let outcome ← (runner (.root f.body scope)).mapError fun s e => s.calls.attach e
    return outcome.callValue

/-- The function that a name is bound to. -/
def lookupFunction (scope : ScopeId) (name : String) : Exec Function := do
  let s ← Exec.get
  match s.env.find? scope name with
  | none => Exec.fail (.undefinedFunction name)
  | some ⟨.function f, _⟩ => return f
  | some ⟨v, _⟩ => Exec.fail (.notCallable name v.type)

/-- Perform the call that an operand describes. Gives the value of the call, and
where execution goes on: after the `END` of an inline definition, and otherwise
at the next line. -/
def callExpression (runner : Runner) (inv : Invocation) (operand : List Char) :
    Exec (Value × Control) := do
  match ← Exec.ofExcept (Expr.splitArguments operand) with
  | [] => Exec.fail (.malformedOperand callKeyword "expected a function to call")
  | callee :: args =>
    let (f, control) ← (do
      match inlineHeader? callee with
      | some header =>
        let (f, endAt) ← defineFunction inv header
        return (f, Control.goto (inv.block.origin + endAt + 1))
      | none =>
        let f ← lookupFunction inv.scope (String.ofList callee)
        return (f, Control.next) : Exec (Function × Control))
    let v ← invoke runner inv.scope f (args.map String.ofList) inv.line
    return (v, control)

end LineScript
