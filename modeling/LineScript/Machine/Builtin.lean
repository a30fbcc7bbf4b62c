import LineScript.Keyword.Table
import LineScript.Machine.Call
import LineScript.Machine.Operand

/-!
# Built-in keywords

- `Builtin`: the keywords of the language.
- `Builtin.run`: what a line with such a keyword does.
- `Handler`: what a keyword of a machine does; a host may bring its own.
- `standardTable`: the keywords of the language, in a table.
-/

namespace LineScript

/-- A keyword of the language that does something when it is reached. -/
inductive Builtin where
  | declare
  | assign
  | jump
  | wait
  | conditional
  | ignore
  | output
  | function
  | call
  | leave
deriving DecidableEq, Repr

namespace Builtin

/-- The words of the keywords. -/
def words : List (String × Builtin) :=
  [(declareKeyword, declare), ("ASSIGN", assign), ("JUMP", jump), ("WAIT", wait),
    (ifKeyword, conditional), ("IGNORE", ignore), ("STD::OUT", output),
    (functionKeyword, function), (callKeyword, call), ("RET", leave)]

/-- `DECLARE [*]name [= value]`: bind a name in the scope at hand. The value may
be a call. A constant needs a value other than undefined. -/
def runDeclare (runner : Runner) (inv : Invocation) : Exec Control := do
  let (targetText, valueText) := splitDeclaration inv.operand.toList
  let target := Target.ofText targetText
  if !isIdentifier target.id then
    Exec.fail (.malformedOperand declareKeyword
      ("`" ++ String.ofList targetText ++ "` is not a valid identifier"))
  else
    let (v, control) ← (do
      if valueText.isEmpty then return (.undefined, .next)
      else
        match stripKeyword? valueText callKeyword with
        | some operand => callExpression runner inv operand
        | none => do
          let v ← Exec.evaluate inv.scope (String.ofList valueText)
          return (v, .next) : Exec (Value × Control))
    let id := String.ofList target.id
    if target.constant && v = .undefined then Exec.fail (.undefinedConstant id)
    else
      Exec.declare inv.scope id ⟨v, target.constant⟩
      return control

/-- `ASSIGN [*]name [=] value`: give a name a new value where it is bound. A star
makes it a constant from then on. -/
def runAssign (inv : Invocation) : Exec Control := do
  let (targetText, valueText) := splitAssignment inv.operand.toList
  let target := Target.ofText targetText
  let id := String.ofList target.id
  if !isIdentifier target.id then
    Exec.fail (.malformedOperand "ASSIGN" "expected a variable identifier")
  else
    let s ← Exec.get
    match s.env.find? inv.scope id with
    | none => Exec.fail (.undefinedVariable id)
    | some b =>
      if b.constant then Exec.fail (.assignmentToConstant id)
      else
        let v ← Exec.evaluate inv.scope (String.ofList valueText)
        Exec.modify fun s =>
          { s with env := (s.env.rebind? inv.scope id fun _ => ⟨v, target.constant⟩).getD s.env }
        return .next

/-- Go on after position `target`; position -1 is the one before the first
line, and there is none after the last position. -/
def resumeAfter (target : Int) : Exec Control :=
  if target < -1 then
    Exec.fail (.invalidJump ("target " ++ toString target ++ " is before the start"))
  else if lastPosition ≤ target then
    Exec.fail (.invalidJump ("target " ++ toString target ++ " is out of range"))
  else return .goto (target + 1).toNat

/-- `JUMP [offset | value]`: go on after the line that is `offset` lines away, or
after the line at a position of the root list. An offset leads to the last position
at the furthest. -/
def runJump (inv : Invocation) : Exec Control := do
  if inv.operand.isEmpty then return .next
  else if lastPosition < inv.absolute then
    Exec.fail (.invalidJump "instruction index out of range")
  else
    match relativeOffset? inv.operand.toList with
    | some offset => resumeAfter (min (inv.absolute + offset) lastPosition)
    | none =>
      let v ← Exec.evaluate inv.scope inv.operand
      match positionOf v.toNumber with
      | .error bad => Exec.fail (.invalidJump (bad.reason inv.operand))
      | .ok target => resumeAfter target

/-- `WAIT milliseconds`. -/
def runWait (inv : Invocation) : Exec Control := do
  match ← Exec.evaluate inv.scope inv.operand with
  | .number ms =>
    Exec.sleep (waitTime ms)
    return .next
  | v => Exec.fail (.expectedNumber "WAIT" v.type)

/-- The branch of a conditional block that a condition chooses, as the positions
of its first line and of the line after its last. -/
def chosenBranch (start : Nat) (layout : Layout) (condition : Bool) : Option (Nat × Nat) :=
  match condition, layout.elseAt with
  | true, some elseAt => some (start, elseAt)
  | true, none => some (start, layout.endAt)
  | false, some elseAt => some (elseAt + 1, layout.endAt)
  | false, none => none

/-- Where execution goes on after a branch that ended so. -/
def afterBranch (endTarget : Nat) : Outcome → Control
  | .completed => .goto endTarget
  | .escaped target => .goto target
  | .returned v => .leave v

/-- `IF condition … [ELSE …] END`: execute the chosen branch in a scope of its
own. -/
def runConditional (runner : Runner) (inv : Invocation) : Exec Control := do
  let condition ← Exec.evaluate inv.scope inv.operand
  let start := inv.index + 1
  let layout ← Exec.ofOption (.unterminatedBlock ifKeyword) (layout? inv.block.code start)
  let endTarget := inv.block.origin + layout.endAt + 1
  match chosenBranch start layout condition.isTruthy with
  | none => return .goto endTarget
  | some (first, stop) =>
    let outcome ← Exec.inChild inv.scope fun scope => runner (inv.block.branch first stop scope)
    return afterBranch endTarget outcome

/-- `STD::OUT [value]`: print a value; without one, an empty line. -/
def runOutput (inv : Invocation) : Exec Control := do
  let v ← if inv.operand.isEmpty then pure (.string "") else Exec.evaluate inv.scope inv.operand
  Exec.emit v
  return .next

/-- `FUNC name parameters … END`: define a function and go on after it. -/
def runFunction (inv : Invocation) : Exec Control := do
  let (_, endAt) ← defineFunction inv inv.operand.toList
  return .goto (inv.block.origin + endAt + 1)

/-- `CALL function arguments`. -/
def runCall (runner : Runner) (inv : Invocation) : Exec Control := do
  let (_, control) ← callExpression runner inv inv.operand.toList
  return control

/-- `RET [value]`: leave the current call with a value. -/
def runLeave (inv : Invocation) : Exec Control := do
  let s ← Exec.get
  if s.calls.isEmpty then Exec.fail .returnOutsideFunction
  else if inv.operand.isEmpty then return .leave .undefined
  else
    let v ← Exec.evaluate inv.scope inv.operand
    return .leave v

/-- What a line with a keyword does; `runner` executes the blocks in it. -/
def run (runner : Runner) (inv : Invocation) : Builtin → Exec Control
  | declare => runDeclare runner inv
  | assign => runAssign inv
  | jump => runJump inv
  | wait => runWait inv
  | conditional => runConditional runner inv
  | ignore => pure .next
  | output => runOutput inv
  | function => runFunction inv
  | call => runCall runner inv
  | leave => runLeave inv

end Builtin

/-- What a keyword of a machine does: what the language says, or what the host
wants. -/
inductive Handler where
  | builtin (b : Builtin)
  | host (run : Invocation → Exec Control)

/-- The keywords of the language. -/
def standardTable : Table Handler :=
  Builtin.words.foldl (fun t (word, b) => t.insert word (.builtin b)) .empty

end LineScript
