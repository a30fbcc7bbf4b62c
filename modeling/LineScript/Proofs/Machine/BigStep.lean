import LineScript.Proofs.Machine.Line
import LineScript.Proofs.Program.Structured

/-!
# What a structured program does

The meaning of a structured program follows its tree. A conditional runs the
branch that its condition chooses in a fresh child of the scope at hand, a
function keeps its body, a call runs the body of its function in a fresh child
of the calling scope, and a return leaves the innermost call. There are no
positions, and nothing is scanned.

- `PlainLine.run`, `makeFunction`, `condition`, `NamedCall.prepare`,
  `InlineCall.prepare`: what the lines do themselves.
- `Task`, `Structured.Runs`: what is run, and the rules of running it.
- `Structured.Runs.ne_outOfFuel`: running has nothing to do with fuel.
-/

namespace LineScript

/-! ### What lines do themselves -/

/-- A line on its own, in a scope. -/
def Instruction.alone (i : Instruction) (scope : ScopeId) : Invocation :=
  ⟨.root [i] scope, 0, i.operand, i.line⟩

/-- What a plain line does: what its keyword says. There are no blocks in it. -/
def PlainLine.run (l : PlainLine) (scope : ScopeId) : Exec Control := do
  Exec.tick
  l.keyword.run (fun _ => pure .completed) (l.line.alone scope)

/-- The value of a plain declaration on its own is no call. -/
theorem PlainLine.value_noCall_alone (l : PlainLine) (h : l.keyword = .declare)
    (scope : ScopeId) :
    stripKeyword? (splitDeclaration (l.line.alone scope).operand.toList).2 callKeyword = none := by
  rw [Instruction.alone, Instruction.toList_operand]
  exact l.value_noCall h

/-- Make a function from a header and a body. A named function is bound in the
scope. -/
def makeFunction (scope : ScopeId) (header : List Char) (body : List Instruction) :
    Exec Function := do
  match (Text.words header).map String.ofList with
  | [] => Exec.fail (.malformedOperand functionKeyword "expected a function name or `_`")
  | name :: params =>
    let id ← Exec.freshId
    let f : Function := ⟨id, if name = anonymousName then none else some name, params, body⟩
    match f.name with
    | some name => Exec.declare scope name ⟨.function f, false⟩
    | none => pure ()
    return f

/-- What the definition of a function does. -/
def runDefinition (i : Instruction) (body : List Instruction) (scope : ScopeId) :
    Exec Control := do
  Exec.tick
  let _ ← makeFunction scope i.operandChars body
  return .next

/-- Whether the condition of a conditional holds. -/
def condition (i : Instruction) (scope : ScopeId) : Exec Bool := do
  Exec.tick
  let v ← Exec.evaluate scope i.operand
  return v.isTruthy

/-- A call that can begin: the function, the values of its parameters, and the
target that its value is bound to. -/
structure Ready where
  function : Function
  values : List Value
  target : Option Target

/-- The target that the value of a call is bound to, if the line declares one. -/
def callTarget (i : Instruction) : Exec (Option Target) :=
  if i.keyword = declareKeyword then
    let (targetText, _) := splitDeclaration i.operandChars
    let target := Target.ofText targetText
    if !isIdentifier target.id then
      Exec.fail (.malformedOperand declareKeyword
        ("`" ++ String.ofList targetText ++ "` is not a valid identifier"))
    else pure (some target)
  else pure none

/-- What a call by name does before it begins. -/
def NamedCall.prepare (l : NamedCall) (scope : ScopeId) : Exec Ready := do
  Exec.tick
  let target ← callTarget l.line
  match ← Exec.ofExcept (Expr.splitArguments l.operand) with
  | [] => Exec.fail (.malformedOperand callKeyword "expected a function to call")
  | name :: args =>
    let f ← lookupFunction scope (String.ofList name)
    let values ← argumentValues scope f.params (args.map String.ofList)
    return ⟨f, values, target⟩

/-- What a call of a function that the line defines does before it begins. -/
def InlineCall.prepare (l : InlineCall) (body : List Instruction) (scope : ScopeId) :
    Exec Ready := do
  Exec.tick
  let target ← callTarget l.line
  let f ← makeFunction scope l.header body
  let values ← argumentValues scope f.params (l.args.map String.ofList)
  return ⟨f, values, target⟩

/-- How the line of a conditional goes on when its branch has ended. -/
def Outcome.control : Outcome → Control
  | .completed => .next
  | .escaped target => .goto target
  | .returned v => .leave v

/-! ### Rules -/

namespace Structured

/-- The branch that a condition chooses, if there is one. -/
def pick (body : Structured) (other : Option Structured) : Bool → Option Structured
  | true => some body
  | false => other

/-- What is run in a scope. -/
inductive Task where
  /-- A program. -/
  | body (p : Structured)
  /-- A conditional whose condition gave this, with its branches and what
  follows it. -/
  | branches (r : Except Stop Bool) (body : Structured) (other : Option Structured) (line : Nat)
      (rest : Structured)
  /-- A call whose preparation gave this, with what follows it. -/
  | invoke (r : Except Stop Ready) (line : Nat) (rest : Structured)
  /-- What follows a line that answered this. -/
  | after (r : Except Stop Control) (line : Nat) (rest : Structured)

/-- **The rules of running a program.** In a scope and from a state a task ends
with an outcome in a state. A task that goes on forever has no end. -/
inductive Runs : Task → ScopeId → State → Except Stop Outcome → State → Prop where
  | nil {scope : ScopeId} {s : State} : Runs (.body .nil) scope s (.ok .completed) s
  | plain {l : PlainLine} {rest : Structured} {scope : ScopeId} {s t u : State}
      {r : Except Stop Control} {r' : Except Stop Outcome} (hline : l.run scope s = (r, t))
      (hrest : Runs (.after r l.line.line rest) scope t r' u) :
      Runs (.body (.plain l rest)) scope s r' u
  | define {head : KeywordLine functionKeyword} {body rest : Structured}
      {last : KeywordLine endKeyword} {scope : ScopeId} {s t u : State}
      {r : Except Stop Control} {r' : Except Stop Outcome}
      (hline : runDefinition head.line body.flatten scope s = (r, t))
      (hrest : Runs (.after r head.line.line rest) scope t r' u) :
      Runs (.body (.define head body last rest)) scope s r' u
  | branch {head : KeywordLine ifKeyword} {body rest : Structured}
      {last : KeywordLine endKeyword} {scope : ScopeId} {s t u : State} {r : Except Stop Bool}
      {r' : Except Stop Outcome} (hline : condition head.line scope s = (r, t))
      (hrest : Runs (.branches r body none head.line.line rest) scope t r' u) :
      Runs (.body (.branch head body last rest)) scope s r' u
  | choice {head : KeywordLine ifKeyword} {body other rest : Structured}
      {mid : KeywordLine elseKeyword} {last : KeywordLine endKeyword} {scope : ScopeId}
      {s t u : State} {r : Except Stop Bool} {r' : Except Stop Outcome}
      (hline : condition head.line scope s = (r, t))
      (hrest : Runs (.branches r body (some other) head.line.line rest) scope t r' u) :
      Runs (.body (.choice head body mid other last rest)) scope s r' u
  | call {l : NamedCall} {rest : Structured} {scope : ScopeId} {s t u : State}
      {r : Except Stop Ready} {r' : Except Stop Outcome} (hline : l.prepare scope s = (r, t))
      (hrest : Runs (.invoke r l.line.line rest) scope t r' u) :
      Runs (.body (.call l rest)) scope s r' u
  | inline {head : InlineCall} {body rest : Structured} {last : KeywordLine endKeyword}
      {scope : ScopeId} {s t u : State} {r : Except Stop Ready} {r' : Except Stop Outcome}
      (hline : head.prepare body.flatten scope s = (r, t))
      (hrest : Runs (.invoke r head.line.line rest) scope t r' u) :
      Runs (.body (.inline head body last rest)) scope s r' u
  /-- A condition without a value ends the conditional. -/
  | branches_failed {e : Stop} {body rest : Structured} {other : Option Structured} {line : Nat}
      {scope : ScopeId} {s u : State} {r' : Except Stop Outcome}
      (hrest : Runs (.after (.error e) line rest) scope s r' u) :
      Runs (.branches (.error e) body other line rest) scope s r' u
  /-- Without a branch to run the conditional is over. -/
  | branches_none {c : Bool} {body rest : Structured} {other : Option Structured} {line : Nat}
      {scope : ScopeId} {s u : State} {r' : Except Stop Outcome} (hpick : pick body other c = none)
      (hrest : Runs (.after (.ok .next) line rest) scope s r' u) :
      Runs (.branches (.ok c) body other line rest) scope s r' u
  /-- The chosen branch runs in a fresh child of the scope, which is released. -/
  | branches_some {c : Bool} {p body rest : Structured} {other : Option Structured} {line : Nat}
      {scope : ScopeId} {s t u : State} {r r' : Except Stop Outcome}
      (hpick : pick body other c = some p)
      (hbranch : Runs (.body p) s.env.depth { s with env := (s.env.child scope).2 } r t)
      (hrest : Runs (.after (r.map Outcome.control) line rest) scope
        { t with env := t.env.release s.env.depth } r' u) :
      Runs (.branches (.ok c) body other line rest) scope s r' u
  | invoke_failed {e : Stop} {line : Nat} {rest : Structured} {scope : ScopeId} {s u : State}
      {r' : Except Stop Outcome} (hrest : Runs (.after (.error e) line rest) scope s r' u) :
      Runs (.invoke (.error e) line rest) scope s r' u
  /-- When too many calls are active, the call does not begin. -/
  | invoke_refused {c : Ready} {cause : Cause} {line : Nat} {rest : Structured} {scope : ScopeId}
      {s u : State} {r' : Except Stop Outcome}
      (hpush : s.calls.push ⟨c.function.label, some line⟩ = .error cause)
      (hrest : Runs (.after (.error (.failed (.ofCause cause))) line rest) scope s r' u) :
      Runs (.invoke (.ok c) line rest) scope s r' u
  /-- The body of the function runs in a fresh child of the calling scope that
  binds the parameters. Then the child is released and the call is left, an
  error gets the active calls, and the value of the call is bound. -/
  | invoke_called {c : Ready} {q rest : Structured} {calls : CallStack} {line : Nat}
      {scope : ScopeId} {s t u v : State} {r r' : Except Stop Outcome} {answer : Except Stop Control}
      (hbody : c.function.body = q.flatten)
      (hpush : s.calls.push ⟨c.function.label, some line⟩ = .ok calls)
      (hcall : Runs (.body q) s.env.depth
        { s with
          calls
          env := (s.env.child scope).2.bindAll s.env.depth (c.function.params.zip c.values) } r t)
      (hreturn : (Pending.call c.function s.env.depth scope c.target .next).resume r t = (answer, u))
      (hrest : Runs (.after answer line rest) scope u r' v) :
      Runs (.invoke (.ok c) line rest) scope s r' v
  | next {line : Nat} {rest : Structured} {scope : ScopeId} {s t : State}
      {r : Except Stop Outcome} (hrest : Runs (.body rest) scope s r t) :
      Runs (.after (.ok .next) line rest) scope s r t
  /-- A return leaves all that follows. -/
  | leave {v : Value} {line : Nat} {rest : Structured} {scope : ScopeId} {s : State} :
      Runs (.after (.ok (.leave v)) line rest) scope s (.ok (.returned v)) s
  /-- An error that has no line gets that of the innermost failing line. -/
  | failed {e : Error} {line : Nat} {rest : Structured} {scope : ScopeId} {s : State} :
      Runs (.after (.error (.failed e)) line rest) scope s (.error (.failed (e.atLine line))) s

/-- A task that ends has an outcome or an error of the script. -/
theorem Runs.ne_outOfFuel {task : Task} {scope : ScopeId} {s t : State}
    {r : Except Stop Outcome} (h : Runs task scope s r t) : r ≠ .error .outOfFuel := by
  induction h with
  | nil | leave | failed => simp
  | plain _ _ ih | define _ _ ih | branch _ _ ih | choice _ _ ih | call _ _ ih | inline _ _ ih
  | branches_none _ _ ih | invoke_refused _ _ ih => exact ih
  | branches_failed _ ih | invoke_failed _ ih | next _ ih => exact ih
  | branches_some _ _ _ _ ih => exact ih
  | invoke_called _ _ _ _ _ _ ih => exact ih

end Structured

end LineScript
