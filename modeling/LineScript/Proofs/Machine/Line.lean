import LineScript.Machine.Interpreter

/-!
# A line up to its block

A line of a conditional or of a call executes another block. Everything such a
line does falls into two parts: what it does before that block begins, and what
it does when the block has ended. This module cuts every line in this way, so
that facts about a run are facts about the two parts and about the blocks in
between.

- `Entry`: how the first part of a line ends.
- `Pending`: what is left to do after the block; `Pending.close` and `Pending.resume` do it.
- `beginLine`: the first part of a line.
- `dispatch_eq`: a line is its first part, the block, and what is pending.
- `Builtin.runJump_of`: what a jump can do.
- `Exec.Yields`: what is true of every value that a computation gives.
- `runBlock_succ`, `Interpreter.run_of_block`: a run takes line after line, and a
  program is run as a root block.
-/

namespace LineScript

/-! ### Laws of sequencing -/

namespace Exec

variable {α β : Type}

instance : LawfulMonad Exec :=
  LawfulMonad.mk' Exec
    (fun x => by funext s; simp only [Functor.map]; cases x s with | mk r t => cases r <;> rfl)
    (fun _ _ => rfl)
    (fun x f g => by funext s; simp only [bind]; cases x s with | mk r t => cases r <;> rfl)

theorem bind_apply (x : Exec α) (f : α → Exec β) (s : State) :
    (x >>= f) s = match x s with
      | (.ok a, t) => f a t
      | (.error e, t) => (.error e, t) := rfl

@[simp] theorem fail_bind (c : Cause) (f : α → Exec β) : fail c >>= f = fail c := rfl

@[simp] theorem ofExcept_ok (a : α) : ofExcept (.ok a : Except Cause α) = pure a := rfl

@[simp] theorem ofExcept_error (c : Cause) : ofExcept (.error c : Except Cause α) = fail c := rfl

@[simp] theorem ofOption_some (c : Cause) (a : α) : ofOption c (some a) = pure a := rfl

section

variable {Q : α → Prop} {Q' : β → Prop}

/-- Every value that the computation gives has the property. -/
def Yields (Q : α → Prop) (x : Exec α) : Prop :=
  ∀ s a, (x s).1 = .ok a → Q a

theorem Yields.pure {a : α} (h : Q a) : Yields Q (Pure.pure a : Exec α) :=
  fun _ _ ha => Except.ok.inj ha ▸ h

theorem Yields.fail (c : Cause) : Yields Q (fail c : Exec α) :=
  fun _ _ => nofun

theorem Yields.bind {x : Exec α} {f : α → Exec β} (hx : Yields Q x)
    (hf : ∀ a, Q a → Yields Q' (f a)) : Yields Q' (x >>= f) := by
  intro s b hb
  have hxs := hx s
  rw [bind_apply] at hb
  generalize x s = result at hxs hb
  obtain ⟨r, t⟩ := result
  cases r with
  | error e => cases hb
  | ok a => exact hf a (hxs a rfl) t b hb

/-- Whatever comes before the last computation. -/
theorem Yields.after {x : Exec α} {f : α → Exec β} (hf : ∀ a, Yields Q' (f a)) :
    Yields Q' (x >>= f) :=
  .bind (Q := fun _ => True) (fun _ _ _ => trivial) fun a _ => hf a

end

end Exec

/-! ### The two parts of a line -/

/-- What a line that executes a block has left to do when the block has ended. -/
inductive Pending where
  /-- A conditional releases the frames from `depth` on. -/
  | branch (depth endTarget : Nat)
  /-- A call of `f` releases the frames from `depth` on, is left, and binds its
  value to the target of a declaration, if there is one, in `scope`. -/
  | call (f : Function) (depth : Nat) (scope : ScopeId) (target : Option Target) (after : Control)

/-- How the first part of a line ends: the line is over, or it executes a block
and has something left to do. -/
inductive Entry where
  | finished (control : Control)
  | opens (inner : Block) (pending : Pending)

/-- Bind the value of a declaration. A constant needs a value other than
undefined. -/
def bindTarget (scope : ScopeId) (target : Target) (v : Value) : Exec Unit :=
  if target.constant && v = .undefined then
    Exec.fail (.undefinedConstant (String.ofList target.id))
  else Exec.declare scope (String.ofList target.id) ⟨v, target.constant⟩

/-- The value of a call is bound, if there is a target, and the line is over. -/
def bindResult (scope : ScopeId) : Option Target → Value × Control → Exec Control
  | none, (_, after) => pure after
  | some target, (v, after) => do
    bindTarget scope target v
    return after

/-- Release the scope of a block, and leave its call if it is the body of one. -/
def Pending.close : Pending → State → State
  | .branch depth _, s => { s with env := s.env.release depth }
  | .call _ depth _ _ _, s => { s with env := s.env.release depth, calls := s.calls.pop }

/-- Do what is left to do when a block has ended. -/
def Pending.resume (p : Pending) (r : Except Stop Outcome) (s : State) :
    Except Stop Control × State :=
  match p, r with
  | .branch _ endTarget, r => (r.map (Builtin.afterBranch endTarget), p.close s)
  | .call .., .error e => (.error (e.mapError s.calls.attach), p.close s)
  | .call _ _ scope target after, .ok outcome =>
    bindResult scope target (outcome.callValue, after) (p.close s)

/-- Finish a line: execute its block, if it has one, and do what is left. -/
def Entry.complete (runner : Runner) : Entry → Exec Control
  | .finished control => pure control
  | .opens inner pending => fun s =>
    match runner inner s with
    | (r, s) => pending.resume r s

/-! ### The first part of a line -/

/-- The function that a callee stands for, defined at the line at hand or bound
to a name, and where execution goes on after its call. -/
def resolveCallee (inv : Invocation) (callee : List Char) : Exec (Function × Control) :=
  match inlineHeader? callee with
  | some header => do
    let (f, endAt) ← defineFunction inv header
    return (f, .goto (inv.block.origin + endAt + 1))
  | none => do
    let f ← lookupFunction inv.scope (String.ofList callee)
    return (f, .next)

/-- The environment with parameters bound to values in one frame, in order. -/
def Environment.bindAll (env : Environment) (scope : ScopeId) (ps : List (String × Value)) :
    Environment :=
  ps.foldl (fun env (param, v) => env.declare scope param ⟨v, false⟩) env

/-- Enter a call of a function with the values of its parameters. -/
def enterCall (inv : Invocation) (f : Function) (values : List Value) (target : Option Target)
    (after : Control) : Exec Entry := fun s =>
  match s.calls.push ⟨f.label, some inv.line⟩ with
  | .error cause => Exec.fail cause s
  | .ok calls =>
    (.ok (.opens (.root f.body s.env.depth) (.call f s.env.depth inv.scope target after)),
      { s with
        calls
        env := (s.env.child inv.scope).2.bindAll s.env.depth (f.params.zip values) })

/-- The first part of a call. -/
def beginCall (inv : Invocation) (operand : List Char) (target : Option Target) : Exec Entry := do
  match ← Exec.ofExcept (Expr.splitArguments operand) with
  | [] => Exec.fail (.malformedOperand callKeyword "expected a function to call")
  | callee :: args =>
    let (f, after) ← resolveCallee inv callee
    let values ← argumentValues inv.scope f.params (args.map String.ofList)
    enterCall inv f values target after

/-- The first part of a declaration. -/
def beginDeclare (inv : Invocation) : Exec Entry :=
  let (targetText, valueText) := splitDeclaration inv.operand.toList
  let target := Target.ofText targetText
  if !isIdentifier target.id then
    Exec.fail (.malformedOperand declareKeyword
      ("`" ++ String.ofList targetText ++ "` is not a valid identifier"))
  else if valueText.isEmpty then do
    bindTarget inv.scope target .undefined
    return .finished .next
  else
    match stripKeyword? valueText callKeyword with
    | some operand => beginCall inv operand (some target)
    | none => do
      let v ← Exec.evaluate inv.scope (String.ofList valueText)
      bindTarget inv.scope target v
      return .finished .next

/-- Enter the branch of a conditional that has the lines from `first` up to but
excluding `stop`. -/
def enterBranch (inv : Invocation) (first stop endTarget : Nat) : Exec Entry := fun s =>
  (.ok (.opens (inv.block.branch first stop s.env.depth) (.branch s.env.depth endTarget)),
    { s with env := (s.env.child inv.scope).2 })

/-- The first part of a conditional. -/
def beginConditional (inv : Invocation) : Exec Entry := do
  let condition ← Exec.evaluate inv.scope inv.operand
  let layout ← Exec.ofOption (.unterminatedBlock ifKeyword)
    (layout? inv.block.code (inv.index + 1))
  let endTarget := inv.block.origin + layout.endAt + 1
  match Builtin.chosenBranch (inv.index + 1) layout condition.isTruthy with
  | none => return .finished (.goto endTarget)
  | some (first, stop) => enterBranch inv first stop endTarget

/-- The first part of a line with a built-in keyword. -/
def Builtin.begin (inv : Invocation) : Builtin → Exec Entry
  | declare => beginDeclare inv
  | assign => do return .finished (← runAssign inv)
  | jump => do return .finished (← runJump inv)
  | wait => do return .finished (← runWait inv)
  | conditional => beginConditional inv
  | ignore => pure (.finished .next)
  | output => do return .finished (← runOutput inv)
  | function => do return .finished (← runFunction inv)
  | call => beginCall inv inv.operand.toList none
  | leave => do return .finished (← runLeave inv)

/-- The first part of a line with a keyword of a machine. -/
def Handler.begin (inv : Invocation) : Handler → Exec Entry
  | .builtin b => b.begin inv
  | .host f => do return .finished (← f inv)

/-- The state when the line at hand has begun. -/
def State.ticked (s : State) : State :=
  { s with clock := s.clock.tick }

/-- The first part of a line. -/
def beginLine (table : Table Handler) (b : Block) (index : Nat) (i : Instruction) : Exec Entry :=
  match table.find? i.keyword with
  | none => Exec.fail (unrecognised table i.keyword)
  | some handler => do
    Exec.tick
    handler.begin ⟨b, index, i.operand, i.line⟩

/-! ### A line is its two parts and the block between them -/

section

variable (runner : Runner) (inv : Invocation)

/-- Binding parameters always succeeds. -/
theorem bindParameters_apply (scope : ScopeId) (ps : List (String × Value)) (s : State) :
    bindParameters scope ps s = (.ok (), { s with env := s.env.bindAll scope ps }) := by
  induction ps generalizing s with
  | nil => rfl
  | cons p ps ih =>
    simp only [bindParameters, Exec.declare, Exec.modify, Exec.bind_apply, ih]
    rfl

theorem enterCall_complete (f : Function) (values : List Value) (target : Option Target)
    (after : Control) :
    enterCall inv f values target after >>= Entry.complete runner =
      (do
        let v ← Exec.inCall ⟨f.label, some inv.line⟩ <| Exec.inChild inv.scope fun scope => do
          bindParameters scope (f.params.zip values)
          let outcome ← (runner (.root f.body scope)).mapError fun s e => s.calls.attach e
          return outcome.callValue
        bindResult inv.scope target (v, after)) := by
  -- both sides push the call, make the frame and run the body in the same state
  funext s
  simp only [Exec.bind_apply, enterCall, Exec.inCall, Exec.inChild, Environment.child]
  cases s.calls.push ⟨f.label, some inv.line⟩ with
  | error cause => rfl
  | ok calls =>
    simp only [bindParameters_apply, Exec.mapError, Entry.complete]
    generalize runner _ _ = result
    obtain ⟨r, t⟩ := result
    cases r with
    | error e => rfl
    | ok outcome => rfl

/-- A call is its first part, the body of the function, and what is pending. -/
theorem beginCall_complete (operand : List Char) (target : Option Target) :
    beginCall inv operand target >>= Entry.complete runner =
      callExpression runner inv operand >>= bindResult inv.scope target := by
  simp only [beginCall, callExpression, bind_assoc]
  congr 1
  funext callees
  cases callees with
  | nil => rfl
  | cons callee args =>
    simp only [bind_assoc, pure_bind, enterCall_complete, invoke]
    rfl

/-- The end of a declaration is to bind its value. -/
theorem bindResult_some (scope : ScopeId) (target : Target) (v : Value) (after : Control) :
    bindResult scope (some target) (v, after) =
      if target.constant && v = .undefined then
        Exec.fail (.undefinedConstant (String.ofList target.id))
      else do
        Exec.declare scope (String.ofList target.id) ⟨v, target.constant⟩
        return after := by
  simp only [bindResult, bindTarget]
  split <;> rfl

/-- A declaration is its first part, the body of a called function, and what is
pending. -/
theorem beginDeclare_complete :
    beginDeclare inv >>= Entry.complete runner = Builtin.runDeclare runner inv := by
  simp only [beginDeclare, Builtin.runDeclare, ← bindResult_some]
  split
  · rfl
  · split
    · simp only [bind_assoc, pure_bind, bindResult, Entry.complete]
    · cases stripKeyword? (splitDeclaration inv.operand.toList).2 callKeyword with
      | some operand => exact beginCall_complete runner inv operand _
      | none => simp only [bind_assoc, pure_bind, bindResult, Entry.complete]

theorem enterBranch_complete (first stop endTarget : Nat) :
    enterBranch inv first stop endTarget >>= Entry.complete runner =
      (do
        let outcome ← Exec.inChild inv.scope fun scope =>
          runner (inv.block.branch first stop scope)
        return Builtin.afterBranch endTarget outcome) := by
  funext s
  simp only [Exec.bind_apply, enterBranch, Exec.inChild, Entry.complete, Environment.child,
    Pending.resume]
  generalize runner _ _ = result
  obtain ⟨r, t⟩ := result
  cases r <;> rfl

/-- A conditional is its first part, the chosen branch, and what is pending. -/
theorem beginConditional_complete :
    beginConditional inv >>= Entry.complete runner = Builtin.runConditional runner inv := by
  simp only [beginConditional, Builtin.runConditional, bind_assoc]
  congr 1; funext condition
  congr 1; funext layout
  cases Builtin.chosenBranch (inv.index + 1) layout condition.isTruthy with
  | none => rfl
  | some branch => exact enterBranch_complete runner inv branch.1 branch.2 _

/-- A built-in keyword is its first part, a block, and what is pending. -/
theorem Builtin.begin_complete (k : Builtin) :
    k.begin inv >>= Entry.complete runner = k.run runner inv := by
  cases k with
  | declare => exact beginDeclare_complete runner inv
  | conditional => exact beginConditional_complete runner inv
  | call =>
    simp only [Builtin.begin, Builtin.run, Builtin.runCall, beginCall_complete]
    rfl
  | assign | jump | wait | output | function | leave =>
    simp only [Builtin.begin, Builtin.run, bind_assoc, pure_bind, Entry.complete, bind_pure]
  | ignore => rfl

/-- A line is its first part, the block that it executes, and what is pending
when that block has ended. -/
theorem dispatch_eq (table : Table Handler) (b : Block) (index : Nat) (i : Instruction) :
    dispatch table runner b index i = beginLine table b index i >>= Entry.complete runner := by
  simp only [dispatch, beginLine]
  cases table.find? i.keyword with
  | none => rfl
  | some handler =>
    cases handler with
    | builtin k =>
      simp only [Handler.run, Handler.begin, bind_assoc, Builtin.begin_complete]
    | host f =>
      simp only [Handler.run, Handler.begin, bind_assoc, pure_bind, Entry.complete, bind_pure]

end

/-! ### What a jump can do -/

section

variable {P : Exec Control → Prop} {inv : Invocation}
  (hgoto : ∀ target, P (pure (.goto target)))
  (hfail : ∀ reason, P (Exec.fail (.invalidJump reason)))

include hgoto hfail

theorem Builtin.resumeAfter_of (target : Int) : P (resumeAfter target) := by
  rw [resumeAfter]
  split
  · exact hfail _
  · split
    · exact hfail _
    · exact hgoto _

/-- A jump has a property if going on, arriving anywhere and being refused have it, and
if evaluating the target keeps it. -/
theorem Builtin.runJump_of (hnext : P (pure .next))
    (hevaluate : ∀ f, (∀ v, P (f v)) → P (Exec.evaluate inv.scope inv.operand >>= f)) :
    P (runJump inv) := by
  rw [runJump]
  split
  · exact hnext
  · split
    · exact hfail _
    · split
      · exact resumeAfter_of hgoto hfail _
      · refine hevaluate _ fun v => ?_
        split
        · exact hfail _
        · exact resumeAfter_of hgoto hfail _

end

-- an offset that leads beyond the last position
example : ((Interpreter.new 10 .silent []).run 2 ⟨[⟨"JUMP +9223372036854775807", 1⟩]⟩).1 =
    .error (.failed ⟨.invalidJump "target 9223372036854775807 is out of range", some 1, none⟩) := by
  decide +kernel

/-! ### One line of a run -/

/-- How a block inside a line is executed within an amount of fuel. -/
def nestedRunner (table : Table Handler) (fuel : Nat) : Runner :=
  fun inner => runBlock table fuel inner 0

/-- A run executes the line at hand and goes on where that line says. -/
theorem runBlock_succ (table : Table Handler) (fuel : Nat) (b : Block) (index : Nat) (s : State) :
    runBlock table (fuel + 1) b index s =
      match b.code[index]? with
      | none => (.ok .completed, s)
      | some i =>
        match dispatch table (nestedRunner table fuel) b index i s with
        | (.error e, s) => (.error (e.mapError (·.atLine i.line)), s)
        | (.ok control, s) =>
          match b.next index control with
          | .inl index => runBlock table fuel b index s
          | .inr outcome => (.ok outcome, s) := rfl

/-- Running a program executes its instructions as a root block of the root
scope. -/
theorem Interpreter.run_eq (m : Interpreter) (fuel : Nat) (p : Program) :
    m.run fuel p =
      match runBlock m.table fuel (.root p.instructions Environment.root) 0 m.state with
      | (r, s) => (r.map fun _ => (), { m with state := s }) := by
  have hrunner : m.runner fuel (.root p.instructions Environment.root) m.state =
      runBlock m.table fuel (.root p.instructions Environment.root) 0 m.state := rfl
  simp only [run, perform, Exec.bind_apply, hrunner]
  cases runBlock m.table fuel (.root p.instructions Environment.root) 0 m.state with
  | mk r s => cases r <;> rfl

/-- The end of a program's root block is the end of the program. -/
theorem Interpreter.run_of_block {m : Interpreter} {fuel : Nat} {p : Program}
    {r : Except Stop Outcome} {s : State}
    (h : runBlock m.table fuel (.root p.instructions Environment.root) 0 m.state = (r, s)) :
    m.run fuel p = (r.map fun _ => (), { m with state := s }) := by
  rw [run_eq, h]

end LineScript
