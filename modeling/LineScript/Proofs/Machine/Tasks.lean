import LineScript.Proofs.Machine.Steps
import LineScript.Proofs.Machine.Values
import LineScript.Proofs.Program.Layout

/-!
# Structured programs among instructions

The instructions of a structured program are run one after the other, with
positions and jumps. Line by line this is what the rules say: a run at a line
does what the line does in the tree, and goes on as the task that the rules go on
with.

- `PlainLine.dispatch_eq`, `dispatch_definition`, `dispatch_conditional`,
  `NamedCall.dispatch_eq`, `InlineCall.dispatch_eq`: what a line does among
  instructions is what it does in the tree.
- `Structured.Task.At`, `Structured.Task.flat`: where a task stands among
  instructions, and how it is run there.
- `Structured.Continues`: a run at a line goes on as a task.
- `Structured.flat_branch`, `Structured.flat_called`: branches and bodies are run
  as blocks of their own.
-/

namespace LineScript

/-! ### Lines among instructions -/

section

variable {runner : Runner} {b : Block} {index : Nat} {i : Instruction}

theorem dispatch_of_find? {table : Table Handler} {handler : Handler}
    (h : table.find? i.keyword = some handler) :
    dispatch table runner b index i =
      (do
        Exec.tick
        handler.run runner ⟨b, index, i.operand, i.line⟩) := by
  rw [dispatch, h]

theorem dispatch_builtin {k : Builtin} (h : (i.keyword, k) ∈ Builtin.words) :
    dispatch standardTable runner b index i =
      (do
        Exec.tick
        k.run runner ⟨b, index, i.operand, i.line⟩) := by
  have hfind : standardTable.find? i.keyword = some (.builtin k) := by
    rw [find?_standardTable]
    exact ⟨k, h, rfl⟩
  rw [dispatch_of_find? hfind]
  simp only [Handler.run]

/-- What a plain line does depends on its scope and its operand only. -/
theorem PlainLine.run_congr (l : PlainLine) (runner' : Runner) {inv inv' : Invocation}
    (hscope : inv.scope = inv'.scope) (hoperand : inv.operand = inv'.operand)
    (hline : inv.operand = l.line.operand) :
    l.keyword.run runner inv = l.keyword.run runner' inv' := by
  have hplain := l.plain
  simp only [List.mem_cons, List.not_mem_nil, or_false] at hplain
  rcases hplain with h | h | h | h | h | h
  all_goals rw [h, Builtin.run, Builtin.run]
  · have hvalue := l.value_noCall h
    rw [← Instruction.toList_operand, ← hline] at hvalue
    rw [runDeclare_eq_declareValue runner hvalue,
      runDeclare_eq_declareValue runner' (hoperand ▸ hvalue)]
    simp only [declareValue, hscope, hoperand]
  · simp only [Builtin.runAssign, hscope, hoperand]
  · simp only [Builtin.runWait, hscope, hoperand]
  · simp only [Builtin.runOutput, hscope, hoperand]
  · simp only [Builtin.runLeave, hscope, hoperand]

/-- A plain line does the same at every position of every block. -/
theorem PlainLine.dispatch_eq (l : PlainLine) :
    dispatch standardTable runner b index l.line = l.run b.scope := by
  have hrun : l.keyword.run runner ⟨b, index, l.line.operand, l.line.line⟩ =
      l.keyword.run (fun _ => pure .completed) (l.line.alone b.scope) :=
    l.run_congr _ rfl rfl rfl
  rw [dispatch_builtin l.word, hrun, PlainLine.run]

/-- Where execution goes on after a line, when `after` takes the place of the
next line. -/
def Control.goingOn (after : Control) : Control → Control
  | .next => after
  | c => c

/-- The definition of a function among instructions. -/
theorem defineFunction_eq {inv : Invocation} {layout : Layout} {body : List Instruction}
    (hlayout : layout? inv.block.code (inv.index + 1) = some layout)
    (hbody : (inv.block.code.take layout.endAt).drop (inv.index + 1) = body)
    (header : List Char) :
    defineFunction inv header =
      (do
        let f ← makeFunction inv.scope header body
        return (f, layout.endAt)) := by
  rw [defineFunction, makeFunction]
  cases (Text.words header).map String.ofList with
  | nil => rfl
  | cons name params =>
    simp only [bodyFrom, hlayout, Exec.ofOption_some, pure_bind, hbody, bind_assoc]
    congr 1
    funext id
    cases (if name = anonymousName then none else some name : Option String) with
    | some name => simp only [bind_assoc, pure_bind]
    | none => simp only [pure_bind]

theorem dispatch_definition (head : KeywordLine functionKeyword) {layout : Layout}
    {body : List Instruction} (hlayout : layout? b.code (index + 1) = some layout)
    (hbody : (b.code.take layout.endAt).drop (index + 1) = body) :
    dispatch standardTable runner b index head.line =
      (do
        let c ← runDefinition head.line body b.scope
        return Control.goingOn (.goto (b.origin + layout.endAt + 1)) c) := by
  have hword : (head.line.keyword, Builtin.function) ∈ Builtin.words :=
    Builtin.mem_words head.keyword_eq
  have hdefine := @defineFunction_eq ⟨b, index, head.line.operand, head.line.line⟩ layout body
    hlayout hbody head.line.operandChars
  dsimp only [Invocation.scope] at hdefine
  rw [dispatch_builtin hword, runDefinition, Builtin.run, Builtin.runFunction]
  simp only [Instruction.toList_operand, hdefine, bind_assoc, pure_bind, Control.goingOn]

/-- What a conditional does when its condition has a value. -/
def enterChosen (inv : Invocation) (c : Bool) : Exec Entry := do
  let layout ← Exec.ofOption (.unterminatedBlock ifKeyword)
    (layout? inv.block.code (inv.index + 1))
  let endTarget := inv.block.origin + layout.endAt + 1
  match Builtin.chosenBranch (inv.index + 1) layout c with
  | none => return .finished (.goto endTarget)
  | some (first, stop) => enterBranch inv first stop endTarget

theorem beginConditional_eq (inv : Invocation) :
    beginConditional inv =
      (do
        let v ← Exec.evaluate inv.scope inv.operand
        enterChosen inv v.isTruthy) := rfl

theorem dispatch_conditional (head : KeywordLine ifKeyword) :
    dispatch standardTable runner b index head.line =
      (do
        let c ← condition head.line b.scope
        enterChosen ⟨b, index, head.line.operand, head.line.line⟩ c >>= Entry.complete runner) := by
  have hword : (head.line.keyword, Builtin.conditional) ∈ Builtin.words :=
    Builtin.mem_words head.keyword_eq
  rw [dispatch_builtin hword, condition]
  have hbegin := beginConditional_eq ⟨b, index, head.line.operand, head.line.line⟩
  dsimp only [Invocation.scope] at hbegin
  simp only [Builtin.run, ← beginConditional_complete, hbegin, bind_assoc, pure_bind]

/-! ### Calls among instructions -/

/-- A line that makes a call begins by finding the target of its value. -/
theorem dispatch_call {operand : List Char} (h : i.callOperand? = some operand) :
    dispatch standardTable runner b index i =
      (do
        Exec.tick
        let target ← callTarget i
        beginCall ⟨b, index, i.operand, i.line⟩ operand target >>= Entry.complete runner) := by
  rcases Instruction.keyword_of_callOperand? h with hk | hk
  · have hword : (i.keyword, Builtin.call) ∈ Builtin.words := Builtin.mem_words hk
    have hdeclare : i.keyword ≠ declareKeyword := by
      rw [hk]
      decide
    rw [Instruction.callOperand?, if_pos hk] at h
    obtain rfl := Option.some.inj h
    have hbegin := Builtin.begin_complete runner ⟨b, index, i.operand, i.line⟩ .call
    simp only [Builtin.begin, Instruction.toList_operand] at hbegin
    simp only [dispatch_builtin hword, ← hbegin, callTarget, if_neg hdeclare, pure_bind]
  · have hword : (i.keyword, Builtin.declare) ∈ Builtin.words := Builtin.mem_words hk
    have hvalue := Instruction.isEmpty_splitDeclaration hk h
    rw [Instruction.callOperand?_declare hk] at h
    have hbegin := Builtin.begin_complete runner ⟨b, index, i.operand, i.line⟩ .declare
    simp only [Builtin.begin, beginDeclare, Instruction.toList_operand, hvalue, h] at hbegin
    simp only [dispatch_builtin hword, ← hbegin, callTarget, if_pos hk]
    split
    · rfl
    · simp only [pure_bind, Bool.false_eq_true, if_false]

/-- A call by name among instructions goes on at the next line. -/
theorem NamedCall.dispatch_eq (l : NamedCall) :
    dispatch standardTable runner b index l.line =
      (do
        let c ← l.prepare b.scope
        enterCall ⟨b, index, l.line.operand, l.line.line⟩ c.function c.values c.target .next >>=
          Entry.complete runner) := by
  rw [dispatch_call l.call, NamedCall.prepare]
  simp only [bind_assoc, beginCall]
  -- both sides start with the clock and the target, and differ only in the callee
  refine congrArg (Exec.tick >>= ·) (funext fun _ => ?_)
  refine congrArg (callTarget l.line >>= ·) (funext fun target => ?_)
  cases hargs : Expr.splitArguments l.operand with
  | error cause => rfl
  | ok callees =>
    cases callees with
    | nil => rfl
    | cons callee args =>
      have hresolve := resolveCallee.eq_def ⟨b, index, l.line.operand, l.line.line⟩ callee
      simp only [l.named callee args hargs, Invocation.scope] at hresolve
      simp only [Exec.ofExcept_ok, pure_bind, bind_assoc, hresolve, Invocation.scope]

/-- A call of a function that the line defines goes on after the `END` of the
definition. -/
theorem InlineCall.dispatch_eq (l : InlineCall) {layout : Layout} {body : List Instruction}
    (hlayout : layout? b.code (index + 1) = some layout)
    (hbody : (b.code.take layout.endAt).drop (index + 1) = body) :
    dispatch standardTable runner b index l.line =
      (do
        let c ← l.prepare body b.scope
        enterCall ⟨b, index, l.line.operand, l.line.line⟩ c.function c.values c.target
          (.goto (b.origin + layout.endAt + 1)) >>= Entry.complete runner) := by
  have hdefine := @defineFunction_eq ⟨b, index, l.line.operand, l.line.line⟩ layout body
    hlayout hbody l.header
  have hresolve := resolveCallee.eq_def ⟨b, index, l.line.operand, l.line.line⟩ l.callee
  simp only [l.inline, hdefine, Invocation.scope, bind_assoc, pure_bind] at hresolve
  rw [dispatch_call l.call, InlineCall.prepare]
  simp only [bind_assoc, beginCall, l.arguments, Exec.ofExcept_ok, pure_bind, hresolve,
    Invocation.scope]

end

/-! ### What a line enters, at a state -/

/-- Go on with a result, or end with its error. -/
def Exec.proceed {α β : Type} (r : Except Stop α) (f : α → Exec β) (s : State) :
    Except Stop β × State :=
  match r with
  | .ok a => f a s
  | .error e => (.error e, s)

theorem Exec.bind_of_eq {α β : Type} {x : Exec α} {s t : State} {r : Except Stop α}
    (h : x s = (r, t)) (f : α → Exec β) : (x >>= f) s = proceed r f t := by
  rw [bind_apply, h]
  cases r <;> rfl

theorem Exec.map_of_eq {α β : Type} {x : Exec α} {s t : State} {r : Except Stop α}
    (h : x s = (r, t)) (f : α → β) : (do return f (← x) : Exec β) s = (r.map f, t) := by
  rw [bind_of_eq h]
  cases r <;> rfl

section

variable {runner : Runner} {inv : Invocation} {s t : State} {r : Except Stop Outcome}

theorem enterBranch_apply {first stop : Nat} (endTarget : Nat)
    (h : runner (inv.block.branch first stop s.env.depth)
      { s with env := (s.env.child inv.scope).2 } = (r, t)) :
    (enterBranch inv first stop endTarget >>= Entry.complete runner) s =
      ((r.map Outcome.control).map (Control.goingOn (.goto endTarget)),
        { t with env := t.env.release s.env.depth }) := by
  rw [Exec.bind_apply]
  simp only [enterBranch, Entry.complete, h, Pending.resume, Pending.close]
  cases r with
  | error e => rfl
  | ok outcome => cases outcome <;> rfl

theorem enterCall_refused (inv : Invocation) {f : Function} {cause : Cause} (values : List Value)
    (target : Option Target) (after : Control)
    (h : s.calls.push ⟨f.label, some inv.line⟩ = .error cause) :
    (enterCall inv f values target after >>= Entry.complete runner) s =
      (.error (.failed (.ofCause cause)), s) := by
  rw [Exec.bind_apply]
  simp only [enterCall, h]
  rfl

theorem enterCall_apply (inv : Invocation) {f : Function} {calls : CallStack}
    {values : List Value} (target : Option Target) (after : Control)
    (hpush : s.calls.push ⟨f.label, some inv.line⟩ = .ok calls)
    (h : runner (.root f.body s.env.depth)
      { s with
        calls
        env := (s.env.child inv.scope).2.bindAll s.env.depth (f.params.zip values) } = (r, t)) :
    (enterCall inv f values target after >>= Entry.complete runner) s =
      (((Pending.call f s.env.depth inv.scope target .next).resume r t).1.map
          (Control.goingOn after),
        ((Pending.call f s.env.depth inv.scope target .next).resume r t).2) := by
  rw [Exec.bind_apply]
  simp only [enterCall, hpush, Entry.complete, h]
  cases r with
  | error e => rfl
  | ok outcome =>
    cases target with
    | none => rfl
    | some target =>
      simp only [Pending.resume, Pending.close, bindResult, Exec.bind_apply]
      cases bindTarget inv.scope target outcome.callValue _ with
      | mk x u => cases x <;> rfl

end

/-! ### Tasks among instructions -/

namespace Structured

/-- The block of a conditional at a line: its branches, and what follows it. -/
structure BlockAt (b : Block) (index : Nat) (layout : Layout) (body : Structured)
    (other : Option Structured) (rest : Structured) : Prop where
  layout_eq : layout? b.code (index + 1) = some layout
  no_branch : ∀ c, pick body other c = none →
    Builtin.chosenBranch (index + 1) layout c = none
  branch : ∀ c p, pick body other c = some p →
    ∃ first stop, Builtin.chosenBranch (index + 1) layout c = some (first, stop) ∧
      (b.code.take stop).drop first = p.flatten
  follows : b.code.drop (layout.endAt + 1) = rest.flatten

/-- A task stands at a line of a block, where `after` is the way to what follows
the line. -/
def Task.At (b : Block) (index : Nat) (after : Control) : Task → Prop
  | .body p => b.code.drop index = p.flatten
  | .branches _ p other _ rest =>
    ∃ layout, after = .goto (b.origin + layout.endAt + 1) ∧ BlockAt b index layout p other rest
  | .invoke _ _ rest | .after _ _ rest =>
    ∃ next, b.next index after = .inl next ∧ b.code.drop next = rest.flatten

/-- How a task is run among instructions. -/
def Task.flat (fuel : Nat) (inv : Invocation) (after : Control) :
    Task → State → Except Stop Outcome × State
  | .body _, s => runBlock standardTable fuel inv.block inv.index s
  | .branches r _ _ line _, s =>
    goOn standardTable fuel inv.block inv.index line
      (Exec.proceed r (fun c => enterChosen inv c >>=
        Entry.complete (nestedRunner standardTable fuel)) s)
  | .invoke r line _, s =>
    goOn standardTable fuel inv.block inv.index line
      (Exec.proceed r (fun c => enterCall { inv with line } c.function c.values c.target after >>=
        Entry.complete (nestedRunner standardTable fuel)) s)
  | .after r line _, s =>
    goOn standardTable fuel inv.block inv.index line (r.map (Control.goingOn after), s)

/-- With enough fuel the run gives the result. -/
def Eventually {α : Type} (run : Nat → α) (result : α) : Prop :=
  ∃ enough, ∀ fuel, enough ≤ fuel → run fuel = result

theorem Eventually.of_eq {α : Type} {run : Nat → α} {result : α} (h : ∀ fuel, run fuel = result) :
    Eventually run result :=
  ⟨0, fun fuel _ => h fuel⟩

/-- One more unit of fuel is for the line at hand. -/
theorem Eventually.succ {α : Type} {run run' : Nat → α} {result : α}
    (h : Eventually run result) (hstep : ∀ fuel, run' (fuel + 1) = run fuel) :
    Eventually run' result := by
  obtain ⟨enough, h⟩ := h
  refine ⟨enough + 1, fun fuel hfuel => ?_⟩
  obtain ⟨fuel, rfl⟩ : ∃ n, fuel = n + 1 := ⟨fuel - 1, by omega⟩
  rw [hstep]
  exact h fuel (by omega)

/-- When a part of a run is settled, so is what the run does from there. -/
theorem Eventually.after {α β : Type} {inner : Nat → β} {run run' : Nat → α} {part : β}
    {result : α} (hinner : Eventually inner part) (h : Eventually run' result)
    (hstep : ∀ fuel, inner fuel = part → run fuel = run' fuel) : Eventually run result := by
  obtain ⟨enough, hinner⟩ := hinner
  obtain ⟨enough', h⟩ := h
  -- the larger amount is enough for both parts
  refine ⟨max enough enough', fun fuel hfuel => ?_⟩
  rw [hstep fuel (hinner fuel (by omega))]
  exact h fuel (by omega)

section

variable {b : Block} {index : Nat} {i : Instruction} {lines : List Instruction}

theorem getElem?_of_drop {code : List Instruction} (h : code.drop index = i :: lines) :
    code[index]? = some i ∧ code.drop (index + 1) = lines := by
  constructor
  · have hget := congrArg (fun l : List Instruction => l[0]?) h
    simpa using hget
  · rw [← List.drop_drop, h]
    rfl

/-- A run at a line executes it and goes on. -/
theorem runBlock_of_drop (h : b.code.drop index = i :: lines) (fuel : Nat) {s t : State}
    {r : Except Stop Control}
    (hline : dispatch standardTable (nestedRunner standardTable fuel) b index i s = (r, t)) :
    runBlock standardTable (fuel + 1) b index s =
      goOn standardTable fuel b index i.line (r, t) := by
  rw [runBlock_of_line (getElem?_of_drop h).1, hline]

/-- After the last line the block is completed. -/
theorem runBlock_of_drop_nil (h : b.code.drop index = []) (fuel : Nat) (s : State) :
    runBlock standardTable (fuel + 1) b index s = (.ok .completed, s) :=
  runBlock_of_end standardTable fuel (List.drop_eq_nil_iff.1 h) s

theorem goingOn_next (r : Except Stop Control) : r.map (Control.goingOn .next) = r := by
  cases r with
  | error e => rfl
  | ok c => cases c <;> rfl

/-! ### The parts of a block at a line -/

variable {body other rest : Structured} {last : KeywordLine endKeyword}

/-- After its `END` a block is followed by the rest. -/
theorem next_after_end (layout : Layout) (hlayout : layout? b.code (index + 1) = some layout) :
    b.next index (.goto (b.origin + layout.endAt + 1)) = .inl (layout.endAt + 1) := by
  obtain ⟨-, hlt, -⟩ := layout?_bounds hlayout
  rw [Block.next, if_pos ⟨by omega, by omega⟩]
  congr 1
  omega

theorem BlockAt.of_branch (h : b.code.drop index = i :: (body.flatten ++ last.line :: lines))
    (hlines : lines = rest.flatten) :
    BlockAt b index ⟨none, index + 1 + body.flatten.length⟩ body none rest := by
  obtain ⟨-, hbody⟩ := getElem?_of_drop h
  refine ⟨layout?_body hbody, fun c hc => ?_, fun c p hp => ?_, ?_⟩
  · cases c with
    | true => cases hc
    | false => rfl
  · cases c with
    | true =>
      obtain rfl := Option.some.inj hp
      exact ⟨_, _, rfl, drop_take_of_drop hbody⟩
    | false => cases hp
  · rw [drop_add_of_drop hbody, hlines]

theorem BlockAt.of_choice {mid : KeywordLine elseKeyword}
    (h : b.code.drop index =
      i :: (body.flatten ++ mid.line :: (other.flatten ++ last.line :: rest.flatten))) :
    BlockAt b index ⟨some (index + 1 + body.flatten.length),
      index + 1 + body.flatten.length + 1 + other.flatten.length⟩ body (some other) rest := by
  obtain ⟨-, hbody⟩ := getElem?_of_drop h
  have hother := drop_add_of_drop hbody
  refine ⟨layout?_branches hbody, fun c hc => ?_, fun c p hp => ?_, drop_add_of_drop hother⟩
  · cases c <;> cases hc
  · cases c with
    | true =>
      obtain rfl := Option.some.inj hp
      exact ⟨_, _, rfl, drop_take_of_drop hbody⟩
    | false =>
      obtain rfl := Option.some.inj hp
      exact ⟨_, _, rfl, drop_take_of_drop hother⟩

/-- What follows a conditional stands after its `END`. -/
theorem BlockAt.next {layout : Layout} {other : Option Structured}
    (h : BlockAt b index layout body other rest) :
    ∃ next, b.next index (.goto (b.origin + layout.endAt + 1)) = .inl next ∧
      b.code.drop next = rest.flatten :=
  ⟨_, next_after_end layout h.layout_eq, h.follows⟩

end

/-! ### One line of a run -/

/-- A run at a position of a block does what is known of the line there, and goes
on as the task does from the state `t`. -/
def Continues (b : Block) (index : Nat) (s : State) (task : Task) (t : State) : Prop :=
  ∃ operand line after, task.At b index after ∧
    ∀ fuel, runBlock standardTable (fuel + 1) b index s =
      task.flat fuel ⟨b, index, operand, line⟩ after t

section

variable {b : Block} {index : Nat} {s t : State} {body other rest : Structured}
  {last : KeywordLine endKeyword}

theorem continues_plain {l : PlainLine} {r : Except Stop Control}
    (hat : b.code.drop index = (plain l rest).flatten) (hline : l.run b.scope s = (r, t)) :
    Continues b index s (.after r l.line.line rest) t := by
  obtain ⟨-, hrest⟩ := getElem?_of_drop hat
  refine ⟨l.line.operand, l.line.line, .next, ⟨_, rfl, hrest⟩, fun fuel => ?_⟩
  rw [Task.flat, goingOn_next, runBlock_of_drop hat fuel (l.dispatch_eq ▸ hline)]

theorem continues_define {head : KeywordLine functionKeyword} {r : Except Stop Control}
    (hat : b.code.drop index = (define head body last rest).flatten)
    (hline : runDefinition head.line body.flatten b.scope s = (r, t)) :
    Continues b index s (.after r head.line.line rest) t := by
  obtain ⟨-, hbody⟩ := getElem?_of_drop hat
  have hblock := BlockAt.of_branch hat rfl
  refine ⟨head.line.operand, head.line.line, _, hblock.next, fun fuel => ?_⟩
  refine runBlock_of_drop hat fuel ?_
  rw [dispatch_definition head (layout?_body hbody) (drop_take_of_drop hbody)]
  exact Exec.map_of_eq hline _

theorem continues_conditional {head : KeywordLine ifKeyword} {lines : List Instruction}
    {layout : Layout} {other : Option Structured} {r : Except Stop Bool}
    (hat : b.code.drop index = head.line :: lines)
    (hblock : BlockAt b index layout body other rest)
    (hline : condition head.line b.scope s = (r, t)) :
    Continues b index s (.branches r body other head.line.line rest) t := by
  refine ⟨head.line.operand, head.line.line, _, ⟨layout, rfl, hblock⟩, fun fuel => ?_⟩
  rw [runBlock_of_line (getElem?_of_drop hat).1, dispatch_conditional, Exec.bind_of_eq hline]
  rfl

theorem continues_call {l : NamedCall} {r : Except Stop Ready}
    (hat : b.code.drop index = (call l rest).flatten) (hline : l.prepare b.scope s = (r, t)) :
    Continues b index s (.invoke r l.line.line rest) t := by
  obtain ⟨-, hrest⟩ := getElem?_of_drop hat
  refine ⟨l.line.operand, l.line.line, .next, ⟨_, rfl, hrest⟩, fun fuel => ?_⟩
  rw [runBlock_of_line (getElem?_of_drop hat).1, l.dispatch_eq, Exec.bind_of_eq hline]
  rfl

theorem continues_inline {head : InlineCall} {r : Except Stop Ready}
    (hat : b.code.drop index = (inline head body last rest).flatten)
    (hline : head.prepare body.flatten b.scope s = (r, t)) :
    Continues b index s (.invoke r head.line.line rest) t := by
  obtain ⟨-, hbody⟩ := getElem?_of_drop hat
  have hblock := BlockAt.of_branch hat rfl
  refine ⟨head.line.operand, head.line.line, _, hblock.next, fun fuel => ?_⟩
  rw [runBlock_of_line (getElem?_of_drop hat).1,
    head.dispatch_eq (layout?_body hbody) (drop_take_of_drop hbody), Exec.bind_of_eq hline]
  rfl

end

/-! ### Branches and calls -/

section

variable {inv : Invocation} {after : Control} {s : State} {body rest : Structured}
  {other : Option Structured} {line : Nat} {c : Bool}

/-- What follows a conditional stands where its block says. -/
theorem Task.at_after {b : Block} {index : Nat} {r : Except Stop Bool} (x : Except Stop Control)
    (hat : (Task.branches r body other line rest).At b index after) :
    (Task.after x line rest).At b index after := by
  obtain ⟨layout, rfl, hblock⟩ := hat
  exact hblock.next

theorem flat_no_branch (hat : (Task.branches (.ok c) body other line rest).At inv.block inv.index
      after) (hpick : pick body other c = none) (fuel : Nat) :
    (Task.branches (.ok c) body other line rest).flat fuel inv after s =
      (Task.after (.ok .next) line rest).flat fuel inv after s := by
  obtain ⟨layout, rfl, hblock⟩ := hat
  have hchosen : enterChosen inv c =
      pure (.finished (.goto (inv.block.origin + layout.endAt + 1))) := by
    simp only [enterChosen, hblock.layout_eq, Exec.ofOption_some, pure_bind,
      hblock.no_branch c hpick]
  simp only [Task.flat, Exec.proceed, hchosen, pure_bind, Entry.complete]
  rfl

/-- A chosen branch is a block of its own in a fresh scope. -/
theorem flat_branch {p : Structured}
    (hat : (Task.branches (.ok c) body other line rest).At inv.block inv.index after)
    (hpick : pick body other c = some p) :
    ∃ inner : Block, inner.scope = s.env.depth ∧ inner.code.drop 0 = p.flatten ∧
      ∀ fuel r t, runBlock standardTable fuel inner 0
          { s with env := (s.env.child inv.scope).2 } = (r, t) →
        (Task.branches (.ok c) body other line rest).flat fuel inv after s =
          (Task.after (r.map Outcome.control) line rest).flat fuel inv after
            { t with env := t.env.release s.env.depth } := by
  obtain ⟨layout, rfl, hblock⟩ := hat
  obtain ⟨first, stop, hchosen, hcode⟩ := hblock.branch c p hpick
  refine ⟨inv.block.branch first stop s.env.depth, rfl, hcode, fun fuel r t hrun => ?_⟩
  have henter : enterChosen inv c =
      enterBranch inv first stop (inv.block.origin + layout.endAt + 1) := by
    simp only [enterChosen, hblock.layout_eq, Exec.ofOption_some, pure_bind, hchosen]
  simp only [Task.flat, Exec.proceed, henter]
  rw [enterBranch_apply _ hrun]

variable {x : Ready}

theorem flat_refused {cause : Cause}
    (hpush : s.calls.push ⟨x.function.label, some line⟩ = .error cause) (fuel : Nat) :
    (Task.invoke (.ok x) line rest).flat fuel inv after s =
      (Task.after (.error (.failed (.ofCause cause))) line rest).flat fuel inv after s := by
  simp only [Task.flat, Exec.proceed]
  rw [enterCall_refused { inv with line } _ _ _ hpush]
  rfl

/-- The body of a function is a root block in a fresh scope. -/
theorem flat_called {calls : CallStack} {fuel : Nat} {t u : State} {r : Except Stop Outcome}
    {answer : Except Stop Control}
    (hpush : s.calls.push ⟨x.function.label, some line⟩ = .ok calls)
    (hrun : runBlock standardTable fuel (.root x.function.body s.env.depth) 0
      { s with
        calls
        env := (s.env.child inv.scope).2.bindAll s.env.depth
          (x.function.params.zip x.values) } = (r, t))
    (hreturn : (Pending.call x.function s.env.depth inv.scope x.target .next).resume r t =
      (answer, u)) :
    (Task.invoke (.ok x) line rest).flat fuel inv after s =
      (Task.after answer line rest).flat fuel inv after u := by
  simp only [Task.flat, Exec.proceed]
  rw [enterCall_apply { inv with line } x.target after hpush hrun]
  simp only [Invocation.scope] at hreturn ⊢
  rw [hreturn]

end

end Structured

end LineScript
