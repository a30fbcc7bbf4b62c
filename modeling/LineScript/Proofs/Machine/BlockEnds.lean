import LineScript.Proofs.Expr.Failures
import LineScript.Proofs.Machine.Bodies
import LineScript.Proofs.Program.Balance
import LineScript.Proofs.Program.Inline

/-!
# Balanced programs find their `END`s

A run looks for the `END` of a block among the lines that it executes at that
moment, and jumps may come to any of them. When a program is balanced, then so
are the lines of every moment, and none of them looks in vain.

- `Instruction.runsInline`, `Closed`: balanced lines, of which those that come to
  call a function that they define open a block.
- `Cause.findsEnd`, `Exec.FindsEnds`: a computation that never fails for a missing
  `END`.
- `findsEnds_beginLine`: the lines of closed code find their `END`s.
- `run_ne_unterminatedBlock`: a balanced program never reports a block without `END`.
-/

namespace LineScript

/-! ### Closed code -/

/-- The bodies and branches in balanced code are balanced. -/
theorem Balanced.inherited : Inherited Balanced where
  body _ hlayout := (layout?_balanced hlayout).1
  branch _ hlayout hchosen := by
    obtain ⟨hbody, hbranches⟩ := layout?_balanced hlayout
    obtain ⟨-, rfl, rfl⟩ | ⟨k, helse, hpart⟩ := chosenBranch_cases hchosen
    · exact hbody
    · obtain ⟨hfirst, hsecond⟩ := hbranches k helse
      obtain ⟨rfl, rfl⟩ | ⟨rfl, rfl⟩ := hpart
      · exact hfirst
      · exact hsecond

/-- Whether a line comes to call a function that it defines. A declaration of what
is no identifier fails before its call. -/
def Instruction.runsInline (i : Instruction) : Bool :=
  i.callsInline && (i.keyword = callKeyword ||
    isIdentifier (Target.ofText (splitDeclaration i.operandChars).1).id)

/-- The lines are balanced, and every line that comes to call a function that it
defines opens a block for the body. -/
def Closed (code : List Instruction) : Prop :=
  Balanced code ∧ ∀ i ∈ code, i.runsInline = true → i.opensBlock = true

/-- The bodies and branches in closed code are closed. -/
theorem Closed.inherited : Inherited Closed :=
  Balanced.inherited.and (.forall_mem _)

/-! ### Causes other than a missing `END` -/

/-- Whether a cause is another than a block without its `END`. -/
def Cause.findsEnd : Cause → Bool
  | .unterminatedBlock _ => false
  | _ => true

theorem Cause.ne_unterminatedBlock {c : Cause} (h : c.findsEnd = true) (keyword : String) :
    c ≠ .unterminatedBlock keyword := by
  rintro rfl
  cases h

theorem Cause.OfExpression.findsEnd_eq {c : Cause} (h : c.OfExpression) : c.findsEnd = true := by
  cases h <;> rfl

namespace Exec

variable {α β : Type}

/-- If the computation fails, it is not for a missing `END`. -/
def FindsEnds (x : Exec α) : Prop :=
  ∀ s e, (x s).1 = .error (.failed e) → e.cause.findsEnd = true

theorem FindsEnds.pure (a : α) : FindsEnds (Pure.pure a : Exec α) :=
  fun _ _ h => nomatch h

theorem FindsEnds.fail {c : Cause} (h : c.findsEnd = true) : FindsEnds (fail c : Exec α) := by
  intro s e he
  obtain rfl := Stop.failed.inj (Except.error.inj he)
  exact h

theorem FindsEnds.bind {x : Exec α} {f : α → Exec β} (hx : FindsEnds x)
    (hf : ∀ a, FindsEnds (f a)) : FindsEnds (x >>= f) := by
  intro s e he
  rw [bind_apply] at he
  cases h : x s with
  | mk r t =>
    rw [h] at he
    cases r with
    | ok a => exact hf a t e he
    | error e' =>
      refine hx s e ?_
      rw [h]
      exact congrArg _ (Except.error.inj he)

theorem FindsEnds.modify (f : State → State) : FindsEnds (modify f) :=
  fun _ _ h => nomatch h

theorem FindsEnds.get : FindsEnds get :=
  fun _ _ h => nomatch h

theorem FindsEnds.freshId : FindsEnds freshId :=
  fun _ _ h => nomatch h

theorem FindsEnds.declare (scope : ScopeId) (id : String) (b : Binding) :
    FindsEnds (declare scope id b) :=
  .modify _

theorem FindsEnds.ofExcept {r : Except Cause α} (h : ∀ c, r = .error c → c.findsEnd = true) :
    FindsEnds (ofExcept r) := by
  cases r with
  | ok a => exact .pure a
  | error c => exact .fail (h c rfl)

theorem FindsEnds.evaluate (scope : ScopeId) (text : String) : FindsEnds (evaluate scope text) :=
  fun s => FindsEnds.ofExcept (fun _ h => (Expr.evaluate_error h).findsEnd_eq) s

end Exec

/-! ### Lines -/

section

open Exec

theorem findsEnds_bindTarget (scope : ScopeId) (target : Target) (v : Value) :
    FindsEnds (bindTarget scope target v) := by
  rw [bindTarget]
  split
  · exact .fail rfl
  · exact .declare _ _ _

theorem findsEnds_bindResult (scope : ScopeId) (target : Option Target)
    (result : Value × Control) : FindsEnds (bindResult scope target result) := by
  cases target with
  | none => exact .pure _
  | some target => exact .bind (findsEnds_bindTarget _ _ _) fun _ => .pure _

theorem findsEnds_argumentValues (scope : ScopeId) (params args : List String) :
    FindsEnds (argumentValues scope params args) := by
  induction params generalizing args with
  | nil => exact .pure _
  | cons param params ih =>
    cases args with
    | nil => exact .bind (ih []) fun _ => .pure _
    | cons arg args =>
      exact .bind (.evaluate _ _) fun _ => .bind (ih args) fun _ => .pure _

theorem findsEnds_lookupFunction (scope : ScopeId) (name : String) :
    FindsEnds (lookupFunction scope name) := by
  refine .bind .get fun s => ?_
  split
  · exact .fail rfl
  · exact .pure _
  · exact .fail rfl

variable (inv : Invocation)

theorem findsEnds_runAssign : FindsEnds (Builtin.runAssign inv) := by
  simp only [Builtin.runAssign]
  split
  · exact .fail rfl
  · refine .bind .get fun s => ?_
    split
    · exact .fail rfl
    · split
      · exact .fail rfl
      · exact .bind (.evaluate _ _) fun _ => .bind (.modify _) fun _ => .pure _

theorem findsEnds_runJump : FindsEnds (Builtin.runJump inv) :=
  Builtin.runJump_of (fun _ => .pure _) (fun _ => .fail rfl) (.pure _)
    fun _ hf => .bind (.evaluate _ _) hf

theorem findsEnds_runWait : FindsEnds (Builtin.runWait inv) := by
  refine .bind (.evaluate _ _) fun v => ?_
  split
  · exact .bind (.modify _) fun _ => .pure _
  · exact .fail rfl

theorem findsEnds_runOutput : FindsEnds (Builtin.runOutput inv) := by
  simp only [Builtin.runOutput]
  split
  · exact .bind (.pure _) fun _ => .bind (.modify _) fun _ => .pure _
  · exact .bind (.evaluate _ _) fun _ => .bind (.modify _) fun _ => .pure _

theorem findsEnds_runLeave : FindsEnds (Builtin.runLeave inv) := by
  refine .bind .get fun s => ?_
  split
  · exact .fail rfl
  · split
    · exact .pure _
    · exact .bind (.evaluate _ _) fun _ => .pure _

variable {inv}

/-- A definition needs the `END` of its body. -/
theorem findsEnds_defineFunction (header : List Char)
    (hlayout : ∃ layout, layout? inv.block.code (inv.index + 1) = some layout) :
    FindsEnds (defineFunction inv header) := by
  obtain ⟨layout, hlayout⟩ := hlayout
  rw [defineFunction]
  cases (Text.words header).map String.ofList with
  | nil => exact .fail rfl
  | cons name params =>
    have hbody : FindsEnds (bodyFrom inv.block (inv.index + 1)) := by
      rw [bodyFrom, hlayout]
      exact .pure _
    refine .bind hbody fun _ => .bind .freshId fun _ => ?_
    dsimp only
    split
    · exact .bind (.declare _ _ _) fun _ => .pure _
    · exact .pure _

/-- The `END` of the line at hand is needed if the callee is a definition. -/
theorem findsEnds_resolveCallee {callee : List Char}
    (hlayout : (inlineHeader? callee).isSome = true →
      ∃ layout, layout? inv.block.code (inv.index + 1) = some layout) :
    FindsEnds (resolveCallee inv callee) := by
  rw [resolveCallee]
  split
  · next header hinline =>
    exact .bind (findsEnds_defineFunction header (hlayout (by rw [hinline]; rfl))) fun _ => .pure _
  · exact .bind (findsEnds_lookupFunction _ _) fun _ => .pure _

/-- Only the limit of nested calls can be in the way of a call. -/
theorem findsEnds_enterCall (f : Function) (values : List Value) (target : Option Target)
    (after : Control) : FindsEnds (enterCall inv f values target after) := by
  intro s e he
  rw [enterCall] at he
  cases hpush : s.calls.push ⟨f.label, some inv.line⟩ with
  | error cause =>
    rw [hpush] at he
    obtain ⟨-, rfl⟩ := CallStack.push_eq_error_iff.1 hpush
    have hcause : (Cause.callDepthExceeded s.calls.limit).findsEnd = true := rfl
    exact FindsEnds.fail hcause s e he
  | ok calls =>
    rw [hpush] at he
    cases he

theorem findsEnds_beginCall {operand : List Char} (target : Option Target)
    (hlayout : ∀ callee args, Expr.splitArguments operand = .ok (callee :: args) →
      (inlineHeader? callee).isSome = true →
        ∃ layout, layout? inv.block.code (inv.index + 1) = some layout) :
    FindsEnds (beginCall inv operand target) := by
  rw [beginCall]
  cases hargs : Expr.splitArguments operand with
  | error c =>
    rw [ofExcept_error, fail_bind]
    exact .fail (Expr.splitArguments_error hargs).findsEnd_eq
  | ok callees =>
    simp only [ofExcept_ok, pure_bind]
    cases callees with
    | nil => exact .fail rfl
    | cons callee args =>
      exact .bind (findsEnds_resolveCallee (hlayout callee args hargs)) fun _ =>
        .bind (findsEnds_argumentValues _ _ _) fun _ => findsEnds_enterCall _ _ _ _

theorem findsEnds_beginDeclare
    (hlayout : isIdentifier (Target.ofText (splitDeclaration inv.operand.toList).1).id = true →
      ∀ operand callee args,
        stripKeyword? (splitDeclaration inv.operand.toList).2 callKeyword = some operand →
        Expr.splitArguments operand = .ok (callee :: args) →
        (inlineHeader? callee).isSome = true →
          ∃ layout, layout? inv.block.code (inv.index + 1) = some layout) :
    FindsEnds (beginDeclare inv) := by
  simp only [beginDeclare]
  split
  · exact .fail rfl
  · next hid =>
    split
    · exact .bind (findsEnds_bindTarget _ _ _) fun _ => .pure _
    · cases hvalue : stripKeyword? (splitDeclaration inv.operand.toList).2 callKeyword with
      | some operand =>
        refine findsEnds_beginCall _ fun callee args => hlayout ?_ operand callee args hvalue
        simpa using hid
      | none =>
        exact .bind (.evaluate _ _) fun _ => .bind (findsEnds_bindTarget _ _ _) fun _ => .pure _

theorem findsEnds_beginConditional
    (hlayout : ∃ layout, layout? inv.block.code (inv.index + 1) = some layout) :
    FindsEnds (beginConditional inv) := by
  obtain ⟨layout, hlayout⟩ := hlayout
  refine .bind (.evaluate _ _) fun condition => ?_
  rw [hlayout, ofOption_some, pure_bind]
  dsimp only
  split
  · exact .pure _
  · exact fun _ _ h => nomatch h

end

section

open Exec

variable {b : Block} {index : Nat} {i : Instruction}

/-- A line that executes no block. -/
theorem findsEnds_finished {x : Exec Control} (h : FindsEnds x) :
    FindsEnds (do return .finished (← x) : Exec Entry) :=
  .bind h fun _ => .pure _

/-- In closed code every line finds the `END` that it looks for. -/
theorem Builtin.findsEnds_begin (hcode : Closed b.code) (hi : b.code[index]? = some i)
    {k : Builtin} (hk : (i.keyword, k) ∈ Builtin.words) :
    FindsEnds (k.begin ⟨b, index, i.operand, i.line⟩) := by
  have hopens : i.opensBlock = true → ∃ layout, layout? b.code (index + 1) = some layout :=
    hcode.1.exists_layout hi
  have hinline : (i.keyword = callKeyword ∨
        isIdentifier (Target.ofText (splitDeclaration i.operandChars).1).id = true) →
      ∀ operand callee args, i.callOperand? = some operand →
        Expr.splitArguments operand = .ok (callee :: args) →
        (inlineHeader? callee).isSome = true →
          ∃ layout, layout? b.code (index + 1) = some layout := by
    intro hruns operand callee args hcall hargs hheader
    refine hopens (hcode.2 i (List.mem_of_getElem? hi) ?_)
    rw [Instruction.runsInline, Instruction.callsInline_of_arguments hcall hargs, hheader]
    simpa using hruns
  have hword := Builtin.eq_word hk
  cases k with
  | declare =>
    rw [Builtin.begin]
    refine findsEnds_beginDeclare fun hid operand callee args hvalue =>
      hinline (.inr ?_) operand callee args ?_
    · rw [← Instruction.toList_operand]
      exact hid
    · rw [Instruction.callOperand?_declare hword, ← Instruction.toList_operand]
      exact hvalue
  | assign => exact findsEnds_finished (findsEnds_runAssign _)
  | jump => exact findsEnds_finished (findsEnds_runJump _)
  | wait => exact findsEnds_finished (findsEnds_runWait _)
  | conditional =>
    exact findsEnds_beginConditional (hopens ((KeywordLine.mk i hword).opensBlock (.inl rfl)))
  | ignore => exact .pure _
  | output => exact findsEnds_finished (findsEnds_runOutput _)
  | function =>
    refine findsEnds_finished (.bind (findsEnds_defineFunction _ ?_) fun _ => .pure _)
    exact hopens ((KeywordLine.mk i hword).opensBlock (.inr rfl))
  | call =>
    rw [Builtin.begin]
    have hword : i.keyword = callKeyword := hword
    refine findsEnds_beginCall _ fun callee args => hinline (.inl hword) _ callee args ?_
    rw [Instruction.callOperand?, if_pos hword, ← Instruction.toList_operand]
  | leave => exact findsEnds_finished (findsEnds_runLeave _)

/-- A line of closed code fails only for something else than a missing `END`. -/
theorem findsEnds_beginLine (hcode : Closed b.code) (hi : b.code[index]? = some i) :
    FindsEnds (beginLine standardTable b index i) := by
  rw [beginLine]
  cases h : standardTable.find? i.keyword with
  | none =>
    refine .fail ?_
    rw [unrecognised]
    split
    · rfl
    · rfl
  | some handler =>
    obtain ⟨k, hk, rfl⟩ := find?_standardTable.1 h
    exact .bind (.modify _) fun _ => Builtin.findsEnds_begin hcode hi hk

end

/-! ### Runs -/

/-- A moment at which no line or block has failed for a missing `END`. -/
def Config.FindsEnds : Config → Prop
  | running .. => True
  | answered _ _ _ _ r _ => ∀ e, r = .error (.failed e) → e.cause.findsEnd = true
  | ended _ r _ => ∀ e, r = .error (.failed e) → e.cause.findsEnd = true

/-- What is left to do after a block passes the error of the block on, or fails
because a constant has no value. -/
theorem Pending.resume_findsEnd (p : Pending) {r : Except Stop Outcome} {s : State}
    (hr : ∀ e, r = .error (.failed e) → e.cause.findsEnd = true) :
    ∀ e, (p.resume r s).1 = .error (.failed e) → e.cause.findsEnd = true := by
  intro e he
  cases p with
  | branch depth endTarget => exact hr e (map_eq_error.1 he)
  | call f depth scope target after =>
    cases r with
    | ok outcome => exact findsEnds_bindResult scope target _ _ e he
    | error stop =>
      cases stop with
      | outOfFuel => cases he
      | failed e' =>
        obtain rfl := Stop.failed.inj (Except.error.inj he)
        rw [CallStack.cause_attach]
        exact hr e' rfl

/-- In closed code no step fails for a missing `END`. -/
theorem Config.FindsEnds.step (c : Config) (hc : c.RunsIn Closed) (h : c.FindsEnds) :
    c.step.FindsEnds := by
  cases c with
  | running b index outer s =>
    simp only [Config.step]
    cases hi : b.code[index]? with
    | none => rintro e ⟨⟩
    | some i =>
      have hbegin := findsEnds_beginLine hc.1 hi s
      dsimp only
      generalize beginLine standardTable b index i s = begun at hbegin
      obtain ⟨r, t⟩ := begun
      cases r with
      | error e => exact fun e' he => hbegin e' (congrArg _ (Except.error.inj he))
      | ok entry =>
        cases entry with
        | finished control => rintro e ⟨⟩
        | opens inner pending => trivial
  | answered b index line outer r s =>
    simp only [Config.step]
    cases r with
    | ok control =>
      dsimp only
      cases b.next index control with
      | inl next => trivial
      | inr outcome => rintro e ⟨⟩
    | error stop =>
      intro e he
      cases stop with
      | outOfFuel => cases he
      | failed e' =>
        obtain rfl := Stop.failed.inj (Except.error.inj he)
        rw [Error.cause_atLine]
        exact h e' rfl
  | ended outer r s =>
    cases outer with
    | nil => exact h
    | cons w outer => exact w.pending.resume_findsEnd h

/-- **A balanced program never reports an unterminated block.** When a program
opens and closes blocks in balance, and every call of a function that its line
defines opens a block, then no run of it fails for a missing `END`, whatever
jumps and calls it makes. -/
theorem run_ne_unterminatedBlock {p : Program} (hbalanced : Balanced p.instructions)
    (hinline : ∀ i ∈ p.instructions, i.runsInline = true → i.opensBlock = true) {limit : Nat}
    {sink : Sink} {fuel : Nat} {e : Error} {m : Interpreter}
    (hrun : (Interpreter.new limit sink []).run fuel p = (.error (.failed e), m))
    (keyword : String) : e.cause ≠ .unterminatedBlock keyword := by
  have hm := Interpreter.eq_of_run hrun
  rw [hm] at hrun
  obtain ⟨result, hreach, hresult⟩ :=
    (Interpreter.run_iff_reaches rfl).1 ⟨fuel, hrun, nofun⟩
  -- both the lines and the errors stay as they are at the start
  have hends := hreach.invariant (P := fun c => c.RunsIn Closed ∧ c.FindsEnds)
    (fun c hc => ⟨Config.RunsIn.step Closed.inherited c hc.1, Config.FindsEnds.step c hc.1 hc.2⟩)
    ⟨Interpreter.runsIn_start limit sink ⟨hbalanced, hinline⟩, trivial⟩
  exact Cause.ne_unterminatedBlock (hends.2 e (map_eq_error.1 hresult.symm)) keyword

/-- A jump into the branch of a conditional, in which a function is defined and
called. After the call the `END` of the conditional is at hand. -/
def enteredBranch : List Instruction :=
  [⟨"JUMP +1", 1⟩, ⟨"IF true", 2⟩, ⟨"CALL (FUNC _ n) true", 3⟩, ⟨"IF n", 4⟩, ⟨"RET n", 5⟩,
    ⟨"END", 6⟩, ⟨"END", 7⟩, ⟨"END", 8⟩]

/-- The run of `enteredBranch` fails, but not for a missing `END`. -/
theorem enteredBranch_ne_unterminatedBlock :
    Balanced enteredBranch ∧
    (∀ i ∈ enteredBranch, i.runsInline = true → i.opensBlock = true) ∧
    ∃ m, (Interpreter.new 10 .silent []).run 20 ⟨enteredBranch⟩ =
        (.error (.failed ⟨.strayBlockKeyword "END", some 8, none⟩), m) ∧
      ∀ keyword, Cause.strayBlockKeyword "END" ≠ .unterminatedBlock keyword := by
  have hbalanced : Balanced enteredBranch := by decide +kernel
  have hinline : ∀ i ∈ enteredBranch, i.runsInline = true → i.opensBlock = true := by
    decide +kernel
  have herror : ((Interpreter.new 10 .silent []).run 20 ⟨enteredBranch⟩).1 =
      .error (.failed ⟨.strayBlockKeyword "END", some 8, none⟩) := by decide +kernel
  obtain ⟨m, hrun⟩ : ∃ m, (Interpreter.new 10 .silent []).run 20 ⟨enteredBranch⟩ =
      (.error (.failed ⟨.strayBlockKeyword "END", some 8, none⟩), m) := by
    generalize (Interpreter.new 10 .silent []).run 20 ⟨enteredBranch⟩ = run at herror
    exact ⟨run.2, Prod.ext herror rfl⟩
  exact ⟨hbalanced, hinline, m, hrun, run_ne_unterminatedBlock hbalanced hinline hrun⟩

end LineScript
