import LineScript.Proofs.Machine.Arguments
import LineScript.Proofs.Machine.Output

/-!
# Where functions come from

A function is made by a line that defines it, with an identity that is counted up each time.
From then on it is only handed on: an expression makes no function, and a line brings no
other values into a state than those of its expressions.

- `defineFunction_cases`: a definition fails, or it makes one function and counts up.
- `beginLine_defines`: a line that defines a function does so first, and counts no further.
- `Config.Makes`: the line at hand makes a function; `Makes.nextId_lt`, `nextId_le_step`.
- `Config.Holds`: a function is bound in a frame, given back or printed.
- `Config.holds_step`: what is held after a step was held before, or the step has made it.
-/

namespace LineScript

open Exec

/-! ### Definitions -/

/-- A definition fails and changes nothing, or it takes the next identity for one function and
binds that under its name. -/
theorem defineFunction_cases (inv : Invocation) (header : List Char) (s : State) :
    (∃ cause, defineFunction inv header s = Exec.fail cause s) ∨
      ∃ f endAt, f.id = s.nextId ∧
        defineFunction inv header s =
          (.ok (f, endAt),
            { s with
              nextId := s.nextId + 1
              env := f.name.elim s.env fun name =>
                s.env.declare inv.scope name ⟨.function f, false⟩ }) := by
  rw [defineFunction]
  cases (Text.words header).map String.ofList with
  | nil => exact .inl ⟨_, rfl⟩
  | cons name params =>
    rw [bodyFrom]
    cases layout? inv.block.code (inv.index + 1) with
    | none => exact .inl ⟨_, rfl⟩
    | some layout =>
      let body := (inv.block.code.take layout.endAt).drop (inv.index + 1)
      by_cases hname : name = anonymousName
      · refine .inr ⟨⟨s.nextId, none, params, body⟩, layout.endAt, rfl, ?_⟩
        simp only [if_pos hname]
        rfl
      · refine .inr ⟨⟨s.nextId, some name, params, body⟩, layout.endAt, rfl, ?_⟩
        simp only [if_neg hname]
        rfl

/-- The function that a definition makes has the identity that was next. -/
theorem id_of_defineFunction {inv : Invocation} {header : List Char} {s t : State} {f : Function}
    {endAt : Nat} (h : defineFunction inv header s = (.ok (f, endAt), t)) :
    f.id = s.nextId ∧ t.nextId = s.nextId + 1 := by
  obtain ⟨cause, hfails⟩ | ⟨g, endAt', hid, hmade⟩ := defineFunction_cases inv header s
  · rw [hfails] at h
    cases h
  · rw [hmade] at h
    obtain ⟨hr, rfl⟩ := Prod.mk.inj h
    obtain ⟨rfl, rfl⟩ := Prod.mk.inj (Except.ok.inj hr)
    exact ⟨hid, rfl⟩

/-! ### Lines that define functions -/

section

variable {i : Instruction} {header : List Char}

/-- A computation that takes no identity. -/
def Exec.TakesNone {α : Type} (x : Exec α) : Prop :=
  ∀ s, (x s).2.nextId = s.nextId

/-- What comes after the callee takes no identity. -/
theorem takesNone_enterCall (inv : Invocation) (f : Function) (args : List String)
    (target : Option Target) (after : Control) :
    TakesNone (do
      let values ← argumentValues inv.scope f.params args
      enterCall inv f values target after) := by
  intro s
  rw [Exec.bind_apply, argumentValues_apply]
  cases (args.take f.params.length).mapM (Expr.evaluate (s.lookup inv.scope)) with
  | error cause => rfl
  | ok values =>
    show (enterCall inv f _ target after s).2.nextId = s.nextId
    rw [enterCall]
    cases s.calls.push ⟨f.label, some inv.line⟩ with
    | error cause => rfl
    | ok calls => rfl

/-- A line with a header is a definition, or a call that has one as its first argument. -/
theorem Instruction.call_of_header? (hk : i.keyword ≠ functionKeyword)
    (hheader : i.header? = some header) :
    ∃ operand callee args, i.callOperand? = some operand ∧
      Expr.splitArguments operand = .ok (callee :: args) ∧
      inlineHeader? callee = some header := by
  rw [header?, if_neg hk] at hheader
  cases hcall : i.callOperand? with
  | none =>
    rw [hcall] at hheader
    cases hheader
  | some operand =>
    rw [hcall, Option.map_some] at hheader
    cases hargs : Expr.splitArguments operand with
    | error cause =>
      rw [hargs] at hheader
      cases hheader
    | ok callees =>
      rw [hargs] at hheader
      cases callees with
      | nil => cases hheader
      | cons callee args => exact ⟨operand, callee, args, rfl, hargs, hheader⟩

/-- A line with a call is that call. A declaration looks at its target before, and waits for
the value. -/
theorem beginLine_of_call {operand : List Char} (hcall : i.callOperand? = some operand)
    (htarget : ∀ target, i.declared? = some target → isIdentifier target.id = true) (b : Block)
    (index : Nat) (s : State) :
    beginLine standardTable b index i s =
      beginCall ⟨b, index, i.operand, i.line⟩ operand i.declared? s.ticked := by
  obtain hk | hk := Instruction.keyword_of_callOperand? hcall
  · have hword : (i.keyword, Builtin.call) ∈ Builtin.words := Builtin.mem_words hk
    have hnone : i.declared? = none := by
      rw [Instruction.declared?, hk]
      rfl
    rw [Instruction.callOperand?, if_pos hk] at hcall
    rw [beginLine_of_word hword, Builtin.begin, Instruction.toList_operand, hnone,
      Option.some.inj hcall]
  · have hdeclared : i.declared? = some (Target.ofText (splitDeclaration i.operandChars).1) := by
      rw [Instruction.declared?, if_pos hk]
    rw [beginLine_declare hdeclared (htarget _ hdeclared)
      (Instruction.isEmpty_splitDeclaration hk hcall), hcall, hdeclared]
    rfl

/-- What a call does after the definition that is its first argument. -/
def afterInline (inv : Invocation) (args : List (List Char)) (target : Option Target)
    (r : Function × Nat) : Exec Entry := do
  let values ← argumentValues inv.scope r.1.params (args.map String.ofList)
  enterCall inv r.1 values target (.goto (inv.block.origin + r.2 + 1))

theorem beginCall_inline {inv : Invocation} {operand callee : List Char}
    {args : List (List Char)} (hargs : Expr.splitArguments operand = .ok (callee :: args))
    (hinline : inlineHeader? callee = some header) (target : Option Target) :
    beginCall inv operand target = defineFunction inv header >>= afterInline inv args target := by
  rw [beginCall, hargs, Exec.ofExcept_ok, pure_bind]
  simp only [resolveCallee, hinline, bind_assoc, pure_bind]
  rfl

/-- A line that defines a function does so first, and takes no other identity. -/
theorem beginLine_defines (b : Block) (index : Nat) (h : i.Defines header) :
    ∃ rest : Function × Nat → Exec Entry, (∀ r, TakesNone (rest r)) ∧
      ∀ s, beginLine standardTable b index i s =
        (defineFunction ⟨b, index, i.operand, i.line⟩ header >>= rest) s.ticked := by
  by_cases hk : i.keyword = functionKeyword
  · have hword : (i.keyword, Builtin.function) ∈ Builtin.words := Builtin.mem_words hk
    obtain rfl : header = i.operandChars := by
      have hheader := h.header
      rw [Instruction.header?, if_pos hk] at hheader
      exact (Option.some.inj hheader).symm
    refine ⟨fun r => pure (.finished (.goto (b.origin + r.2 + 1))), fun r s => rfl, fun s => ?_⟩
    rw [beginLine_of_word hword, Builtin.begin, Builtin.runFunction, Instruction.toList_operand,
      bind_assoc]
    rfl
  · obtain ⟨operand, callee, args, hcall, hargs, hinline⟩ :=
      Instruction.call_of_header? hk h.header
    refine ⟨afterInline ⟨b, index, i.operand, i.line⟩ args i.declared?,
      fun r => takesNone_enterCall _ _ _ _ _, fun s => ?_⟩
    rw [beginLine_of_call hcall h.target, beginCall_inline hargs hinline]

end

namespace Config

/-! ### Functions that are made -/

/-- The line at hand makes the function: its definition succeeds. -/
inductive Makes : Config → Function → Prop where
  | line {b : Block} {index : Nat} {i : Instruction} {outer : List Suspended} {s t : State}
      {header : List Char} {f : Function} {endAt : Nat} (hi : b.code[index]? = some i)
      (hdefines : i.Defines header)
      (hmade : defineFunction ⟨b, index, i.operand, i.line⟩ header s.ticked =
        (.ok (f, endAt), t)) :
      Makes (running b index outer s) f

variable {c : Config} {f g : Function}

/-- A function gets the identity that is next. -/
theorem Makes.id_eq (h : c.Makes f) : f.id = c.state.nextId := by
  cases h with
  | line _ _ hmade => exact (id_of_defineFunction hmade).1

/-- When a function has been made, other identities are next. -/
theorem Makes.nextId_lt (h : c.Makes f) : c.state.nextId < c.step.state.nextId := by
  cases h with
  | @line b index i outer s t header f endAt hi hdefines hmade =>
    obtain ⟨rest, hrest, hbegin⟩ := beginLine_defines b index hdefines
    rw [state_step_running hi, hbegin, Exec.bind_of_ok hmade, hrest,
      (id_of_defineFunction hmade).2]
    exact Nat.lt_succ_self _

/-- No identity is given back. -/
theorem nextId_le_step (c : Config) : c.state.nextId ≤ c.step.state.nextId := by
  have hsteady : ∀ scope, Steady scope fun s t => s.nextId ≤ t.nextId := fun scope =>
    { refl := fun s => Nat.le_refl _
      trans := Nat.le_trans
      tick := fun s => Nat.le_refl _
      sleep := fun s n => Nat.le_refl _
      emit := fun s v => Nat.le_refl _
      fresh := fun s => Nat.le_succ _
      declare := fun s id b => Nat.le_refl _
      rebind := fun _ _ _ => Nat.le_refl _ }
  have hstep := c.stepsTo
  generalize c.step = d at hstep ⊢
  cases hstep with
  | atEnd | error | goesOn | leaves | halted => exact Nat.le_refl _
  | @failed b _ _ _ _ _ _ _ hdoes | @finished b _ _ _ _ _ _ _ hdoes =>
    exact (hsteady b.scope).does hdoes
  | @opens b _ _ _ _ _ _ _ _ _ hdoes ho =>
    have hline := (hsteady b.scope).does hdoes
    cases ho with
    | branch | call => exact hline
  | @resumes w _ r s =>
    have hclose : (w.pending.close s).nextId = s.nextId := by
      cases w.pending with
      | branch | call => rfl
    exact Nat.le_trans (Nat.le_of_eq hclose.symm) (w.pending.resume_related hsteady r s)

end Config

/-! ### Functions that are held -/

/-- The function is bound in a frame. -/
def Environment.Binds (env : Environment) (f : Function) : Prop :=
  ∃ scope id constant, (id, ⟨.function f, constant⟩) ∈ env.bindings scope

/-- A property of functions as one of values: if the value is a function, it has the property. -/
def Value.OfFunction (Q : Function → Prop) (v : Value) : Prop :=
  ∀ f, v = .function f → Q f

theorem Value.ofFunction_of_type {Q : Function → Prop} (v : Value) (hv : v.type ≠ .function) :
    v.OfFunction Q := by
  rintro f rfl
  exact absurd rfl hv

theorem Environment.allValues_ofFunction_iff {Q : Function → Prop} {env : Environment} :
    env.AllValues (Value.OfFunction Q) ↔ ∀ f, env.Binds f → Q f := by
  constructor
  · rintro h f ⟨scope, id, constant, hp⟩
    exact h.bindings scope _ hp f rfl
  · rintro h frame hframe ⟨id, v, constant⟩ hp f rfl
    obtain ⟨scope, hscope, rfl⟩ := Array.mem_iff_getElem.1 hframe
    refine h f ⟨scope, id, constant, ?_⟩
    rw [Environment.bindings, Array.getElem?_eq_getElem hscope]
    exact hp

/-- An expression makes no function: the one that it gives is bound. -/
theorem Expr.binds_of_evaluate {s : State} {scope : ScopeId} {text : String} {f : Function}
    (h : evaluate (s.lookup scope) text = .ok (.function f)) : s.env.Binds f := by
  have hall : s.env.AllValues (Value.OfFunction s.env.Binds) :=
    Environment.allValues_ofFunction_iff.2 fun _ hf => hf
  have hlookup : ∀ id v, s.lookup scope id = some v → v.OfFunction s.env.Binds := by
    intro id v hv
    obtain ⟨b, hb, rfl⟩ := Option.map_eq_some_iff.1 hv
    exact hall.find? hb
  exact evaluate_of Value.ofFunction_of_type hlookup h f rfl

namespace Config

/-- The function is a value of the moment: it is bound in a frame, a line or a block gives it
back, or it is printed. -/
inductive Holds (c : Config) (f : Function) : Prop where
  | bound (h : c.state.env.Binds f)
  | given (h : c.given? = some (.function f))
  | printed (h : c.printed? = some (.function f))

variable {c : Config} {f : Function}

/-- A function is printed only if it is bound. -/
theorem binds_of_printed (h : c.printed? = some (.function f)) : c.state.env.Binds f := by
  cases c with
  | answered | ended => cases h
  | running b index outer s =>
    cases hi : b.code[index]? with
    | none =>
      rw [printed?, hi] at h
      cases h
    | some i =>
      rw [printed?_running hi, Instruction.outputValue] at h
      split at h
      · split at h
        · cases h
        · cases hvalue : Expr.evaluate (s.lookup b.scope) i.operand with
          | error e =>
            rw [hvalue] at h
            cases h
          | ok v =>
            rw [hvalue] at h
            obtain rfl : v = .function f := Option.some.inj h
            exact Expr.binds_of_evaluate hvalue
      · cases h

/-- What is held after a step was held before, or the step has made it. -/
theorem holds_step (honward : ∀ w ∈ c.outer, w.pending.Onward) (h : c.step.Holds f) :
    c.Holds f ∨ c.Makes f := by
  have hbound : c.step.state.env.AllValues
      (Value.OfFunction fun f => c.Holds f ∨ c.Makes f) := by
    refine allValues_step (Value.ofFunction_of_type _ nofun) ?_ ?_ ?_
    · rintro b index i outer s rfl hi
      refine keepsFrom_beginLine (Value.ofFunction_of_type _ nofun)
        (fun text _ => keeps_evaluate Value.ofFunction_of_type _ _) fun header hdefines hs => ?_
      obtain ⟨cause, hfails⟩ | ⟨g, endAt, -, hmade⟩ :=
        defineFunction_cases ⟨b, index, i.operand, i.line⟩ header s.ticked
      · rw [hfails]
        exact hs
      · rw [hmade]
        cases g.name with
        | none => exact hs
        | some name =>
          refine hs.declare _ _ ?_
          rintro f ⟨⟩
          exact .inr (.line hi hdefines hmade)
    · exact Environment.allValues_ofFunction_iff.2 fun _ hf => .inl (.bound hf)
    · rintro v hv f rfl
      exact .inl (.given hv)
  have hbinds := Environment.allValues_ofFunction_iff.1 hbound
  cases h with
  | bound h => exact hbinds f h
  | given h =>
    -- a function that is given back was so before, or it is the one of a `RET` line
    obtain ⟨hgiven, -, -⟩ | ⟨b, index, i, outer, s, rfl, hreturning, -, -⟩ :=
      given_of_step honward h
    · exact .inl (.given hgiven)
    · have hvalue := hreturning.value
      split at hvalue
      · cases hvalue
      · exact .inl (.bound (Expr.binds_of_evaluate hvalue))
  | printed h => exact hbinds f (binds_of_printed h)

end Config

end LineScript
