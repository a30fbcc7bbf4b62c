import LineScript.Proofs.Machine.Returns

/-!
# The values that a step binds

A line binds the values of its expressions, which are parts of its operand, and the function
that it defines. All else that a step binds was bound before, or is given back by a call.

- `Instruction.Defines`: a line that defines a function when it is reached.
- `Exec.KeepsFrom`: a computation that keeps a property of all bound values, from one state.
- `beginLine_declare`: what a declaration does that has an identifier and a value.
- `keepsFrom_beginLine`: the first part of a line keeps a property that its expressions and
  its definition keep.
- `Config.allValues_step`: so does a step, if what is given back has the property.
-/

namespace LineScript

/-- The line defines a function with this header when it is reached: a declaration looks at
its target before it makes the call. -/
structure Instruction.Defines (i : Instruction) (header : List Char) : Prop where
  header : i.header? = some header
  target : ∀ target, i.declared? = some target → isIdentifier target.id = true

namespace Exec

variable {α β : Type} {P : Value → Prop} {s : State}

/-- From the state `s` on, the computation keeps the property of all bound values. -/
def KeepsFrom (s : State) (P : Value → Prop) (x : Exec α) : Prop :=
  s.env.AllValues P → (x s).2.env.AllValues P

theorem Keeps.keepsFrom {Q : α → Prop} {x : Exec α} (h : Keeps P Q x) : KeepsFrom s P x :=
  fun hs => (h s hs).1

theorem KeepsFrom.bind {x : Exec α} {f : α → Exec β} (hx : KeepsFrom s P x)
    (hf : ∀ a, Keeps P (fun _ => True) (f a)) : KeepsFrom s P (x >>= f) := by
  intro hs
  have hxs := hx hs
  rw [bind_apply]
  generalize x s = result at hxs
  obtain ⟨r, t⟩ := result
  cases r with
  | error e => exact hxs
  | ok a => exact (hf a t hxs).1

/-- An expression that has a value is evaluated without a change of the state. -/
theorem evaluate_of_ok {scope : ScopeId} {text : String} {v : Value}
    (h : Expr.evaluate (s.lookup scope) text = .ok v) : evaluate scope text s = (.ok v, s) := by
  rw [evaluate, h]
  rfl

/-- A computation that changes no binding. -/
theorem Keeps.of_idles {x : Exec α} (h : Stays Idles x) : Keeps P (fun _ => True) x := by
  intro s hs
  refine ⟨?_, fun _ _ => trivial⟩
  rwa [(h s).1.env_eq]

end Exec

/-! ### The first part of a line -/

section

open Exec

variable {P : Value → Prop} {b : Block} {index : Nat} {i : Instruction} {s : State}

theorem keeps_enterCall_values {inv : Invocation} {f : Function} {values : List Value}
    (hvalues : ∀ v ∈ values, P v) (target : Option Target) (after : Control) :
    Keeps P (fun _ => True) (enterCall inv f values target after) := by
  intro s hs
  rw [enterCall]
  cases s.calls.push ⟨f.label, some inv.line⟩ with
  | error cause => exact Keeps.fail _ cause s hs
  | ok calls =>
    exact ⟨(hs.child _).bindAll _ fun p hp => hvalues p.2 (List.of_mem_zip hp).2,
      fun _ _ => trivial⟩

theorem keeps_beginConditional_values {inv : Invocation} :
    Keeps P (fun _ => True) (beginConditional inv) := by
  refine .bind (.of_idles (idles_evaluate _ _)) fun condition _ =>
    .bind (.of_idles (idles_ofOption _ _)) fun layout _ => ?_
  dsimp only
  split
  · exact .pure trivial
  · exact fun s hs => ⟨hs.child _, fun _ _ => trivial⟩

/-- A callee is bound already, or the line defines it. -/
theorem keepsFrom_resolveCallee {operand callee : List Char} {args : List (List Char)}
    (hcall : i.callOperand? = some operand)
    (hargs : Expr.splitArguments operand = .ok (callee :: args))
    (hdefine : ∀ header, i.header? = some header →
      KeepsFrom s P (defineFunction ⟨b, index, i.operand, i.line⟩ header)) :
    KeepsFrom s P (resolveCallee ⟨b, index, i.operand, i.line⟩ callee) := by
  have hheader := Instruction.header?_of_call hcall hargs
  rw [resolveCallee]
  cases h : inlineHeader? callee with
  | some header => exact (hdefine header (hheader.trans h)).bind fun _ => .pure trivial
  | none =>
    exact Keeps.keepsFrom (Q := fun _ => True)
      (.bind (.of_idles (idles_lookupFunction _ _)) fun _ _ => .pure trivial)

variable (hundefined : P .undefined)
  (heval : ∀ text : String, text.toList ⊆ i.operandChars → Keeps P P (evaluate b.scope text))

include hundefined heval

theorem keepsFrom_beginCall {operand : List Char} (hcall : i.callOperand? = some operand)
    (hoperand : operand ⊆ i.operandChars)
    (hdefine : ∀ header, i.header? = some header →
      KeepsFrom s P (defineFunction ⟨b, index, i.operand, i.line⟩ header))
    (target : Option Target) :
    KeepsFrom s P (beginCall ⟨b, index, i.operand, i.line⟩ operand target) := by
  rw [beginCall]
  cases hargs : Expr.splitArguments operand with
  | error c => exact Keeps.keepsFrom (.fail (fun _ => True) c)
  | ok callees =>
    rw [ofExcept_ok, pure_bind]
    cases callees with
    | nil => exact Keeps.keepsFrom (.fail (fun _ => True) _)
    | cons callee args =>
      -- the arguments are parts of the operand
      have harguments : ∀ arg ∈ args.map String.ofList, Keeps P P (evaluate b.scope arg) := by
        intro arg harg
        obtain ⟨a, ha, rfl⟩ := List.mem_map.1 harg
        refine heval _ ?_
        rw [String.toList_ofList]
        exact List.Subset.trans
          (Expr.splitArguments_subset hargs a (List.mem_cons_of_mem callee ha)) hoperand
      exact (keepsFrom_resolveCallee hcall hargs hdefine).bind fun r =>
        .bind (keeps_argumentValues hundefined _ harguments) fun values hvalues =>
          keeps_enterCall_values hvalues _ _

theorem keepsFrom_beginDeclare (hi : i.keyword = declareKeyword)
    (hdefine : ∀ header, i.Defines header →
      KeepsFrom s P (defineFunction ⟨b, index, i.operand, i.line⟩ header)) :
    KeepsFrom s P (beginDeclare ⟨b, index, i.operand, i.line⟩) := by
  have hcall := Instruction.callOperand?_declare hi
  have hdeclared : i.declared? = some (Target.ofText (splitDeclaration i.operandChars).1) := by
    rw [Instruction.declared?, if_pos hi]
  have hvalue := splitDeclaration_subset i.operandChars
  simp only [beginDeclare, Instruction.toList_operand]
  split
  · exact Keeps.keepsFrom (.fail (fun _ => True) _)
  · next hid =>
    split
    · exact Keeps.keepsFrom (Q := fun _ => True)
        (.bind (keeps_bindTarget _ _ hundefined) fun _ _ => .pure trivial)
    · cases hoperand : stripKeyword? (splitDeclaration i.operandChars).2 callKeyword with
      | some operand =>
        refine keepsFrom_beginCall hundefined heval (hcall.trans hoperand)
          (List.Subset.trans (stripKeyword?_subset hoperand) hvalue) (fun header hheader => ?_) _
        refine hdefine header ⟨hheader, fun target htarget => ?_⟩
        obtain rfl := Option.some.inj (hdeclared.symm.trans htarget)
        simpa using hid
      | none =>
        refine Keeps.keepsFrom (Q := fun _ => True) (.bind (heval _ ?_) fun v hv =>
          .bind (keeps_bindTarget _ _ hv) fun _ _ => .pure trivial)
        rwa [String.toList_ofList]

omit hundefined heval in
/-- A line with a keyword of the language begins, and then it does what the keyword says. -/
theorem beginLine_of_word {k : Builtin} (hk : (i.keyword, k) ∈ Builtin.words) :
    beginLine standardTable b index i s = k.begin ⟨b, index, i.operand, i.line⟩ s.ticked := by
  rw [beginLine, find?_standardTable.2 ⟨k, hk, rfl⟩]
  rfl

omit hundefined heval in
/-- A declaration with an identifier and a value is the call that the value makes, or the
evaluation of the value. -/
theorem beginLine_declare {target : Target} (htarget : i.declared? = some target)
    (hid : isIdentifier target.id = true)
    (hvalue : (splitDeclaration i.operandChars).2.isEmpty = false) :
    beginLine standardTable b index i s =
      i.callOperand?.elim
        (do
          let v ← evaluate b.scope (String.ofList (splitDeclaration i.operandChars).2)
          bindTarget b.scope target v
          return Entry.finished .next)
        (fun operand => beginCall ⟨b, index, i.operand, i.line⟩ operand (some target))
        s.ticked := by
  have hk := Instruction.keyword_of_declared? htarget
  have hword : (i.keyword, Builtin.declare) ∈ Builtin.words := Builtin.mem_words hk
  rw [Instruction.declared?, if_pos hk] at htarget
  obtain rfl := Option.some.inj htarget
  rw [beginLine_of_word hword, Builtin.begin, beginDeclare, Instruction.callOperand?_declare hk]
  simp only [Instruction.toList_operand, Invocation.scope, hid, hvalue, Bool.not_true,
    Bool.false_eq_true, if_false]
  cases stripKeyword? (splitDeclaration i.operandChars).2 callKeyword with
  | none => rw [Option.elim_none]
  | some operand => rw [Option.elim_some]

/-- The first part of a line keeps a property of all bound values that undefined has, that
the expressions in its operand keep, and that the definition of a function keeps, if the line
defines one. -/
theorem keepsFrom_beginLine
    (hdefine : ∀ header, i.Defines header →
      KeepsFrom s.ticked P (defineFunction ⟨b, index, i.operand, i.line⟩ header)) :
    KeepsFrom s P (beginLine standardTable b index i) := by
  have hidle : ∀ {x : Exec Control}, Stays Idles x →
      KeepsFrom s.ticked P (do return Entry.finished (← x)) :=
    fun hx => Keeps.keepsFrom (Q := fun _ => True) (.bind (.of_idles hx) fun _ _ => .pure trivial)
  cases h : standardTable.find? i.keyword with
  | none =>
    rw [beginLine, h]
    exact fun hs => hs
  | some handler =>
    obtain ⟨k, hk, rfl⟩ := find?_standardTable.1 h
    have hword := Builtin.eq_word hk
    have hnone (hi : i.keyword ≠ declareKeyword) : i.declared? = none := if_neg hi
    suffices hbegin : KeepsFrom s.ticked P (k.begin ⟨b, index, i.operand, i.line⟩) by
      intro hs
      rw [beginLine_of_word hk]
      exact hbegin hs
    cases k with
    | declare =>
      rw [Builtin.begin]
      exact keepsFrom_beginDeclare hundefined heval hword hdefine
    | assign =>
      rw [Builtin.begin]
      refine Keeps.keepsFrom (Q := fun _ => True) (.bind (keeps_runAssign fun text htext => ?_)
        fun _ _ => .pure trivial)
      refine heval text (List.Subset.trans htext ?_)
      rw [Instruction.toList_operand]
      exact List.Subset.refl _
    | jump => exact hidle (idles_runJump _)
    | wait => exact hidle (idles_runWait _)
    | conditional => exact keeps_beginConditional_values.keepsFrom
    | ignore => exact fun hs => hs
    | output => exact hidle (idles_runOutput _)
    | function =>
      have hheader : i.header? = some i.operandChars := by
        rw [Instruction.header?]
        exact if_pos hword
      have hdefines : i.Defines i.operandChars := by
        refine ⟨hheader, fun target htarget => ?_⟩
        rw [hnone (by rw [hword]; decide)] at htarget
        cases htarget
      rw [Builtin.begin, Builtin.runFunction, Instruction.toList_operand]
      exact ((hdefine _ hdefines).bind fun _ => .pure trivial).bind fun _ => .pure trivial
    | call =>
      have hcall : i.callOperand? = some i.operandChars := by
        rw [Instruction.callOperand?]
        exact if_pos hword
      rw [Builtin.begin, Instruction.toList_operand]
      refine keepsFrom_beginCall hundefined heval hcall (List.Subset.refl _)
        (fun header hheader => hdefine header ⟨hheader, fun target htarget => ?_⟩) none
      rw [hnone (by rw [hword]; decide)] at htarget
      cases htarget
    | leave => exact hidle (idles_runLeave _)

end

/-! ### A step -/

/-- When a call is over, its value is bound, if a declaration waits for it. -/
theorem Pending.allValues_resume {P : Value → Prop} (hundefined : P .undefined) (p : Pending)
    {r : Except Stop Outcome} {s : State} (hs : s.env.AllValues P)
    (hr : ∀ v, r = .ok (.returned v) → P v) : (p.resume r s).2.env.AllValues P := by
  cases p with
  | branch depth endTarget => exact hs.release depth
  | call f depth scope target after =>
    cases r with
    | error e => exact hs.release depth
    | ok outcome =>
      have hvalue : P outcome.callValue := by
        cases outcome with
        | completed | escaped => exact hundefined
        | returned v => exact hr v rfl
      cases target with
      | none => exact hs.release depth
      | some target =>
        have hbind : Exec.Keeps P (fun _ => True)
            (bindResult scope (some target) (outcome.callValue, after)) :=
          .bind (keeps_bindTarget scope target hvalue) fun _ _ => .pure trivial
        exact (hbind _ (hs.release depth)).1

namespace Config

/-- The state after the first part of a line is that of the next moment. -/
theorem state_step_running {b : Block} {index : Nat} {i : Instruction} {outer : List Suspended}
    {s : State} (hi : b.code[index]? = some i) :
    (running b index outer s).step.state = (beginLine standardTable b index i s).2 := by
  rw [step_running hi]
  rcases beginLine standardTable b index i s with ⟨e | control | ⟨inner, pending⟩, t⟩
  · rfl
  · rfl
  · rfl

/-- A step binds no value but what the line at hand binds and what is given back. -/
theorem allValues_step {P : Value → Prop} (hundefined : P .undefined) {c : Config}
    (hline : ∀ b index i outer s, c = running b index outer s → b.code[index]? = some i →
      Exec.KeepsFrom s P (beginLine standardTable b index i))
    (hbound : c.state.env.AllValues P) (hgiven : ∀ v, c.given? = some v → P v) :
    c.step.state.env.AllValues P := by
  cases c with
  | running b index outer s =>
    cases hi : b.code[index]? with
    | none =>
      simp only [step, hi]
      exact hbound
    | some i =>
      rw [state_step_running hi]
      exact hline b index i outer s rfl hi hbound
  | answered b index line outer r s =>
    cases r with
    | error e => exact hbound
    | ok control =>
      simp only [step]
      cases b.next index control with
      | inl next => exact hbound
      | inr outcome => exact hbound
  | ended outer r s =>
    cases outer with
    | nil => exact hbound
    | cons w outer =>
      refine w.pending.allValues_resume hundefined hbound fun v hv => hgiven v ?_
      rw [hv]
      rfl

end Config

end LineScript
