import LineScript.Proofs.Machine.Sessions

/-!
# Constants

A step of a run writes at most one binding of the frames that were there before it:
a declaration or definition in the frame of its line, or the variable that an
assignment finds. So a constant stays as it is while its frame is live, until its
name is declared or defined there again.

- `Config.Writes`: the binding that a step writes.
- `Config.own?_step`: a step leaves every other binding as it is.
- `Config.Defines`: the step is that of a declaration or definition.
- `constant_kept`: what may change a constant.
- `constants_defined`: no constant is undefined, apart from those that an assignment
  makes undefined.
-/

namespace LineScript

namespace Instruction

/-- The name that a declaration binds. -/
def declaredName? (i : Instruction) : Option String :=
  i.declared?.map fun target => String.ofList target.id

/-- The line is an assignment that puts `b` in the place of `old`, which is what `id` is
bound to as seen from `scope`. It finds a variable, and evaluates the value. -/
def Assigns (i : Instruction) (scope : ScopeId) (s : State) (id : String) (old b : Binding) :
    Prop :=
  ∃ target text, i.assigned? = some (target, text) ∧ String.ofList target.id = id ∧
    s.env.find? scope id = some old ∧ old.constant = false ∧
    Expr.evaluate (s.lookup scope) text = .ok b.value ∧ b.constant = target.constant

end Instruction

/-! ### The end of a call -/

/-- When the block of a line fails, the line only closes it. -/
theorem Pending.resume_error (p : Pending) (e : Stop) (s : State) :
    (p.resume (.error e) s).2 = p.close s := by
  cases p with
  | branch | call => rfl

/-- A waiting line is the one at its position. After its block it binds at most the
target that it declares, in its own scope. -/
def Suspended.Returns (w : Suspended) : Prop :=
  ∃ i, w.block.code[w.index]? = some i ∧
    ∀ r s, Bound w.block.scope i.declared? (w.pending.close s) (w.pending.resume r s).2

/-- Every step keeps that of the waiting lines. -/
theorem Config.returns_step (c : Config) (h : ∀ w ∈ c.outer, w.Returns) :
    ∀ w ∈ c.step.outer, w.Returns := by
  have hstep := c.stepsTo
  generalize c.step = d at hstep ⊢
  cases hstep with
  | atEnd | failed | finished | error | goesOn | leaves | halted => exact h
  | @opens b _ _ i _ p _ _ _ hi _ ho htarget =>
    intro w hw
    rcases List.mem_cons.1 hw with rfl | hw
    · exact ⟨i, hi, fun r s => htarget ▸ ho.resume_bound r s⟩
    · exact h w hw
  | @resumes w outer => exact fun w' hw' => h w' (List.mem_cons_of_mem w hw')

/-! ### What a step writes -/

open Environment

/-- Closing a block leaves the bindings of the frames that stay as they are. -/
theorem Pending.own?_close (p : Pending) {s : State} {k : ScopeId}
    (hlive : k < (p.close s).env.depth) (id : String) :
    (p.close s).env.own? k id = s.env.own? k id := by
  cases p with
  | branch | call => exact own?_release s.env hlive id

namespace Config

/-- The binding that the step from a moment writes to a name of a frame. -/
inductive Writes (k : ScopeId) (id : String) : Config → Binding → Prop where
  /-- A declaration whose value is no call. -/
  | declared {b : Block} {index : Nat} {i : Instruction} {outer : List Suspended} {s : State}
      {target : Target} {v : Value} (hi : b.code[index]? = some i) (hk : b.scope = k)
      (htarget : i.declared? = some target) (hcall : i.callOperand? = none)
      (hid : String.ofList target.id = id) (hv : target.constant = true → v ≠ .undefined) :
      Writes k id (.running b index outer s) ⟨v, target.constant⟩
  /-- The definition of a function, also inside a call. -/
  | defined {b : Block} {index : Nat} {i : Instruction} {outer : List Suspended} {s : State}
      (f : Function) (hi : b.code[index]? = some i) (hk : b.scope = k)
      (hname : i.functionName? = some id) :
      Writes k id (.running b index outer s) ⟨.function f, false⟩
  /-- An assignment to a variable that the frame binds. -/
  | assigned {b : Block} {index : Nat} {i : Instruction} {outer : List Suspended} {s : State}
      {old new : Binding} (hi : b.code[index]? = some i) (hold : s.env.own? k id = some old)
      (hassigns : i.Assigns b.scope s id old new) : Writes k id (.running b index outer s) new
  /-- A parameter, in a frame that was not there before. -/
  | passed {b : Block} {index : Nat} {outer : List Suspended} {s : State} (v : Value)
      (hnew : s.env.depth ≤ k) : Writes k id (.running b index outer s) ⟨v, false⟩
  /-- A declaration whose value is that of a call which has ended. -/
  | returned {w : Suspended} {i : Instruction} {outer : List Suspended} {o : Outcome} {s : State}
      {target : Target} {v : Value} (hi : w.block.code[w.index]? = some i)
      (hk : w.block.scope = k) (htarget : i.declared? = some target)
      (hid : String.ofList target.id = id) (hv : target.constant = true → v ≠ .undefined) :
      Writes k id (.ended (w :: outer) (.ok o) s) ⟨v, target.constant⟩

variable {b : Block} {index : Nat} {i : Instruction} {s t u : State}

/-- What the write of a line does to a binding. -/
theorem own?_of_does (hi : b.code[index]? = some i) (outer : List Suspended)
    (h : Does i b.scope s t) (k : ScopeId) (id : String) :
    t.env.own? k id = s.env.own? k id ∨
      ∃ new, Writes k id (.running b index outer s) new ∧ t.env.own? k id = some new := by
  have hwrote := h.wrote
  generalize t.env = env at hwrote
  cases hwrote with
  | nothing => exact .inl rfl
  | @declared target v htarget hcall hv =>
    rcases own?_declare_cases s.env b.scope k (String.ofList target.id) id ⟨v, target.constant⟩
      with h | ⟨hk, hid, h⟩
    · exact .inl h
    · exact .inr ⟨_, .declared hi hk.symm htarget hcall hid.symm hv, h⟩
  | @defined name f hname =>
    rcases own?_declare_cases s.env b.scope k name id ⟨.function f, false⟩ with h | ⟨hk, rfl, h⟩
    · exact .inl h
    · exact .inr ⟨_, .defined f hi hk.symm hname, h⟩
  | @assigned target text old v _ hassigned hold hvariable hv henv =>
    obtain ⟨owner, old', howner, hown, hfind, rfl⟩ := rebind?_eq_some henv
    obtain rfl : old' = old := Option.some.inj (hfind.symm.trans hold)
    rcases own?_declare_cases s.env owner k (String.ofList target.id) id ⟨v, target.constant⟩
      with h | ⟨rfl, rfl, h⟩
    · exact .inl h
    · exact .inr ⟨_, .assigned hi hown ⟨target, text, hassigned, rfl, hold, hvariable, hv, rfl⟩, h⟩

/-- Entering a block writes parameters only, in the new frame. -/
theorem own?_of_opens {inv : Invocation} {inner : Block} {p : Pending}
    (ho : Opens inv t inner p u) (k : ScopeId) (id : String) :
    u.env.own? k id = t.env.own? k id ∨
      t.env.depth ≤ k ∧ ∃ v, u.env.own? k id = some ⟨v, false⟩ := by
  have hchild : ∀ k id, (t.env.child inv.scope).2.own? k id = t.env.own? k id := by
    intro k id
    rw [own?, bindings_child]
    rfl
  cases ho with
  | branch => exact .inl (hchild k id)
  | @call f values _ _ _ _ =>
    rcases own?_bindAll_cases (t.env.child inv.scope).2 t.env.depth k id (f.params.zip values)
      with h | ⟨rfl, v, h⟩
    · exact .inl (h.trans (hchild k id))
    · exact .inr ⟨Nat.le_refl _, v, h⟩

/-- After a block the line that waited for it writes at most what it declares. -/
theorem own?_of_resume {w : Suspended} (hw : w.Returns) {o : Outcome} (outer : List Suspended)
    {k : ScopeId} (hlive : k < (w.pending.resume (.ok o) s).2.env.depth) (id : String) :
    (w.pending.resume (.ok o) s).2.env.own? k id = s.env.own? k id ∨
      ∃ new, Writes k id (.ended (w :: outer) (.ok o) s) new ∧
        (w.pending.resume (.ok o) s).2.env.own? k id = some new := by
  obtain ⟨i, hi, hbound⟩ := hw
  have hbound := hbound (.ok o) s
  rw [hbound.sameStacks.depth] at hlive
  have hclosed := w.pending.own?_close hlive id
  generalize (w.pending.resume (.ok o) s).2 = t at hbound ⊢
  cases hbound with
  | nothing => exact .inl hclosed
  | @bound target v htarget hv =>
    rcases own?_declare_cases (w.pending.close s).env w.block.scope k (String.ofList target.id) id
      ⟨v, target.constant⟩ with h | ⟨hk, hid, h⟩
    · exact .inl (h.trans hclosed)
    · exact .inr ⟨_, .returned hi hk.symm htarget hid.symm hv, h⟩

/-- A step leaves every binding of a live frame as it is, apart from what it writes. -/
theorem own?_step (c : Config) (hreturns : ∀ w ∈ c.outer, w.Returns) {k : ScopeId}
    (hlive : k < c.step.state.env.depth) (id : String) :
    c.step.state.env.own? k id = c.state.env.own? k id ∨
      ∃ new, Writes k id c new ∧ c.step.state.env.own? k id = some new := by
  have hstep := c.stepsTo
  generalize c.step = d at hstep hlive ⊢
  cases hstep with
  | atEnd | error | goesOn | leaves | halted => exact .inl rfl
  | failed hi hdoes | finished hi hdoes => exact own?_of_does hi _ hdoes k id
  | @opens b inner index i outer p s t u hi hdoes ho htarget =>
    have hdepth := hdoes.sameStacks.depth
    rcases own?_of_opens ho k id with h | ⟨hnew, v, h⟩
    · -- what the line has written before it entered the block is still there
      rcases own?_of_does hi outer hdoes k id with h' | ⟨new, hwrites, h'⟩
      · exact .inl (h.trans h')
      · exact .inr ⟨new, hwrites, h.trans h'⟩
    · exact .inr ⟨_, .passed v (hdepth ▸ hnew), h⟩
  | @resumes w outer r s =>
    cases r with
    | error e =>
      rw [Pending.resume_error] at hlive ⊢
      exact .inl (w.pending.own?_close hlive id)
    | ok o => exact own?_of_resume (hreturns w List.mem_cons_self) outer hlive id

/-- The step from a moment is that of a declaration or definition of a name in the
scope `k`. A declaration that calls a function is made when the call has ended. -/
def Defines (k : ScopeId) (id : String) : Config → Prop
  | running b index _ _ => b.scope = k ∧ ∃ i, b.code[index]? = some i ∧
      (i.declaredName? = some id ∧ i.callOperand? = none ∨ i.functionName? = some id)
  | ended (w :: _) (.ok _) _ => w.block.scope = k ∧ ∃ i, w.block.code[w.index]? = some i ∧
      i.declaredName? = some id
  | _ => False

/-- Only declarations and definitions in its own frame write to a constant. -/
theorem Writes.defines {c : Config} {k : ScopeId} {id : String} {old new : Binding}
    (h : Writes k id c new) (hold : c.state.env.own? k id = some old)
    (hconstant : old.constant = true) : c.Defines k id := by
  cases h with
  | declared hi hk htarget hcall hid _ =>
    have hname := congrArg (Option.map fun target => String.ofList target.id) htarget
    exact ⟨hk, _, hi, .inl ⟨hid ▸ hname, hcall⟩⟩
  | defined f hi hk hname => exact ⟨hk, _, hi, .inr hname⟩
  | assigned hi hown hassigns =>
    -- an assignment finds no constant
    obtain ⟨_, _, _, _, _, hvariable, _⟩ := hassigns
    obtain rfl := Option.some.inj (hown.symm.trans hold)
    rw [hvariable] at hconstant
    cases hconstant
  | passed v hnew => exact absurd (lt_depth_of_own? _ hold) (Nat.not_lt.2 hnew)
  | returned hi hk htarget hid _ =>
    have hname := congrArg (Option.map fun target => String.ofList target.id) htarget
    exact ⟨hk, _, hi, hid ▸ hname⟩

/-- The line of an assignment neither declares nor defines a name. -/
theorem not_defines_of_assign {b : Block} {index : Nat} {i : Instruction} {outer : List Suspended}
    {s : State} (hi : b.code[index]? = some i) (h : i.keyword = "ASSIGN") (k : ScopeId)
    (id : String) : ¬Defines k id (.running b index outer s) := by
  rintro ⟨-, i', hi', hname⟩
  obtain rfl := Option.some.inj (hi.symm.trans hi')
  rcases hname with ⟨hname, -⟩ | hname
  · obtain ⟨target, htarget, -⟩ := Option.map_eq_some_iff.1 hname
    have hk := (Instruction.keyword_of_declared? htarget).symm.trans h
    exact absurd hk (by decide)
  · obtain ⟨header, hheader, -⟩ := Option.bind_eq_some_iff.1 hname
    rcases Instruction.keyword_of_header? hheader with hk | hk | hk
    · exact absurd (hk.symm.trans h) (by decide)
    · exact absurd (hk.symm.trans h) (by decide)
    · exact absurd (hk.symm.trans h) (by decide)

/-- The step from a line releases no frame. -/
theorem depth_le_of_running (b : Block) (index : Nat) (outer : List Suspended) (s : State) :
    s.env.depth ≤ (running b index outer s).step.state.env.depth := by
  have hstep := (running b index outer s).stepsTo
  generalize (running b index outer s).step = d at hstep ⊢
  cases hstep with
  | atEnd => exact Nat.le_refl _
  | failed _ hdoes | finished _ hdoes =>
    exact Nat.le_of_eq hdoes.sameStacks.depth.symm
  | @opens _ inner _ _ _ p _ t u _ hdoes ho =>
    have hdepth := hdoes.sameStacks.depth
    show s.env.depth ≤ u.env.depth
    rw [← hdepth, ← ho.stacks.1]
    exact Nat.le_of_lt ho.scope_lt

/-- A constant is as it was after a step, if its frame is still live and the step is
not that of a declaration or definition of its name there. -/
theorem constant_step (c : Config) (hreturns : ∀ w ∈ c.outer, w.Returns) {k : ScopeId}
    {id : String} {b : Binding} (hb : c.state.env.own? k id = some b) (hconstant : b.constant = true)
    (hlive : k < c.step.state.env.depth) (hdefines : ¬c.Defines k id) :
    c.step.state.env.own? k id = some b := by
  rcases own?_step c hreturns hlive id with h | ⟨new, hwrites, -⟩
  · exact h.trans hb
  · exact absurd (hwrites.defines hb hconstant) hdefines

end Config

/-- **Constants only change by declaration in their own frame.** At any moment of a run
a frame may bind a constant. Some steps later the binding is as it was, if the frame is
live all the time and no step is that of a declaration or definition of the same name
in the scope of this frame. In particular no assignment changes it, wherever its line
is executed. -/
theorem constant_kept {start : Block} {s₀ : State} {c : Config}
    (hreach : Reaches (.running start 0 [] s₀) c) {k : ScopeId} {id : String} {b : Binding}
    (hb : c.state.env.own? k id = some b) (hconstant : b.constant = true) :
    (∀ n, (∀ j ≤ n, (c.after j).state.env.isLive k = true) →
      (∀ j < n, ¬(c.after j).Defines k id) → (c.after n).state.env.own? k id = some b) ∧
    (∀ block index outer s i, c = .running block index outer s → block.code[index]? = some i →
      i.keyword = "ASSIGN" → c.step.state.env.own? k id = some b) := by
  have hreturns : ∀ w ∈ c.outer, w.Returns :=
    hreach.invariant (P := fun c => ∀ w ∈ c.outer, w.Returns) Config.returns_step nofun
  constructor
  · clear hreach
    intro n
    induction n generalizing c with
    | zero => exact fun _ _ => hb
    | succ n ih =>
      intro hlive hdefines
      have hnext : c.step.state.env.own? k id = some b :=
        c.constant_step hreturns hb hconstant
          (of_decide_eq_true (hlive 1 (Nat.succ_le_succ (Nat.zero_le n))))
          (hdefines 0 (Nat.succ_pos n))
      exact ih hnext (c.returns_step hreturns)
        (fun j hj => hlive (j + 1) (Nat.succ_le_succ hj))
        fun j hj => hdefines (j + 1) (Nat.succ_lt_succ hj)
  · rintro block index outer s i rfl hi hassign
    have hlive := Nat.lt_of_lt_of_le (lt_depth_of_own? _ hb)
      (Config.depth_le_of_running block index outer s)
    exact Config.constant_step _ hreturns hb hconstant hlive
      (Config.not_defines_of_assign hi hassign k id)

/-- A constant, a branch that declares its name again, and an assignment. -/
def shadowedConstant : List Instruction :=
  [⟨"DECLARE *x = true", 1⟩, ⟨"IF true", 2⟩, ⟨"DECLARE x = false", 3⟩, ⟨"END", 4⟩,
    ⟨"ASSIGN x false", 5⟩]

/-- The declaration in the branch of `shadowedConstant` leaves the constant of the
program as it is, and so does the assignment after the branch. -/
theorem shadowedConstant_kept :
    ∃ c d s, Reaches ((Interpreter.new 10 .silent []).start ⟨shadowedConstant⟩) c ∧
      c.state.env.own? root "x" = some ⟨.boolean true, true⟩ ∧
      (c.after 2).state.env.own? 1 "x" = some ⟨.boolean false, false⟩ ∧
      (c.after 2).state.env.own? root "x" = some ⟨.boolean true, true⟩ ∧
      Reaches c d ∧ d = .running (.root shadowedConstant root) 4 [] s ∧
      d.step.state.env.own? root "x" = some ⟨.boolean true, true⟩ := by
  -- the branch begins after three steps, and is over after five more
  have hbranch : Reaches ((Interpreter.new 10 .silent []).start ⟨shadowedConstant⟩)
    (((Interpreter.new 10 .silent []).start ⟨shadowedConstant⟩).after 3) := ⟨3, rfl⟩
  have hassign : Reaches ((Interpreter.new 10 .silent []).start ⟨shadowedConstant⟩)
    (((Interpreter.new 10 .silent []).start ⟨shadowedConstant⟩).after 8) := ⟨8, rfl⟩
  have hdeclared : (((Interpreter.new 10 .silent []).start ⟨shadowedConstant⟩).after
      3).state.env.own? root "x" = some ⟨.boolean true, true⟩ := rfl
  have hstill : (((Interpreter.new 10 .silent []).start ⟨shadowedConstant⟩).after
      8).state.env.own? root "x" = some ⟨.boolean true, true⟩ := rfl
  have hlive : ∀ j ≤ 2, ((((Interpreter.new 10 .silent []).start ⟨shadowedConstant⟩).after
      3).after j).state.env.isLive root = true := by
    intro j hj
    match j with
    | 0 | 1 | 2 => rfl
  have hdefines : ∀ j < 2, ¬((((Interpreter.new 10 .silent []).start ⟨shadowedConstant⟩).after
      3).after j).Defines root "x" := by
    intro j hj h
    match j with
    | 0 => exact absurd h.1 (by decide)
    | 1 => exact h
  obtain ⟨hkept, -⟩ := constant_kept hbranch hdeclared rfl
  obtain ⟨-, hunassigned⟩ := constant_kept hassign hstill rfl
  exact ⟨_, _, _, hbranch, hdeclared, rfl, hkept 2 hlive hdefines, ⟨5, rfl⟩, rfl,
    hunassigned _ 4 [] _ ⟨"ASSIGN x false", 5⟩ rfl rfl rfl⟩

/-! ### Undefined constants -/

/-- The step from a moment makes a variable a constant, with an undefined value. -/
def Config.AssignsUndefined : Config → Prop
  | .running b index _ s => ∃ i id old new, b.code[index]? = some i ∧
      i.Assigns b.scope s id old new ∧ new.constant = true ∧ new.value = .undefined
  | _ => False

/-- Declarations check their value, and parameters and functions are variables. -/
theorem Config.Writes.ne_undefined {c : Config} {k : ScopeId} {id : String} {new : Binding}
    (h : Config.Writes k id c new) (hassigns : ¬c.AssignsUndefined)
    (hconstant : new.constant = true) : new.value ≠ .undefined := by
  cases h with
  | declared _ _ _ _ _ hv | returned _ _ _ _ hv => exact hv hconstant
  | defined | passed => cases hconstant
  | assigned hi _ hwrite =>
    intro hundefined
    exact hassigns ⟨_, _, _, _, hi, hwrite, hconstant, hundefined⟩

/-- Every constant of every frame has a value other than undefined. -/
def Environment.ConstantsDefined (env : Environment) : Prop :=
  ∀ k id b, env.own? k id = some b → b.constant = true → b.value ≠ .undefined

/-- Before anything has run, the only constant is the host object. -/
theorem constantsDefined_initialState (limit : Nat) (sink : Sink) :
    (Interpreter.initialState limit sink).env.ConstantsDefined := by
  intro k id b hb _
  have hnew : Environment.new.own? k id = none := by
    cases k with
    | zero => rfl
    | succ k => exact own?_of_not_live _ (Nat.succ_le_succ (Nat.zero_le k)) id
  rcases own?_declare_cases .new root k stdBinding id ⟨.std 0, true⟩ with h | ⟨-, -, h⟩
  · exact absurd ((hb.symm.trans h).trans hnew) nofun
  · obtain rfl := Option.some.inj (hb.symm.trans h)
    exact nofun

/-- **Constants are not undefined**, unless an assignment makes them so. In a session
in which no assignment makes a variable a constant with an undefined value, every
constant of every live frame has a value other than undefined at every moment. -/
theorem constants_defined {limit : Nat} {sink : Sink} {c : Config}
    (h : Session limit sink (fun c => ¬c.AssignsUndefined) c) :
    c.state.env.ConstantsDefined := by
  suffices hboth : (∀ w ∈ c.outer, w.Returns) ∧ c.state.env.ConstantsDefined from hboth.2
  induction h with
  | first p => exact ⟨nofun, constantsDefined_initialState limit sink⟩
  | @step c h hassigns ih =>
    obtain ⟨hreturns, hdefined⟩ := ih
    refine ⟨c.returns_step hreturns, ?_⟩
    intro k id b hb hconstant
    rcases c.own?_step hreturns (lt_depth_of_own? _ hb) id with hsame | ⟨new, hwrites, hnew⟩
    · exact hdefined k id b (hsame.symm.trans hb) hconstant
    · obtain rfl := Option.some.inj (hnew.symm.trans hb)
      exact hwrites.ne_undefined hassigns hconstant
  | next _ p ih => exact ⟨nofun, ih.2⟩

/-- An assignment that makes a variable a constant. -/
def assignedConstant (value : String) : List Instruction :=
  [⟨"DECLARE x", 1⟩, ⟨"ASSIGN *x " ++ value, 2⟩]

/-- A constant that was assigned the value `true`. -/
theorem assignedConstant_defined :
    ∃ c, Session 10 .silent (fun c => ¬c.AssignsUndefined) c ∧
      c.state.env.own? root "x" = some ⟨.boolean true, true⟩ ∧ c.state.env.ConstantsDefined := by
  have hdeclared : Session 10 .silent (fun c => ¬c.AssignsUndefined)
      ((Interpreter.new 10 .silent []).start ⟨assignedConstant "true"⟩).step := by
    refine .step (.first _) ?_
    rintro ⟨i, id, old, new, hi, ⟨target, text, hassigned, -⟩, -⟩
    obtain rfl := Option.some.inj hi
    cases hassigned
  have hnext : Session 10 .silent (fun c => ¬c.AssignsUndefined)
      ((Interpreter.new 10 .silent []).start ⟨assignedConstant "true"⟩).step.step :=
    .step hdeclared fun h => h
  have hassigned : Session 10 .silent (fun c => ¬c.AssignsUndefined)
      ((Interpreter.new 10 .silent []).start ⟨assignedConstant "true"⟩).step.step.step := by
    refine .step hnext ?_
    rintro ⟨i, id, old, new, hi, ⟨target, text, hassigned, -, -, -, hv, -⟩, -, hundefined⟩
    obtain rfl := Option.some.inj hi
    obtain ⟨-, rfl⟩ := Prod.mk.inj (Option.some.inj hassigned)
    rw [hundefined] at hv
    cases hv
  exact ⟨_, hassigned, rfl, constants_defined hassigned⟩

/-- An assignment does not check its value, so a program can leave an undefined
constant behind. -/
theorem assignedConstant_undefined :
    ∃ m, (Interpreter.new 10 .silent []).run 20 ⟨assignedConstant "undefined"⟩ = (.ok (), m) ∧
      m.state.env.own? root "x" = some ⟨.undefined, true⟩ := by
  have hdone : ((Interpreter.new 10 .silent []).run 20 ⟨assignedConstant "undefined"⟩).1 =
      .ok () := rfl
  exact ⟨_, Prod.ext hdone rfl, rfl⟩

end LineScript
