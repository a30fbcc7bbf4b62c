import LineScript.Proofs.Machine.Functions
import LineScript.Proofs.Machine.Lookups
import LineScript.Proofs.Machine.Sessions

/-!
# Values that are handed on

A value is given to a name by a declaration, by an assignment, as an argument of a call, or by
the return from a call that a declaration waits for. In each case the name has this value after
the step, and no other.

- `Config.HandsTo`: the step gives a value to a name.
- `Session.find?_of_handsTo`: the name has the value after the step.
- `Session.leads_to_caller`: the value of a `RET` line comes to the innermost caller.
-/

namespace LineScript

open Exec

/-- What a frame binds itself is found from there. -/
theorem Environment.find?_of_own? {env : Environment} {scope : ScopeId} {id : String}
    {b : Binding} (h : env.own? scope id = some b) : env.find? scope id = some b := by
  obtain ⟨n, hn⟩ := Nat.exists_eq_succ_of_ne_zero (Nat.ne_zero_of_lt (lt_depth_of_own? env h))
  rw [own?, bindings] at h
  rw [find?, hn, findAmong]
  cases hframe : env.frames[scope]? with
  | none =>
    rw [hframe] at h
    cases h
  | some frame =>
    rw [hframe] at h
    have hown : frame.bindings.find? id = some b := h
    simp only [hown]

namespace Config

/-- The step gives the value to a name of a scope, as a constant or not. -/
inductive HandsTo (v : Value) : Config → ScopeId → String → Bool → Prop where
  /-- A declaration whose value is no call. -/
  | declare {b : Block} {index : Nat} {i : Instruction} {outer : List Suspended} {s : State}
      {target : Target} (hi : b.code[index]? = some i) (htarget : i.declared? = some target)
      (hid : isIdentifier target.id = true) (hcall : i.callOperand? = none)
      (hvalue : Expr.evaluate (s.lookup b.scope)
        (String.ofList (splitDeclaration i.operandChars).2) = .ok v)
      (hdefined : target.constant = true → v ≠ .undefined) :
      HandsTo v (running b index outer s) b.scope (String.ofList target.id) target.constant
  /-- An assignment to a variable that is seen from its scope. -/
  | assign {b : Block} {index : Nat} {i : Instruction} {outer : List Suspended} {s : State}
      {target : Target} {text : String} {old : Binding} (hi : b.code[index]? = some i)
      (hassigned : i.assigned? = some (target, text)) (hid : isIdentifier target.id = true)
      (hold : s.env.find? b.scope (String.ofList target.id) = some old)
      (hvariable : old.constant = false)
      (hvalue : Expr.evaluate (s.lookup b.scope) text = .ok v) :
      HandsTo v (running b index outer s) b.scope (String.ofList target.id) target.constant
  /-- An argument of a call that comes to the body: the last parameter of its name gets the
  value that the argument has when the callee is there. -/
  | argument {b : Block} {index : Nat} {i : Instruction} {outer : List Suspended} {s : State}
      {operand callee : List Char} {args : List (List Char)} {g : Function} {after : Control}
      {u : State} {inner : Block} {w : Suspended} {t : State} {j : Nat} {param : String}
      {arg : List Char} (hi : b.code[index]? = some i) (hcall : i.callOperand? = some operand)
      (hargs : Expr.splitArguments operand = .ok (callee :: args))
      (htarget : ∀ target, i.declared? = some target → isIdentifier target.id = true)
      (hcallee : resolveCallee ⟨b, index, i.operand, i.line⟩ callee s.ticked =
        (.ok (g, after), u))
      (hopens : (running b index outer s).step = running inner 0 (w :: outer) t)
      (hparam : g.params[j]? = some param)
      (hlast : ∀ k : Nat, j < k → g.params[k]? ≠ some param) (harg : args[j]? = some arg)
      (hvalue : Expr.evaluate (u.lookup b.scope) (String.ofList arg) = .ok v) :
      HandsTo v (running b index outer s) inner.scope param false
  /-- The end of a call that a declaration waits for. -/
  | result {w : Suspended} {outer : List Suspended} {s : State} {g : Function} {depth : Nat}
      {scope : ScopeId} {target : Target} {after : Control}
      (hw : w.pending = .call g depth scope (some target) after)
      (hdefined : target.constant = true → v ≠ .undefined) :
      HandsTo v (ended (w :: outer) (.ok (.returned v)) s) scope (String.ofList target.id)
        target.constant

end Config

/-! ### Declarations and assignments -/

section

variable {b : Block} {index : Nat} {i : Instruction} {s : State} {v : Value} {target : Target}

/-- Binding a value that may be bound. -/
theorem bindTarget_apply (scope : ScopeId) (hdefined : target.constant = true → v ≠ .undefined) :
    bindTarget scope target v s =
      Exec.declare scope (String.ofList target.id) ⟨v, target.constant⟩ s := by
  have hcondition : ¬ (target.constant && v = .undefined) = true := by
    simpa using hdefined
  rw [bindTarget, if_neg hcondition]

/-- A declaration whose value is no call binds its value. -/
theorem env_declare (htarget : i.declared? = some target)
    (hid : isIdentifier target.id = true) (hcall : i.callOperand? = none)
    (hvalue : Expr.evaluate (s.lookup b.scope)
      (String.ofList (splitDeclaration i.operandChars).2) = .ok v)
    (hdefined : target.constant = true → v ≠ .undefined) :
    (beginLine standardTable b index i s).2.env =
      s.env.declare b.scope (String.ofList target.id) ⟨v, target.constant⟩ := by
  have hne : (splitDeclaration i.operandChars).2.isEmpty = false := by
    cases htext : (splitDeclaration i.operandChars).2 with
    | nil =>
      rw [htext] at hvalue
      cases hvalue
    | cons c rest => rfl
  have hevaluate : Exec.evaluate b.scope (String.ofList (splitDeclaration i.operandChars).2)
      s.ticked = (.ok v, s.ticked) := Exec.evaluate_of_ok hvalue
  rw [beginLine_declare htarget hid hne, hcall, Option.elim_none, Exec.bind_of_ok hevaluate,
    Exec.bind_apply, bindTarget_apply b.scope hdefined]
  rfl

/-- An assignment to a variable gives it its value where it is bound. -/
theorem env_assign {text : String} {old : Binding} {env : Environment}
    (hassigned : i.assigned? = some (target, text)) (hid : isIdentifier target.id = true)
    (hold : s.env.find? b.scope (String.ofList target.id) = some old)
    (hvariable : old.constant = false)
    (hvalue : Expr.evaluate (s.lookup b.scope) text = .ok v)
    (henv : s.env.rebind? b.scope (String.ofList target.id)
      (fun _ => ⟨v, target.constant⟩) = some env) :
    (beginLine standardTable b index i s).2.env = env := by
  have hk : i.keyword = "ASSIGN" := by
    rw [Instruction.assigned?] at hassigned
    split at hassigned
    · assumption
    · cases hassigned
  have hword : (i.keyword, Builtin.assign) ∈ Builtin.words := Builtin.mem_words hk
  rw [Instruction.assigned?, if_pos hk] at hassigned
  obtain ⟨rfl, rfl⟩ := Prod.mk.inj (Option.some.inj hassigned)
  have hevaluate : Exec.evaluate b.scope (String.ofList (splitAssignment i.operandChars).2)
      s.ticked = (.ok v, s.ticked) := Exec.evaluate_of_ok hvalue
  have hold' : s.ticked.env.find? b.scope
      (String.ofList (Target.ofText (splitAssignment i.operandChars).1).id) = some old := hold
  rw [beginLine_of_word hword, Builtin.begin, Builtin.runAssign]
  simp only [Instruction.toList_operand, hid, Invocation.scope, Bool.not_true,
    Bool.false_eq_true, if_false, bind_assoc]
  rw [get_bind_apply, hold']
  simp only [hvariable, Bool.false_eq_true, if_false, bind_assoc]
  rw [Exec.bind_of_ok hevaluate]
  show (s.env.rebind? b.scope _ _).getD s.env = env
  rw [henv]
  rfl

/-! ### Arguments -/

/-- Of a list of values each is the one at its place. -/
theorem getElem?_of_mapM {α : Type} {f : α → Except Cause Value} {l : List α} {values : List Value}
    (h : l.mapM f = .ok values) {j : Nat} {a : α} (hj : l[j]? = some a) (hv : f a = .ok v) :
    values[j]? = some v := by
  induction l generalizing values j with
  | nil => cases hj
  | cons a' l ih =>
    rw [List.mapM_cons] at h
    obtain ⟨v', hv', h⟩ := bind_eq_ok.1 h
    obtain ⟨vs, hvs, h⟩ := bind_eq_ok.1 h
    obtain rfl := Except.ok.inj h
    cases j with
    | zero =>
      obtain rfl := Option.some.inj hj
      rw [hv] at hv'
      obtain rfl := Except.ok.inj hv'
      rfl
    | succ j => exact ih hvs hj

/-- A call that enters the body has bound the argument to the last parameter of its name. -/
theorem own?_enterCall {inv : Invocation} {g : Function} {args : List String}
    {target : Option Target} {after : Control} {inner : Block} {p : Pending} {t : State} {j : Nat}
    {param arg : String}
    (h : (do
      let values ← argumentValues inv.scope g.params args
      enterCall inv g values target after : Exec Entry) s = (.ok (.opens inner p), t))
    (hparam : g.params[j]? = some param) (hlast : ∀ k : Nat, j < k → g.params[k]? ≠ some param)
    (harg : args[j]? = some arg) (hvalue : Expr.evaluate (s.lookup inv.scope) arg = .ok v) :
    t.env.own? inner.scope param = some ⟨v, false⟩ := by
  obtain ⟨hj, -⟩ := List.getElem?_eq_some_iff.1 hparam
  rw [Exec.bind_apply, argumentValues_apply] at h
  cases hvalues : (args.take g.params.length).mapM (Expr.evaluate (s.lookup inv.scope)) with
  | error cause =>
    rw [hvalues] at h
    cases h
  | ok values =>
    rw [hvalues] at h
    have hentered : enterCall inv g (padded g.params.length values) target after s =
        (.ok (.opens inner p), t) := h
    have hv : values[j]? = some v := by
      refine getElem?_of_mapM hvalues ?_ hvalue
      rw [List.getElem?_take_of_lt hj]
      exact harg
    have hpair : (g.params.zip (padded g.params.length values))[j]? = some (param, v) := by
      refine List.getElem?_zip_eq_some.2 ⟨hparam, ?_⟩
      rw [getElem?_padded hj, hv]
      rfl
    rw [enterCall] at hentered
    cases hpush : s.calls.push ⟨g.label, some inv.line⟩ with
    | error cause =>
      rw [hpush] at hentered
      cases hentered
    | ok calls =>
      rw [hpush] at hentered
      obtain ⟨hopened, rfl⟩ := Prod.mk.inj hentered
      obtain ⟨rfl, -⟩ := Entry.opens.inj (Except.ok.inj hopened)
      refine Environment.own?_bindAll _ ?_ _ hpair fun k q hk hq hid => ?_
      · show s.env.depth < _
        rw [Environment.depth_child]
        exact Nat.lt_succ_self _
      · obtain ⟨hname, -⟩ := List.getElem?_zip_eq_some.1 hq
        exact hlast k hk (hid ▸ hname)

end

/-! ### After a step -/

namespace Environment

variable {env : Environment} {scope : ScopeId} {id : String}

/-- What is found can be written. -/
theorem exists_rebind? {old : Binding} (h : env.find? scope id = some old)
    (f : Binding → Binding) : ∃ env', env.rebind? scope id f = some env' := by
  rw [find?_eq] at h
  obtain ⟨owner, howner, hown⟩ := Option.bind_eq_some_iff.1 h
  rw [rebind?, howner]
  dsimp only
  rw [hown]
  exact ⟨_, rfl⟩

end Environment

namespace Session

variable {limit : Nat} {sink : Sink} {c : Config} {v : Value}

/-- What a step gives to a name is what is found under it after the step. -/
theorem find?_of_handsTo (h : Session limit sink (fun _ => True) c) {scope : ScopeId}
    {id : String} {constant : Bool} (hgives : c.HandsTo v scope id constant) :
    c.step.state.env.find? scope id = some ⟨v, constant⟩ := by
  cases hgives with
  | @declare b index i outer s target hi htarget hid hcall hvalue hdefined =>
    have hlive : b.scope < s.env.depth := of_decide_eq_true h.scope_live
    rw [Config.state_step_running hi, env_declare htarget hid hcall hvalue hdefined]
    exact Environment.find?_of_own? (Environment.own?_declare_self s.env hlive _ _)
  | @assign b index i outer s target text old hi hassigned hid hold hvariable hvalue =>
    have hlive : b.scope < s.env.depth := of_decide_eq_true h.scope_live
    have hranked : s.env.Ranked := h.reachable.ranked
    obtain ⟨env, henv⟩ := Environment.exists_rebind? hold fun _ => ⟨v, target.constant⟩
    rw [Config.state_step_running hi, env_assign hassigned hid hold hvariable hvalue henv]
    obtain ⟨_, -, hfound⟩ := (Environment.find?_rebind? hranked henv hlive _).1 ⟨rfl, rfl⟩
    exact hfound
  | @argument b index i outer s operand callee args g after u inner w t j param arg hi hcall hargs
      htarget hcallee hopens hparam hlast harg hvalue =>
    rw [hopens]
    rw [Config.step_running hi, beginLine_of_call hcall htarget, beginCall, hargs,
      Exec.ofExcept_ok, pure_bind] at hopens
    dsimp only at hopens
    rw [Exec.bind_of_ok hcallee] at hopens
    -- the callee is there, so the rest of the line is the call
    generalize hrest : (do
      let values ← argumentValues _ g.params (args.map String.ofList)
      enterCall _ g values i.declared? after : Exec Entry) u = rest at hopens
    obtain ⟨r, t'⟩ := rest
    cases r with
    | error e => cases hopens
    | ok entry =>
      cases entry with
      | finished control => cases hopens
      | opens inner' p =>
        obtain ⟨rfl, -, -, rfl⟩ := Config.running.inj hopens
        have harg' : (args.map String.ofList)[j]? = some (String.ofList arg) := by
          rw [List.getElem?_map, harg]
          rfl
        exact Environment.find?_of_own? (own?_enterCall hrest hparam hlast harg' hvalue)
  | @result w outer s g depth scope target after hw hdefined =>
    obtain ⟨p, b, hn⟩ := h.wellNested
    obtain ⟨q, hq⟩ := (h.step trivial).wellNested
    obtain ⟨block, index, line, pending⟩ := w
    obtain rfl : pending = .call g depth scope (some target) after := hw
    -- the call was made in the scope of its line, which is live
    obtain rfl : scope = block.scope := by
      generalize s.env.depth = depth' at hn
      cases hn
      rfl
    generalize hc : Config.ended (⟨block, index, line, .call g depth block.scope (some target)
      after⟩ :: outer) (.ok (.returned v)) s = c at hq
    have henv : c.step.state.env =
        (s.env.release depth).declare block.scope (String.ofList target.id)
          ⟨v, target.constant⟩ := by
      rw [← hc]
      show (bindResult block.scope (some target) (v, after) _).2.env = _
      rw [bindResult, Exec.bind_apply, bindTarget_apply block.scope hdefined]
      rfl
    have hnested : Nested (.root q.instructions Environment.root) 1 block outer
        c.step.state.env.depth := by
      rw [← hc] at hq ⊢
      exact hq
    have hlive := hnested.scope_lt Nat.zero_lt_one
    rw [henv, Environment.depth_declare] at hlive
    rw [henv]
    exact Environment.find?_of_own? (Environment.own?_declare_self _ hlive _ _)

/-- The active calls of a session are those of the lines that wait. -/
theorem callsOf {allowed : Config → Prop} (h : Session limit sink allowed c) :
    CallsOf limit c.outer c.state := by
  induction h with
  | first p => rfl
  | step _ _ ih => exact CallsOf.step _ ih
  | next _ p ih => exact ih

/-- The value of a `RET` line in a call comes to the innermost caller before another line
begins. -/
theorem leads_to_caller {allowed : Config → Prop} {b : Block} {index : Nat} {i : Instruction}
    {outer : List Suspended} {s : State}
    (h : Session limit sink allowed (.running b index outer s))
    (hreturning : Returning b index i s v) (hcalls : s.calls.calls ≠ []) :
    ∃ w rest u, callers outer = w :: rest ∧
      Leads (Config.running b index outer s).step (.ended (w :: rest) (.ok (.returned v)) u) := by
  obtain ⟨p, hn⟩ := h.wellNested
  have hnested : Nested (.root p.instructions Environment.root) 1 b outer s.env.depth := hn
  have hactive : s.calls.calls = outer.filterMap Suspended.call? := h.callsOf.calls_eq
  have hleads := Nested.leave_handed_up (s := s.ticked) Nat.one_pos index i.line v hnested
  rw [hreturning.step hcalls]
  cases hcallers : callers outer with
  | nil =>
    rw [hactive, ← filterMap_callers, hcallers] at hcalls
    exact absurd rfl hcalls
  | cons w rest =>
    rw [hcallers] at hleads
    exact ⟨w, rest, _, rfl, hleads⟩

end Session

end LineScript
