import LineScript.Proofs.Expr.Values
import LineScript.Proofs.Machine.BigStep
import LineScript.Proofs.Program.Characters

/-!
# The values in a state

A property of values that holds of all values without a function holds of all
values that a line brings into a state, as soon as it holds of the functions
that the line defines.

- `Environment.AllValues`: every bound value has a property.
- `Exec.Keeps`: a computation keeps that, and its result has a property.
- `PlainLine.keeps_run`, `keeps_runDefinition`, `keeps_condition`,
  `NamedCall.keeps_prepare`, `InlineCall.keeps_prepare`: the lines of a program.
- `Pending.keeps_resume`: the end of a call.
-/

namespace LineScript

/-! ### Bound values -/

namespace Environment

/-- Every bound value has the property. -/
def AllValues (P : Value → Prop) (env : Environment) : Prop :=
  ∀ frame ∈ env.frames, ∀ p ∈ frame.bindings, P p.2.value

variable {P : Value → Prop} {env : Environment}

theorem mem_insert {id : String} {b : Binding} {bs : Bindings} {p : String × Binding}
    (h : p ∈ Bindings.insert id b bs) : p = (id, b) ∨ p ∈ bs := by
  induction bs with
  | nil => exact .inl (List.mem_singleton.1 h)
  | cons q bs ih =>
    obtain ⟨k, c⟩ := q
    rw [Bindings.insert] at h
    split at h
    · exact List.mem_cons.1 h
    · split at h
      · rcases List.mem_cons.1 h with h | h
        · exact .inl h
        · exact .inr (List.mem_cons_of_mem _ h)
      · rcases List.mem_cons.1 h with h | h
        · exact .inr (h ▸ List.mem_cons_self)
        · exact (ih h).imp_right (List.mem_cons_of_mem _)

theorem AllValues.bindings (h : env.AllValues P) (scope : ScopeId) :
    ∀ p ∈ env.bindings scope, P p.2.value := by
  intro p hp
  rw [Environment.bindings] at hp
  cases hf : env.frames[scope]? with
  | none =>
    rw [hf] at hp
    cases hp
  | some frame =>
    rw [hf] at hp
    exact h frame (Array.mem_of_getElem? hf) p hp

theorem AllValues.find? (h : env.AllValues P) {scope : ScopeId} {id : String} {b : Binding}
    (hb : env.find? scope id = some b) : P b.value := by
  rw [find?_eq] at hb
  obtain ⟨owner, -, hb⟩ := Option.bind_eq_some_iff.1 hb
  obtain ⟨before, after, hmem, -⟩ := List.lookup_eq_some_iff.1 hb
  refine h.bindings owner (id, b) ?_
  rw [hmem]
  exact List.mem_append_right _ List.mem_cons_self

theorem AllValues.declare (h : env.AllValues P) (scope : ScopeId) (id : String) {b : Binding}
    (hb : P b.value) : (env.declare scope id b).AllValues P := by
  intro frame hframe p hp
  obtain ⟨k, hk, hget⟩ := Array.mem_iff_getElem.1 hframe
  simp only [Environment.declare, modify, Array.getElem_modify] at hget
  split at hget
  · subst hget
    rcases mem_insert hp with rfl | hp
    · exact hb
    · exact h _ (Array.getElem_mem _) p hp
  · subst hget
    exact h _ (Array.getElem_mem _) p hp

theorem AllValues.bindAll (h : env.AllValues P) (scope : ScopeId) {ps : List (String × Value)}
    (hps : ∀ p ∈ ps, P p.2) : (env.bindAll scope ps).AllValues P := by
  induction ps generalizing env with
  | nil => exact h
  | cons p ps ih =>
    exact ih (h.declare scope p.1 (hps p List.mem_cons_self))
      fun q hq => hps q (List.mem_cons_of_mem _ hq)

theorem AllValues.rebind? (h : env.AllValues P) {scope : ScopeId} {id : String}
    {f : Binding → Binding} (hf : ∀ b, P (f b).value) {env' : Environment}
    (henv : env.rebind? scope id f = some env') : env'.AllValues P := by
  rw [Environment.rebind?] at henv
  split at henv
  · cases henv
  · split at henv
    · cases henv
    · exact Option.some.inj henv ▸ h.declare _ _ (hf _)

theorem AllValues.child (h : env.AllValues P) (scope : ScopeId) :
    (env.child scope).2.AllValues P := by
  intro frame hframe p hp
  rcases Array.mem_push.1 hframe with hframe | rfl
  · exact h frame hframe p hp
  · cases hp

theorem AllValues.release (h : env.AllValues P) (d : Nat) : (env.release d).AllValues P := by
  intro frame hframe
  refine h frame ?_
  rw [← Array.mem_toList_iff, Environment.release, Array.toList_shrink] at hframe
  exact Array.mem_toList_iff.1 (List.mem_of_mem_take hframe)

/-- Before anything has run only the host is bound. -/
theorem AllValues.initialState (hP : P (.std 0)) (limit : Nat) (sink : Sink) :
    (Interpreter.initialState limit sink).env.AllValues P := by
  have hroot : Environment.new.AllValues P := by
    intro frame hframe p hp
    obtain rfl : frame = ⟨[], none⟩ := by simpa [Environment.new] using hframe
    cases hp
  exact hroot.declare _ _ hP

/-- Before anything has run there are no functions. -/
theorem allValues_initialState (hP : ∀ v : Value, v.type ≠ .function → P v) (limit : Nat)
    (sink : Sink) : (Interpreter.initialState limit sink).env.AllValues P :=
  .initialState (hP _ nofun) limit sink

end Environment

/-! ### Computations -/

namespace Exec

variable {α β : Type} {P : Value → Prop}

/-- When every bound value has the property before the computation, then so it
is after it, and a result of the computation satisfies `Q`. -/
def Keeps (P : Value → Prop) (Q : α → Prop) (x : Exec α) : Prop :=
  ∀ s, s.env.AllValues P → (x s).2.env.AllValues P ∧ ∀ a, (x s).1 = .ok a → Q a

theorem Keeps.pure {Q : α → Prop} {a : α} (h : Q a) : Keeps P Q (Pure.pure a : Exec α) :=
  fun _ hs => ⟨hs, fun _ ha => Except.ok.inj ha ▸ h⟩

theorem Keeps.fail (Q : α → Prop) (c : Cause) : Keeps P Q (fail c : Exec α) :=
  fun _ hs => ⟨hs, nofun⟩

theorem Keeps.bind {Q : α → Prop} {Q' : β → Prop} {x : Exec α} {f : α → Exec β}
    (hx : Keeps P Q x) (hf : ∀ a, Q a → Keeps P Q' (f a)) : Keeps P Q' (x >>= f) := by
  intro s hs
  have hxs := hx s hs
  rw [bind_apply]
  generalize x s = result at hxs
  obtain ⟨r, t⟩ := result
  cases r with
  | error e => exact ⟨hxs.1, nofun⟩
  | ok a => exact hf a (hxs.2 a rfl) t hxs.1

theorem Keeps.ofExcept {Q : α → Prop} {r : Except Cause α} (h : ∀ a, r = .ok a → Q a) :
    Keeps P Q (ofExcept r) := by
  cases r with
  | ok a => exact .pure (h a rfl)
  | error c => exact .fail Q c

/-- A computation that changes no binding. -/
theorem Keeps.modify {f : State → State} (hf : ∀ s, s.env.AllValues P → (f s).env.AllValues P) :
    Keeps P (fun _ => True) (modify f) :=
  fun s hs => ⟨hf s hs, fun _ _ => trivial⟩

theorem keeps_tick : Keeps P (fun _ => True) tick :=
  .modify fun _ hs => hs

theorem keeps_declare (scope : ScopeId) (id : String) {b : Binding} (hb : P b.value) :
    Keeps P (fun _ => True) (declare scope id b) :=
  .modify fun _ hs => hs.declare scope id hb

theorem keeps_evaluate (hP : ∀ v : Value, v.type ≠ .function → P v) (scope : ScopeId)
    (text : String) : Keeps P P (evaluate scope text) := by
  intro s hs
  refine Keeps.ofExcept (fun v hv => Expr.evaluate_of hP (fun id w hw => ?_) hv) s hs
  obtain ⟨b, hb, rfl⟩ := Option.map_eq_some_iff.1 hw
  exact hs.find? hb

end Exec

/-! ### Keywords -/

/-- What a declaration does whose value is no call. -/
def declareValue (inv : Invocation) : Exec Control :=
  let (targetText, valueText) := splitDeclaration inv.operand.toList
  let target := Target.ofText targetText
  if !isIdentifier target.id then
    Exec.fail (.malformedOperand declareKeyword
      ("`" ++ String.ofList targetText ++ "` is not a valid identifier"))
  else if valueText.isEmpty then do
    bindTarget inv.scope target .undefined
    return .next
  else do
    let v ← Exec.evaluate inv.scope (String.ofList valueText)
    bindTarget inv.scope target v
    return .next

theorem runDeclare_eq_declareValue {inv : Invocation} (runner : Runner)
    (hcall : stripKeyword? (splitDeclaration inv.operand.toList).2 callKeyword = none) :
    Builtin.runDeclare runner inv = declareValue inv := by
  simp only [← beginDeclare_complete, beginDeclare, declareValue, hcall]
  split
  · rfl
  · split
    · simp only [bind_assoc, pure_bind, Entry.complete]
    · simp only [bind_assoc, pure_bind, Entry.complete]

/-- A line that leaves its call gives a value with the property, and no line goes
to a position. -/
def Control.Plain (P : Value → Prop) : Control → Prop
  | .next => True
  | .goto _ => False
  | .leave v => P v

section

open Exec

variable {P : Value → Prop} (hP : ∀ v : Value, v.type ≠ .function → P v)

include hP

omit hP in
theorem keeps_bindTarget (scope : ScopeId) (target : Target) {v : Value} (hv : P v) :
    Keeps P (fun _ => True) (bindTarget scope target v) := by
  rw [bindTarget]
  split
  · exact .fail _ _
  · exact keeps_declare _ _ hv

omit hP in
theorem keeps_bindResult (scope : ScopeId) (target : Option Target) {v : Value} (hv : P v) :
    Keeps P (Control.Plain P) (bindResult scope target (v, .next)) := by
  cases target with
  | none => exact .pure trivial
  | some target => exact .bind (keeps_bindTarget scope target hv) fun _ _ => .pure trivial

theorem keeps_declareValue (inv : Invocation) : Keeps P (Control.Plain P) (declareValue inv) := by
  rw [declareValue]
  dsimp only
  split
  · exact .fail _ _
  · split
    · exact .bind (keeps_bindTarget _ _ (hP _ nofun)) fun _ _ => .pure trivial
    · exact .bind (keeps_evaluate hP _ _) fun v hv =>
        .bind (keeps_bindTarget _ _ hv) fun _ _ => .pure trivial

omit hP in
/-- An assignment evaluates a part of its operand. -/
theorem keeps_runAssign {inv : Invocation}
    (heval : ∀ text : String, text.toList ⊆ inv.operand.toList →
      Keeps P P (evaluate inv.scope text)) :
    Keeps P (Control.Plain P) (Builtin.runAssign inv) := by
  have hvalue := heval (String.ofList (splitAssignment inv.operand.toList).2) (by
    rw [String.toList_ofList]
    exact splitAssignment_subset _)
  simp only [Builtin.runAssign]
  split
  · exact .fail _ _
  · refine .bind (Q := fun _ => True) (fun s hs => ⟨hs, fun _ _ => trivial⟩) fun s _ => ?_
    split
    · exact .fail _ _
    · split
      · exact .fail _ _
      · refine .bind hvalue fun v hv => .bind (.modify fun s hs => ?_) fun _ _ => .pure trivial
        cases h : s.env.rebind? inv.scope
            (String.ofList (Target.ofText (splitAssignment inv.operand.toList).1).id)
            (fun _ => ⟨v, (Target.ofText (splitAssignment inv.operand.toList).1).constant⟩) with
        | none => exact hs
        | some env => exact hs.rebind? (fun _ => hv) h

theorem keeps_runWait (inv : Invocation) : Keeps P (Control.Plain P) (Builtin.runWait inv) := by
  refine .bind (keeps_evaluate hP _ _) fun v _ => ?_
  split
  · exact .bind (.modify fun s hs => hs) fun _ _ => .pure trivial
  · exact .fail _ _

theorem keeps_runOutput (inv : Invocation) :
    Keeps P (Control.Plain P) (Builtin.runOutput inv) := by
  simp only [Builtin.runOutput]
  split
  · exact .bind (.pure (hP (.string "") nofun)) fun v _ =>
      .bind (.modify fun s hs => hs) fun _ _ => .pure trivial
  · exact .bind (keeps_evaluate hP _ _) fun v _ =>
      .bind (.modify fun s hs => hs) fun _ _ => .pure trivial

theorem keeps_runLeave (inv : Invocation) : Keeps P (Control.Plain P) (Builtin.runLeave inv) := by
  refine .bind (Q := fun _ => True) (fun s hs => ⟨hs, fun _ _ => trivial⟩) fun s _ => ?_
  split
  · exact .fail _ _
  · split
    · exact .pure (hP _ nofun)
    · exact .bind (keeps_evaluate hP _ _) fun v hv => .pure hv

omit hP in
theorem keeps_argumentValues (hundefined : P .undefined) {scope : ScopeId} (params : List String)
    {args : List String} (hargs : ∀ arg ∈ args, Keeps P P (evaluate scope arg)) :
    Keeps P (fun vs => ∀ v ∈ vs, P v) (argumentValues scope params args) := by
  induction params generalizing args with
  | nil => exact .pure nofun
  | cons param params ih =>
    cases args with
    | nil =>
      exact .bind (ih hargs) fun vs hvs => .pure (List.forall_mem_cons.2 ⟨hundefined, hvs⟩)
    | cons arg args =>
      obtain ⟨harg, hargs⟩ := List.forall_mem_cons.1 hargs
      exact .bind harg fun w hw => .bind (ih hargs) fun vs hvs =>
        .pure (List.forall_mem_cons.2 ⟨hw, hvs⟩)

omit hP in
theorem keeps_makeFunction {body : List Instruction}
    (hbody : ∀ f : Function, f.body = body → P (.function f)) (scope : ScopeId)
    (header : List Char) :
    Keeps P (fun f => P (.function f)) (makeFunction scope header body) := by
  rw [makeFunction]
  cases (Text.words header).map String.ofList with
  | nil => exact .fail _ _
  | cons name params =>
    refine .bind (Q := fun _ => True) (fun s hs => ⟨hs, fun _ _ => trivial⟩) fun id _ => ?_
    dsimp only
    split
    · exact .bind (keeps_declare _ _ (hbody _ rfl)) fun _ _ => .pure (hbody _ rfl)
    · exact .pure (hbody _ rfl)

omit hP in
theorem keeps_lookupFunction (scope : ScopeId) (name : String) :
    Keeps P (fun f => P (.function f)) (lookupFunction scope name) := by
  intro s hs
  rw [lookupFunction, bind_apply]
  dsimp only [Exec.get]
  cases hb : s.env.find? scope name with
  | none => exact ⟨hs, nofun⟩
  | some b =>
    obtain ⟨v, _⟩ := b
    cases v with
    | function f => exact ⟨hs, fun g hg => Except.ok.inj hg ▸ hs.find? hb⟩
    | undefined | boolean | number | string | std => exact ⟨hs, nofun⟩

omit hP in
theorem keeps_callTarget (i : Instruction) : Keeps P (fun _ => True) (callTarget i) := by
  rw [callTarget]
  split
  · dsimp only
    split
    · exact .fail _ _
    · exact .pure trivial
  · exact .pure trivial

/-! ### The lines of a structured program -/

theorem PlainLine.keeps_run (l : PlainLine) (scope : ScopeId) :
    Keeps P (Control.Plain P) (l.run scope) := by
  refine .bind keeps_tick fun _ _ => ?_
  -- the six keywords of plain lines
  have hplain := l.plain
  simp only [List.mem_cons, List.not_mem_nil, or_false] at hplain
  rcases hplain with h | h | h | h | h | h
  all_goals rw [h, Builtin.run]
  · rw [runDeclare_eq_declareValue _ (l.value_noCall_alone h scope)]
    exact keeps_declareValue hP _
  · exact keeps_runAssign fun _ _ => keeps_evaluate hP _ _
  · exact keeps_runWait hP _
  · exact keeps_runOutput hP _
  · exact .pure trivial
  · exact keeps_runLeave hP _

omit hP in
theorem keeps_runDefinition {body : List Instruction}
    (hbody : ∀ f : Function, f.body = body → P (.function f)) (i : Instruction)
    (scope : ScopeId) : Keeps P (Control.Plain P) (runDefinition i body scope) :=
  .bind keeps_tick fun _ _ => .bind (keeps_makeFunction hbody scope _) fun _ _ => .pure trivial

theorem keeps_condition (i : Instruction) (scope : ScopeId) :
    Keeps P (fun _ => True) (condition i scope) :=
  .bind keeps_tick fun _ _ => .bind (keeps_evaluate hP _ _) fun _ _ => .pure trivial

/-- A function and values that have the property. -/
def Ready.Of (P : Value → Prop) (c : Ready) : Prop :=
  P (.function c.function) ∧ ∀ v ∈ c.values, P v

theorem NamedCall.keeps_prepare (l : NamedCall) (scope : ScopeId) :
    Keeps P (Ready.Of P) (l.prepare scope) := by
  refine .bind keeps_tick fun _ _ => .bind (keeps_callTarget _) fun target _ =>
    .bind (.ofExcept (Q := fun _ => True) fun _ _ => trivial) fun callees _ => ?_
  cases callees with
  | nil => exact .fail _ _
  | cons name args =>
    exact .bind (keeps_lookupFunction _ _) fun f hf =>
      .bind (keeps_argumentValues (hP _ nofun) _ fun _ _ => keeps_evaluate hP _ _)
        fun values hvalues => .pure ⟨hf, hvalues⟩

theorem InlineCall.keeps_prepare (l : InlineCall) {body : List Instruction}
    (hbody : ∀ f : Function, f.body = body → P (.function f)) (scope : ScopeId) :
    Keeps P (Ready.Of P) (l.prepare body scope) :=
  .bind keeps_tick fun _ _ => .bind (keeps_callTarget _) fun _ _ =>
    .bind (keeps_makeFunction hbody _ _) fun _ hf =>
      .bind (keeps_argumentValues (hP _ nofun) _ fun _ _ => keeps_evaluate hP _ _)
        fun _ hvalues => .pure ⟨hf, hvalues⟩

/-- The end of a call keeps the property, when the values in the state in which
its body ended have it and its value does. -/
theorem Pending.keeps_resume (f : Function) (depth : Nat) (scope : ScopeId)
    (target : Option Target) {r : Except Stop Outcome} {answer : Except Stop Control}
    {s t : State} (hs : s.env.AllValues P)
    (hr : ∀ outcome, r = .ok outcome → outcome.control.Plain P)
    (h : (Pending.call f depth scope target .next).resume r s = (answer, t)) :
    t.env.AllValues P ∧ ∀ c, answer = .ok c → c.Plain P := by
  cases r with
  | error e =>
    obtain ⟨rfl, rfl⟩ := Prod.mk.inj h
    exact ⟨hs.release depth, nofun⟩
  | ok outcome =>
    have hvalue : P outcome.callValue := by
      cases outcome with
      | completed => exact hP _ nofun
      | escaped target => exact hP _ nofun
      | returned v => exact hr _ rfl
    have hkeeps := keeps_bindResult scope target hvalue
      ((Pending.call f depth scope target .next).close s) (hs.release depth)
    rw [Pending.resume] at h
    rw [h] at hkeeps
    exact hkeeps

end

end LineScript
