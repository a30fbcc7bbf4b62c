import LineScript.Proofs.Expr.Names
import LineScript.Proofs.Machine.Confinement
import LineScript.Proofs.Machine.Lookups
import LineScript.Proofs.Machine.Tasks

/-!
# Reading what was declared

A declaration gets its value from an expression or a call, and binds it in the scope of
its line. Any word can be bound, also one that an expression does not look up; such a
word is read after the declaration as it was before.

- `declaredValue`: the value of a declaration, before it is bound.
- `declared_of_dispatch`: a declaration that succeeds has bound this value.
- `Environment.find?_declare_self`, `find?_declare_of_ne`: what is found after it.
- `declaration_read_back`: the value is read back in the scope of the line.
-/

namespace LineScript

open Environment

/-! ### The value of a declaration -/

/-- The value of a declaration, and where execution goes on. The value may be a call;
without one it is undefined. -/
def declaredValue (runner : Runner) (inv : Invocation) : Exec (Value × Control) :=
  let valueText := (splitDeclaration inv.operand.toList).2
  let evaluated : Exec (Value × Control) := do
    let v ← Exec.evaluate inv.scope (String.ofList valueText)
    return (v, .next)
  if valueText.isEmpty then return (.undefined, .next)
  else (stripKeyword? valueText callKeyword).elim evaluated (callExpression runner inv)

/-- A declaration of a word binds its value. -/
theorem runDeclare_eq (runner : Runner) (inv : Invocation) {target : Target}
    (htarget : Target.ofText (splitDeclaration inv.operand.toList).1 = target) :
    Builtin.runDeclare runner inv =
      if !isIdentifier target.id then
        Exec.fail (.malformedOperand declareKeyword
          ("`" ++ String.ofList (splitDeclaration inv.operand.toList).1 ++
            "` is not a valid identifier"))
      else (do
        let (v, control) ← declaredValue runner inv
        bindResult inv.scope (some target) (v, control)) := by
  simp only [Builtin.runDeclare, declaredValue, ← bindResult_some, htarget]
  cases stripKeyword? (splitDeclaration inv.operand.toList).2 callKeyword with
  | none => rfl
  | some operand => rfl

/-- Binding a value that may be bound succeeds, and does no more. -/
theorem bound_of_bindResult {scope : ScopeId} {target : Target} {v : Value}
    {after control : Control} {s t : State}
    (h : bindResult scope (some target) (v, after) s = (.ok control, t)) :
    control = after ∧
      t = { s with env := s.env.declare scope (String.ofList target.id) ⟨v, target.constant⟩ } := by
  rw [bindResult_some] at h
  split at h
  · cases h
  · obtain ⟨hcontrol, ht⟩ := Prod.mk.inj h
    exact ⟨(Except.ok.inj hcontrol).symm, ht.symm⟩

/-- A declaration that succeeds is one of a word, and has bound its value. -/
theorem declared_of_dispatch {runner : Runner} {b : Block} {index : Nat} {i : Instruction}
    {s t : State} {control : Control} {target : Target} (htarget : i.declared? = some target)
    (h : dispatch standardTable runner b index i s = (.ok control, t)) :
    isIdentifier target.id = true ∧
      ∃ v u, declaredValue runner ⟨b, index, i.operand, i.line⟩ s.ticked = (.ok (v, control), u) ∧
        t = { u with
          env := u.env.declare b.scope (String.ofList target.id) ⟨v, target.constant⟩ } := by
  have hkeyword := Instruction.keyword_of_declared? htarget
  have hword : (i.keyword, Builtin.declare) ∈ Builtin.words := Builtin.mem_words hkeyword
  have hsplit : Target.ofText (splitDeclaration i.operand.toList).1 = target := by
    rw [Instruction.declared?, if_pos hkeyword] at htarget
    rw [Instruction.toList_operand]
    exact Option.some.inj htarget
  have htick : Exec.tick s = (.ok (), s.ticked) := rfl
  rw [dispatch_builtin hword, Exec.bind_of_ok htick, Builtin.run,
    runDeclare_eq runner ⟨b, index, i.operand, i.line⟩ hsplit] at h
  by_cases hid : isIdentifier target.id = true
  · rw [if_neg (by rw [hid]; decide)] at h
    cases hvalue : declaredValue runner ⟨b, index, i.operand, i.line⟩ s.ticked with
    | mk r u =>
      cases r with
      | error e =>
        rw [Exec.bind_of_error hvalue] at h
        cases h
      | ok p =>
        obtain ⟨v, after⟩ := p
        rw [Exec.bind_of_ok hvalue] at h
        obtain ⟨rfl, ht⟩ := bound_of_bindResult h
        exact ⟨hid, v, u, rfl, ht⟩
  · rw [if_pos (by simpa using hid)] at h
    cases h

/-- A value that is no call is evaluated without a change to any binding. -/
theorem idles_declaredValue (runner : Runner) (b : Block) (index : Nat) {i : Instruction}
    {target : Target} (htarget : i.declared? = some target) (hcall : i.callOperand? = none) :
    Exec.Stays Idles (declaredValue runner ⟨b, index, i.operand, i.line⟩) := by
  rw [Instruction.callOperand?_declare (Instruction.keyword_of_declared? htarget)] at hcall
  simp only [declaredValue, Instruction.toList_operand, hcall]
  split
  · exact Exec.idles_pure _
  · exact .bind (Exec.idles_evaluate _ _) fun _ => Exec.idles_pure _

/-! ### What is found after a declaration -/

namespace Environment

variable {env : Environment} {scope : ScopeId}

theorem find?_declare_self (hr : env.Ranked) (hlive : scope < env.depth) (id : String)
    (b : Binding) : (env.declare scope id b).find? scope id = some b := by
  obtain ⟨chain, hchain⟩ := exists_chain hr hlive
  refine (find?_declare hr hlive hchain id id b).1 ⟨rfl, ?_⟩
  -- a lookup from the frame begins there
  cases hchain with
  | root | next => exact ⟨List.mem_cons_self, by simp⟩

theorem find?_declare_of_ne (hr : env.Ranked) (hlive : scope < env.depth) {id id' : String}
    (hid : id' ≠ id) (b : Binding) {k : ScopeId} (hk : k < env.depth) :
    (env.declare scope id b).find? k id' = env.find? k id' := by
  obtain ⟨chain, hchain⟩ := exists_chain hr hk
  exact (find?_declare hr hlive hchain id id' b).2 fun h => hid h.1

end Environment

/-! ### What is read after a declaration -/

theorem isIdentifier_iff {t : List Char} :
    isIdentifier t = true ↔ t ≠ [] ∧ ∀ c ∈ t, Text.isBlank c = false := by
  simp [isIdentifier]

/-- **What is declared is read back.** A declaration that succeeds in a live scope has bound
its value there. If its name is a word that expressions look up, then the word on its own
has this value, as seen from the scope. Any other word reads as it did before it was bound.
If the value is no call, then every other name is found as before, from every live frame. -/
theorem declaration_read_back {fuel : Nat} {b : Block} {index : Nat} {i : Instruction}
    {s t : State} {control : Control} {target : Target} (hreach : s.env.Reachable)
    (hlive : s.env.isLive b.scope = true) (htarget : i.declared? = some target)
    (h : dispatch standardTable (nestedRunner standardTable fuel) b index i s =
      (.ok control, t)) :
    ∃ v u,
      declaredValue (nestedRunner standardTable fuel) ⟨b, index, i.operand, i.line⟩ s.ticked =
        (.ok (v, control), u) ∧
      t.env.find? b.scope (String.ofList target.id) = some ⟨v, target.constant⟩ ∧
      (Expr.ReadAsName target.id →
        Expr.evaluate (t.lookup b.scope) (String.ofList target.id) = .ok v) ∧
      (¬Expr.ReadAsName target.id →
        Expr.evaluate (t.lookup b.scope) (String.ofList target.id) =
          Expr.evaluate (u.lookup b.scope) (String.ofList target.id)) ∧
      (i.callOperand? = none → ∀ scope id, s.env.isLive scope = true →
        id ≠ String.ofList target.id → t.env.find? scope id = s.env.find? scope id) := by
  have hkept := dispatch_related confined_runRelation (nestedRunner standardTable fuel)
    (fun inner s => runBlock_related confined_runRelation fuel inner 0 s) b index i s
  rw [h] at hkept
  obtain ⟨hreach', hconfined⟩ := hkept hreach (of_decide_eq_true hlive)
  obtain ⟨hid, v, u, hvalue, rfl⟩ := declared_of_dispatch htarget h
  -- the frames are those of before also when the value has been computed
  have hparents : u.env.parents = s.env.parents :=
    (parents_declare u.env _ _ _).symm.trans hconfined.parents
  have hr : u.env.Ranked := by
    intro scope up hp
    rw [parent?_of_parents hparents] at hp
    exact hreach.ranked hp
  have hdepth : u.env.depth = s.env.depth := depth_of_parents hparents
  have hscope : b.scope < u.env.depth := hdepth ▸ of_decide_eq_true hlive
  have hself := find?_declare_self hr hscope (String.ofList target.id) ⟨v, target.constant⟩
  refine ⟨v, u, hvalue, hself, fun hname => ?_, fun hname => ?_, fun hcall scope id hk hne => ?_⟩
  · refine Expr.evaluate_of_name hname ?_
    rw [State.lookup, hself]
    rfl
  · refine Expr.evaluate_of_not_name (isIdentifier_iff.1 hid) hname fun id hne => ?_
    rw [State.lookup, State.lookup, find?_declare_of_ne hr hscope hne _ hscope]
  · have hkept := (idles_declaredValue (nestedRunner standardTable fuel) b index htarget hcall
      s.ticked).1.env_eq
    rw [hvalue] at hkept
    have hsame : u.env.find? scope id = s.env.find? scope id :=
      congrArg (fun env => find? env scope id) hkept
    have hlive' : scope < u.env.depth := hdepth ▸ of_decide_eq_true hk
    exact (find?_declare_of_ne hr hscope hne _ hlive').trans hsame

/-- A name that is written like a difference, with a value. -/
def hyphenated : Instruction :=
  ⟨"DECLARE x-1 = true", 1⟩

/-- An operator stands between blanks, so the word is one name. -/
theorem hyphenated_read_back :
    (Interpreter.initialState 10 .silent).env.Reachable ∧
    (Interpreter.initialState 10 .silent).env.isLive root = true ∧
    hyphenated.declared? = some ⟨"x-1".toList, false⟩ ∧ hyphenated.callOperand? = none ∧
    Expr.ReadAsName "x-1".toList ∧
    ∃ t, dispatch standardTable (nestedRunner standardTable 0) (.root [hyphenated] root) 0
        hyphenated (Interpreter.initialState 10 .silent) = (.ok .next, t) ∧
      t.env.find? root "x-1" = some ⟨.boolean true, false⟩ ∧
      Expr.evaluate (t.lookup root) "x-1" = .ok (.boolean true) ∧
      t.env.find? root "std" = some ⟨.std 0, true⟩ := by
  have hreach : (Interpreter.initialState 10 .silent).env.Reachable := .initialState 10 .silent
  have hlive : (Interpreter.initialState 10 .silent).env.isLive root = true := rfl
  have htarget : hyphenated.declared? = some ⟨"x-1".toList, false⟩ := by decide +kernel
  have hcall : hyphenated.callOperand? = none := by decide +kernel
  have hname : Expr.ReadAsName "x-1".toList :=
    ⟨⟨⟨by decide, by rw [Expr.Unclosed]; decide⟩, rfl, by decide, by decide, rfl⟩,
      isIdentifier_iff.1 (by decide), by decide⟩
  have hdone : (dispatch standardTable (nestedRunner standardTable 0) (.root [hyphenated] root) 0
      hyphenated (Interpreter.initialState 10 .silent)).1 = .ok .next := by
    decide +kernel
  have hbound : (dispatch standardTable (nestedRunner standardTable 0) (.root [hyphenated] root) 0
      hyphenated (Interpreter.initialState 10 .silent)).2.env.find? root "x-1" =
        some ⟨.boolean true, false⟩ := by
    decide +kernel
  generalize hline : dispatch standardTable (nestedRunner standardTable 0)
    (.root [hyphenated] root) 0 hyphenated (Interpreter.initialState 10 .silent) = result
    at hdone hbound ⊢
  obtain ⟨r, t⟩ := result
  obtain rfl : r = _ := hdone
  obtain ⟨v, u, -, hfind, hread, -, hothers⟩ := declaration_read_back hreach hlive htarget hline
  obtain rfl : v = .boolean true :=
    congrArg Binding.value (Option.some.inj (hfind.symm.trans hbound))
  refine ⟨hreach, hlive, htarget, hcall, hname, t, rfl, hbound, hread hname, ?_⟩
  rw [hothers hcall root "std" hlive (by decide)]
  decide +kernel

/-- A constant that is written as a word, bound to another value. -/
def rebound : Instruction :=
  ⟨"DECLARE true = false", 1⟩

/-- The word can be declared, but an expression never looks it up. -/
theorem rebound_not_read_back :
    isIdentifier "true".toList = true ∧
    ∃ t u, declaredValue (nestedRunner standardTable 0) ⟨.root [rebound] root, 0, rebound.operand,
        rebound.line⟩ (Interpreter.initialState 10 .silent).ticked =
          (.ok (.boolean false, .next), u) ∧
      dispatch standardTable (nestedRunner standardTable 0) (.root [rebound] root) 0 rebound
        (Interpreter.initialState 10 .silent) = (.ok .next, t) ∧
      t.env.find? root "true" = some ⟨.boolean false, false⟩ ∧
      Expr.evaluate (t.lookup root) "true" = .ok (.boolean true) := by
  refine ⟨by decide, _, _, rfl, rfl, ?_, ?_⟩
  · decide +kernel
  · decide +kernel

end LineScript
