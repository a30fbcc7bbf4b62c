import LineScript.Proofs.Keyword.Standard
import LineScript.Proofs.Machine.Line
import LineScript.Proofs.Program.Structured

/-!
# What a line writes

Up to the block that it executes, a line binds at most one name: a declaration
binds its target, a definition the name of its function, and an assignment gives a
variable that is bound already another value. All else that a line does leaves
bindings and calls as they are: it counts a step, prints, waits, or takes an
identity.

- `Instruction.declared?`, `assigned?`, `functionName?`: the names that a line binds.
- `Idles`: the changes that leave bindings and calls as they are.
- `Wrote`, `Does`: the write of a line, and all that the line does itself.
- `Opens`: how a line enters a block.
- `beginLine_does`: the first part of a line does this, and enters a block or not.
- `Opens.resume_bound`: after its block a line binds at most the target of a declaration.
-/

namespace LineScript

/-! ### The names that a line binds -/

/-- The name under which a header binds its function, unless it leaves it unnamed. -/
def headerName? (header : List Char) : Option String :=
  match (Text.words header).map String.ofList with
  | [] => none
  | name :: _ => if name = anonymousName then none else some name

namespace Instruction

/-- The target that a declaration binds. -/
def declared? (i : Instruction) : Option Target :=
  if i.keyword = declareKeyword then some (Target.ofText (splitDeclaration i.operandChars).1)
  else none

/-- The target of an assignment, and the text of its value. -/
def assigned? (i : Instruction) : Option (Target × String) :=
  if i.keyword = "ASSIGN" then
    some (Target.ofText (splitAssignment i.operandChars).1,
      String.ofList (splitAssignment i.operandChars).2)
  else none

/-- The header of the function that a line defines: the operand of a definition,
or the one inside the first argument of a call. -/
def header? (i : Instruction) : Option (List Char) :=
  if i.keyword = functionKeyword then some i.operandChars
  else
    match i.callOperand?.map Expr.splitArguments with
    | some (.ok (callee :: _)) => inlineHeader? callee
    | _ => none

/-- The name under which a line binds the function that it defines. -/
def functionName? (i : Instruction) : Option String :=
  i.header?.bind headerName?

variable {i : Instruction}

/-- Only declarations have a target. -/
theorem keyword_of_declared? {target : Target} (h : i.declared? = some target) :
    i.keyword = declareKeyword := by
  rw [declared?] at h
  split at h
  · assumption
  · cases h

/-- Only definitions and calls define functions. -/
theorem keyword_of_header? {header : List Char} (h : i.header? = some header) :
    i.keyword = functionKeyword ∨ i.keyword = callKeyword ∨ i.keyword = declareKeyword := by
  rw [header?] at h
  split at h
  · next hk => exact .inl hk
  · cases hcall : i.callOperand? with
    | none =>
      rw [hcall] at h
      cases h
    | some operand => exact .inr (keyword_of_callOperand? hcall)

/-- The first argument of a call has the header of the function that it defines. -/
theorem header?_of_call {operand callee : List Char} {args : List (List Char)}
    (hcall : i.callOperand? = some operand)
    (hargs : Expr.splitArguments operand = .ok (callee :: args)) :
    i.header? = inlineHeader? callee := by
  have hk : i.keyword ≠ functionKeyword := by
    obtain hk | hk := keyword_of_callOperand? hcall
    · rw [hk]
      decide
    · rw [hk]
      decide
  rw [header?, if_neg hk, hcall, Option.map_some, hargs]

end Instruction

/-! ### What a line does itself -/

/-- Changes of a state that leave its bindings and calls as they are. -/
inductive Idles : State → State → Prop where
  | refl (s : State) : Idles s s
  | trans {s t u : State} (h : Idles s t) (h' : Idles t u) : Idles s u
  | tick (s : State) : Idles s { s with clock := s.clock.tick }
  | sleep (s : State) (n : Nat) :
      Idles s { s with clock := s.clock.sleep n, sink := s.sink.pause n }
  | emit (s : State) (v : Value) : Idles s { s with sink := s.sink.emit v }
  | fresh (s : State) : Idles s { s with nextId := s.nextId + 1 }

theorem Idles.env_eq {s t : State} (h : Idles s t) : t.env = s.env := by
  induction h with
  | trans _ _ ih ih' => exact ih'.trans ih
  | refl | tick | sleep | emit | fresh => rfl

theorem Idles.calls_eq {s t : State} (h : Idles s t) : t.calls = s.calls := by
  induction h with
  | trans _ _ ih ih' => exact ih'.trans ih
  | refl | tick | sleep | emit | fresh => rfl

/-- What a line of `scope` makes of the bindings of a state, apart from its block. -/
inductive Wrote (i : Instruction) (scope : ScopeId) (s : State) : Environment → Prop where
  | nothing : Wrote i scope s s.env
  /-- A declaration whose value is no call binds its target. -/
  | declared {target : Target} {v : Value} (hi : i.declared? = some target)
      (hcall : i.callOperand? = none) (hv : target.constant = true → v ≠ .undefined) :
      Wrote i scope s (s.env.declare scope (String.ofList target.id) ⟨v, target.constant⟩)
  /-- A definition binds the name of its function. -/
  | defined {name : String} (f : Function) (hi : i.functionName? = some name) :
      Wrote i scope s (s.env.declare scope name ⟨.function f, false⟩)
  /-- An assignment gives a variable its value, where the variable is bound. -/
  | assigned {target : Target} {text : String} {old : Binding} {v : Value} {env : Environment}
      (hi : i.assigned? = some (target, text))
      (hold : s.env.find? scope (String.ofList target.id) = some old)
      (hvariable : old.constant = false) (hv : Expr.evaluate (s.lookup scope) text = .ok v)
      (henv : s.env.rebind? scope (String.ofList target.id) (fun _ => ⟨v, target.constant⟩) =
        some env) :
      Wrote i scope s env

/-- What a line of `scope` does itself: one write at most, and idle changes before
and after it. -/
inductive Does (i : Instruction) (scope : ScopeId) (s : State) : State → Prop where
  | intro {u t : State} {env : Environment} (before : Idles s u) (wrote : Wrote i scope u env)
      (after : Idles { u with env } t) : Does i scope s t

/-- What the end of a call does: it binds the target of a declaration, if one waits
for the value. A constant needs a value other than undefined. -/
inductive Bound (scope : ScopeId) (awaited : Option Target) (s : State) : State → Prop where
  | nothing : Bound scope awaited s s
  | bound {target : Target} {v : Value} (ht : awaited = some target)
      (hv : target.constant = true → v ≠ .undefined) :
      Bound scope awaited s
        { s with env := s.env.declare scope (String.ofList target.id) ⟨v, target.constant⟩ }

namespace Does

variable {i : Instruction} {scope : ScopeId} {s t u : State}

theorem of_wrote {env : Environment} (h : Wrote i scope s env) : Does i scope s { s with env } :=
  .intro (.refl s) h (.refl _)

theorem of_idles (h : Idles s t) : Does i scope s t :=
  .intro h .nothing (.refl t)

theorem refl (s : State) : Does i scope s s :=
  of_idles (.refl s)

theorem idles_trans (h : Idles s t) (h' : Does i scope t u) : Does i scope s u := by
  obtain ⟨before, wrote, after⟩ := h'
  exact .intro (h.trans before) wrote after

theorem trans_idles (h : Does i scope s t) (h' : Idles t u) : Does i scope s u := by
  obtain ⟨before, wrote, after⟩ := h
  exact .intro before wrote (after.trans h')

theorem calls_eq (h : Does i scope s t) : t.calls = s.calls := by
  obtain ⟨before, -, after⟩ := h
  exact after.calls_eq.trans before.calls_eq

/-- The bindings after a line are those that it has written, from the bindings
before it. -/
theorem wrote (h : Does i scope s t) : Wrote i scope s t.env := by
  obtain @⟨u, t, env, before, wrote, after⟩ := h
  have henv : t.env = env := after.env_eq
  have hlookup : u.lookup scope = s.lookup scope := by
    funext id
    show (u.env.find? scope id).map Binding.value = _
    rw [before.env_eq]
    rfl
  rw [henv]
  cases wrote with
  | nothing =>
    rw [before.env_eq]
    exact .nothing
  | declared hi hcall hv =>
    rw [before.env_eq]
    exact .declared hi hcall hv
  | defined f hi =>
    rw [before.env_eq]
    exact .defined f hi
  | assigned hi hold hvariable hv hrebind =>
    rw [before.env_eq] at hold hrebind
    rw [hlookup] at hv
    exact .assigned hi hold hvariable hv hrebind

end Does

/-! ### Computations that stay within a relation -/

namespace Exec

variable {α β : Type} {R R' R'' : State → State → Prop}

/-- The computation ends in a related state, and if it fails then with an error
about whose place nothing is known yet. -/
def Stays (R : State → State → Prop) (x : Exec α) : Prop :=
  ∀ s, R s (x s).2 ∧ ∀ e, (x s).1 = .error e → ∃ c, e = .failed (.ofCause c)

theorem Stays.pure (hrefl : ∀ s, R s s) (a : α) : Stays R (Pure.pure a : Exec α) := by
  intro s
  refine ⟨hrefl s, ?_⟩
  rintro e ⟨⟩

theorem Stays.fail (hrefl : ∀ s, R s s) (c : Cause) : Stays R (fail c : Exec α) := by
  intro s
  refine ⟨hrefl s, ?_⟩
  rintro e ⟨⟩
  exact ⟨c, rfl⟩

/-- A computation that only changes the state, within the relation. -/
theorem Stays.modify {f : State → State} (hf : ∀ s, R s (f s)) : Stays R (modify f) := by
  intro s
  refine ⟨hf s, ?_⟩
  rintro e ⟨⟩

theorem Stays.imp {x : Exec α} (h : Stays R x) (himp : ∀ s t, R s t → R' s t) : Stays R' x := by
  intro s
  obtain ⟨hs, he⟩ := h s
  exact ⟨himp s _ hs, he⟩

/-- Two computations one after the other stay within what their relations make
together. -/
theorem Stays.comp {x : Exec α} {f : α → Exec β} (hleft : ∀ s t, R s t → R'' s t)
    (hcomp : ∀ s t u, R s t → R' t u → R'' s u) (hx : Stays R x) (hf : ∀ a, Stays R' (f a)) :
    Stays R'' (x >>= f) := by
  intro s
  obtain ⟨hs, hfresh⟩ := hx s
  rw [bind_apply]
  generalize x s = result at hs hfresh
  obtain ⟨r, t⟩ := result
  cases r with
  | ok a =>
    obtain ⟨ht, hfresh'⟩ := hf a t
    exact ⟨hcomp s t _ hs ht, hfresh'⟩
  | error e =>
    refine ⟨hleft s t hs, ?_⟩
    rintro e' ⟨⟩
    exact hfresh e rfl

theorem Stays.bind {x : Exec α} {f : α → Exec β} (hx : Stays Idles x)
    (hf : ∀ a, Stays Idles (f a)) : Stays Idles (x >>= f) :=
  .comp (fun _ _ h => h) (fun _ _ _ => .trans) hx hf

/-- An idle computation before one that a line does. -/
theorem Stays.bind_does {i : Instruction} {scope : ScopeId} {x : Exec α} {f : α → Exec β}
    (hx : Stays Idles x) (hf : ∀ a, Stays (Does i scope) (f a)) :
    Stays (Does i scope) (x >>= f) :=
  .comp (fun _ _ => .of_idles) (fun _ _ _ => .idles_trans) hx hf

/-- An idle computation after one that a line does. -/
theorem Stays.does_bind {i : Instruction} {scope : ScopeId} {x : Exec α} {f : α → Exec β}
    (hx : Stays (Does i scope) x) (hf : ∀ a, Stays Idles (f a)) :
    Stays (Does i scope) (x >>= f) :=
  .comp (fun _ _ h => h) (fun _ _ _ => .trans_idles) hx hf

theorem idles_pure (a : α) : Stays Idles (pure a : Exec α) :=
  .pure .refl a

theorem idles_fail (c : Cause) : Stays Idles (fail c : Exec α) :=
  .fail .refl c

theorem idles_get : Stays Idles get := by
  intro s
  refine ⟨.refl s, ?_⟩
  rintro e ⟨⟩

theorem get_bind_apply (f : State → Exec α) (s : State) : (get >>= f) s = f s s := rfl

theorem idles_freshId : Stays Idles freshId := by
  intro s
  refine ⟨.fresh s, ?_⟩
  rintro e ⟨⟩

theorem idles_ofExcept (r : Except Cause α) : Stays Idles (ofExcept r) := by
  cases r with
  | ok a => exact idles_pure a
  | error c => exact idles_fail c

theorem idles_ofOption (c : Cause) (o : Option α) : Stays Idles (ofOption c o) := by
  cases o with
  | some a => exact idles_pure a
  | none => exact idles_fail c

theorem idles_evaluate (scope : ScopeId) (text : String) : Stays Idles (evaluate scope text) := by
  intro s
  exact idles_ofExcept (Expr.evaluate (s.lookup scope) text) s

end Exec

open Exec

/-! ### Keywords that bind nothing -/

section

theorem idles_argumentValues (scope : ScopeId) (params args : List String) :
    Stays Idles (argumentValues scope params args) := by
  induction params generalizing args with
  | nil => exact idles_pure _
  | cons param params ih =>
    cases args with
    | nil => exact .bind (ih []) fun _ => idles_pure _
    | cons arg args =>
      exact .bind (idles_evaluate _ _) fun _ => .bind (ih args) fun _ => idles_pure _

theorem idles_lookupFunction (scope : ScopeId) (name : String) :
    Stays Idles (lookupFunction scope name) := by
  refine .bind idles_get fun s => ?_
  split
  · exact idles_fail _
  · exact idles_pure _
  · exact idles_fail _

theorem idles_bodyFrom (b : Block) (start : Nat) : Stays Idles (bodyFrom b start) :=
  .bind (idles_ofOption _ _) fun _ => idles_pure _

variable (inv : Invocation)

theorem idles_runJump : Stays Idles (Builtin.runJump inv) :=
  Builtin.runJump_of (fun _ => idles_pure _) (fun _ => idles_fail _) (idles_pure _)
    fun _ hf => .bind (idles_evaluate _ _) hf

theorem idles_runWait : Stays Idles (Builtin.runWait inv) := by
  refine .bind (idles_evaluate _ _) fun v => ?_
  split
  · exact .bind (.modify fun s => .sleep s _) fun _ => idles_pure _
  · exact idles_fail _

theorem idles_runOutput : Stays Idles (Builtin.runOutput inv) := by
  have hemit : ∀ v, Stays Idles (emit v) := fun v => .modify fun s => .emit s v
  simp only [Builtin.runOutput]
  split
  · exact .bind (idles_pure _) fun v => .bind (hemit v) fun _ => idles_pure _
  · exact .bind (idles_evaluate _ _) fun v => .bind (hemit v) fun _ => idles_pure _

theorem idles_runLeave : Stays Idles (Builtin.runLeave inv) := by
  refine .bind idles_get fun s => ?_
  split
  · exact idles_fail _
  · split
    · exact idles_pure _
    · exact .bind (idles_evaluate _ _) fun _ => idles_pure _

end

/-! ### Keywords that bind a name -/

theorem stays_bindTarget (scope : ScopeId) (target : Target) (v : Value) :
    Stays (Bound scope (some target)) (bindTarget scope target v) := by
  rw [bindTarget]
  split
  · exact .fail (fun _ => .nothing) _
  · next h =>
    have hv : target.constant = true → v ≠ .undefined := by simpa using h
    exact .modify fun s => .bound rfl hv

theorem stays_bindResult (scope : ScopeId) (awaited : Option Target) (result : Value × Control) :
    Stays (Bound scope awaited) (bindResult scope awaited result) := by
  cases awaited with
  | none => exact .pure (fun _ => .nothing) _
  | some target =>
    have hafter : ∀ s t u : State, Bound scope (some target) s t → t = u →
        Bound scope (some target) s u := by
      rintro s t u h rfl
      exact h
    exact .comp (fun _ _ h => h) hafter (stays_bindTarget scope target _) fun _ => .pure (fun _ => rfl) _

section

variable {b : Block} {index : Nat} {i : Instruction}

/-- A declaration whose value is no call does no more than to bind its target. -/
theorem does_bindTarget {target : Target} (hi : i.declared? = some target)
    (hcall : i.callOperand? = none) (scope : ScopeId) (v : Value) :
    Stays (Does i scope) (bindTarget scope target v) := by
  refine (stays_bindTarget scope target v).imp ?_
  intro s t h
  cases h with
  | nothing => exact .refl s
  | bound ht hv =>
    obtain rfl := Option.some.inj ht
    exact .of_wrote (.declared hi hcall hv)

theorem does_defineFunction {header : List Char} (hi : i.header? = some header) :
    Stays (Does i b.scope) (defineFunction ⟨b, index, i.operand, i.line⟩ header) := by
  rw [defineFunction]
  cases hwords : (Text.words header).map String.ofList with
  | nil => exact .fail .refl _
  | cons name params =>
    refine .bind_does (idles_bodyFrom _ _) fun r => .bind_does idles_freshId fun id => ?_
    dsimp only
    split
    · next bound hbound =>
      have hname : i.functionName? = some bound := by
        rw [Instruction.functionName?, hi, Option.bind_some, headerName?, hwords]
        exact hbound
      exact .does_bind (.modify fun s => .of_wrote (.defined _ hname)) fun _ => idles_pure _
    · exact (idles_pure _).imp fun _ _ => .of_idles

theorem does_resolveCallee {operand callee : List Char} {args : List (List Char)}
    (hcall : i.callOperand? = some operand)
    (hargs : Expr.splitArguments operand = .ok (callee :: args)) :
    Stays (Does i b.scope) (resolveCallee ⟨b, index, i.operand, i.line⟩ callee) := by
  have hheader := Instruction.header?_of_call hcall hargs
  rw [resolveCallee]
  cases h : inlineHeader? callee with
  | some header =>
    rw [h] at hheader
    exact .does_bind (does_defineFunction hheader) fun _ => idles_pure _
  | none =>
    refine Stays.imp ?_ fun _ _ => .of_idles
    exact .bind (idles_lookupFunction _ _) fun _ => idles_pure _

/-- An assignment looks its variable up, evaluates, and looks it up once more to
write; nothing happens in between. -/
theorem does_runAssign (hi : i.keyword = "ASSIGN") :
    Stays (Does i b.scope) (Builtin.runAssign ⟨b, index, i.operand, i.line⟩) := by
  have hassigned : i.assigned? = some (Target.ofText (splitAssignment i.operandChars).1,
      String.ofList (splitAssignment i.operandChars).2) := by
    rw [Instruction.assigned?, if_pos hi]
  simp only [Builtin.runAssign, Instruction.toList_operand, Invocation.scope]
  generalize splitAssignment i.operandChars = parts at hassigned ⊢
  obtain ⟨targetText, valueText⟩ := parts
  dsimp only at hassigned ⊢
  generalize Target.ofText targetText = target at hassigned ⊢
  split
  · exact .fail .refl _
  · intro s
    have hfail : ∀ c, Does i b.scope s (fail c s : Except Stop Control × State).2 ∧
        ∀ e, (fail c s : Except Stop Control × State).1 = .error e →
          ∃ c, e = .failed (.ofCause c) :=
      fun c => Stays.fail Does.refl c s
    rw [get_bind_apply]
    cases hold : s.env.find? b.scope (String.ofList target.id) with
    | none => exact hfail _
    | some old =>
      cases hconstant : old.constant with
      | true =>
        simp only [hconstant, if_true]
        exact hfail _
      | false =>
        simp only [hconstant, Bool.false_eq_true, if_false]
        rw [bind_apply, evaluate]
        cases hv : Expr.evaluate (s.lookup b.scope) (String.ofList valueText) with
        | error c => exact hfail c
        | ok v =>
          refine ⟨?_, nofun⟩
          show Does i b.scope s { s with env := (s.env.rebind? b.scope _ _).getD s.env }
          cases henv : s.env.rebind? b.scope (String.ofList target.id)
              (fun _ => ⟨v, target.constant⟩) with
          | none => exact .refl s
          | some env => exact .of_wrote (.assigned hassigned hold hconstant hv henv)

end

/-! ### How a line enters a block -/

/-- The target of a declaration that waits for the value of a call. -/
def Pending.target? : Pending → Option Target
  | .branch .. => none
  | .call _ _ _ target _ => target

/-- How a line enters a block from a state: the block, what the line leaves to
do, and the state in which the block begins. -/
inductive Opens (inv : Invocation) (s : State) : Block → Pending → State → Prop where
  | branch {layout : Layout} {condition : Bool} {first stop : Nat}
      (hlayout : layout? inv.block.code (inv.index + 1) = some layout)
      (hchosen : Builtin.chosenBranch (inv.index + 1) layout condition = some (first, stop)) :
      Opens inv s (inv.block.branch first stop s.env.depth)
        (.branch s.env.depth (inv.block.origin + layout.endAt + 1))
        { s with env := (s.env.child inv.scope).2 }
  | call {f : Function} {values : List Value} {target : Option Target} {after : Control}
      {calls : CallStack} (hpush : s.calls.push ⟨f.label, some inv.line⟩ = .ok calls) :
      Opens inv s (.root f.body s.env.depth) (.call f s.env.depth inv.scope target after)
        { s with
          calls
          env := (s.env.child inv.scope).2.bindAll s.env.depth (f.params.zip values) }

/-- How the first part of a line ends, where `R` holds across what the line does
before it enters a block. If the block is the body of a function, then its value is
what the target `awaited` waits for. -/
inductive Begun (R : State → State → Prop) (inv : Invocation) (awaited : Option Target)
    (s : State) : Except Stop Entry × State → Prop where
  | failed {cause : Cause} {t : State} (h : R s t) :
      Begun R inv awaited s (.error (.failed (.ofCause cause)), t)
  | finished {control : Control} {t : State} (h : R s t) :
      Begun R inv awaited s (.ok (.finished control), t)
  | opens {inner : Block} {pending : Pending} {t u : State} (h : R s t)
      (ho : Opens inv t inner pending u) (htarget : pending.target? = awaited) :
      Begun R inv awaited s (.ok (.opens inner pending), u)

section

variable {α : Type} {R R' R'' : State → State → Prop} {inv : Invocation}
  {awaited : Option Target}

theorem Begun.comp {x : Exec α} {f : α → Exec Entry} (hleft : ∀ s t, R s t → R'' s t)
    (hcomp : ∀ s t u, R s t → R' t u → R'' s u) (hx : Stays R x)
    (hf : ∀ a s, Begun R' inv awaited s (f a s)) (s : State) :
    Begun R'' inv awaited s ((x >>= f) s) := by
  obtain ⟨hs, hfresh⟩ := hx s
  rw [bind_apply]
  generalize x s = result at hs hfresh
  obtain ⟨r, t⟩ := result
  cases r with
  | error e =>
    obtain ⟨cause, rfl⟩ := hfresh e rfl
    exact .failed (hleft s t hs)
  | ok a =>
    -- what comes after starts in the state that `x` leaves
    have hb := hf a t
    show Begun R'' inv awaited s (f a t)
    generalize f a t = begun at hb ⊢
    cases hb with
    | failed h => exact .failed (hcomp _ _ _ hs h)
    | finished h => exact .finished (hcomp _ _ _ hs h)
    | opens h ho htarget => exact .opens (hcomp _ _ _ hs h) ho htarget

/-- An idle computation before the rest of the first part of a line. -/
theorem Begun.bind {i : Instruction} {scope : ScopeId} {x : Exec α} {f : α → Exec Entry}
    (hx : Stays Idles x) (hf : ∀ a s, Begun (Does i scope) inv awaited s (f a s)) (s : State) :
    Begun (Does i scope) inv awaited s ((x >>= f) s) :=
  .comp (fun _ _ => .of_idles) (fun _ _ _ => .idles_trans) hx hf s

theorem begun_fail (hrefl : ∀ s, R s s) (cause : Cause) (s : State) :
    Begun R inv awaited s (fail cause s) :=
  .failed (hrefl s)

/-- A line without a block ends within the relation. -/
theorem begun_finished {x : Exec Control} (hx : Stays R x) (s : State) :
    Begun R inv awaited s ((do return .finished (← x) : Exec Entry) s) := by
  have hafter : ∀ s t u : State, R s t → t = u → R s u := by
    rintro s t u h rfl
    exact h
  exact .comp (fun _ _ h => h) hafter hx (fun _ _ => .finished rfl) s

theorem begun_enterCall (f : Function) (values : List Value) (awaited : Option Target)
    (after : Control) (s : State) :
    Begun Idles inv awaited s (enterCall inv f values awaited after s) := by
  rw [enterCall]
  cases h : s.calls.push ⟨f.label, some inv.line⟩ with
  | error cause => exact begun_fail .refl cause s
  | ok calls => exact .opens (.refl s) (.call h) rfl

end

section

variable {b : Block} {index : Nat} {i : Instruction}

theorem begun_beginCall {operand : List Char} (hcall : i.callOperand? = some operand)
    (awaited : Option Target) (s : State) :
    Begun (Does i b.scope) ⟨b, index, i.operand, i.line⟩ awaited s
      (beginCall ⟨b, index, i.operand, i.line⟩ operand awaited s) := by
  rw [beginCall]
  cases hargs : Expr.splitArguments operand with
  | error c => exact begun_fail .refl c s
  | ok callees =>
    simp only [ofExcept_ok, pure_bind]
    cases callees with
    | nil => exact begun_fail .refl _ s
    | cons callee args =>
      -- the callee may be defined, and from then on nothing is written
      have hrest : ∀ (r : Function × Control) (t : State),
          Begun Idles ⟨b, index, i.operand, i.line⟩ awaited t
            ((do
              let values ← argumentValues b.scope r.1.params (args.map String.ofList)
              enterCall ⟨b, index, i.operand, i.line⟩ r.1 values awaited r.2) t) :=
        fun r t => .comp (fun _ _ h => h) (fun _ _ _ => .trans) (idles_argumentValues _ _ _)
          (fun _ => begun_enterCall _ _ _ _) t
      exact .comp (fun _ _ h => h) (fun _ _ _ => .trans_idles) (does_resolveCallee hcall hargs)
        hrest s

theorem begun_beginDeclare (hi : i.keyword = declareKeyword) (s : State) :
    Begun (Does i b.scope) ⟨b, index, i.operand, i.line⟩ i.declared? s
      (beginDeclare ⟨b, index, i.operand, i.line⟩ s) := by
  have hcall := Instruction.callOperand?_declare hi
  have hdeclared : i.declared? = some (Target.ofText (splitDeclaration i.operandChars).1) := by
    rw [Instruction.declared?, if_pos hi]
  have hbind : ∀ v s, i.callOperand? = none →
      Begun (Does i b.scope) ⟨b, index, i.operand, i.line⟩ i.declared? s
        ((do
          bindTarget b.scope (Target.ofText (splitDeclaration i.operandChars).1) v
          return .finished .next : Exec Entry) s) := fun v s hnone =>
    .comp (fun _ _ h => h) (fun _ _ _ => .trans_idles) (does_bindTarget hdeclared hnone _ v)
      (fun _ s => .finished (.refl s)) s
  simp only [beginDeclare, Instruction.toList_operand, Invocation.scope]
  split
  · exact begun_fail .refl _ s
  · split
    · next hempty =>
      refine hbind _ s ?_
      rw [hcall, List.isEmpty_iff.1 hempty]
      rfl
    · cases hvalue : stripKeyword? (splitDeclaration i.operandChars).2 callKeyword with
      | some operand =>
        rw [hdeclared]
        exact begun_beginCall (hcall.trans hvalue) _ s
      | none =>
        exact .bind (idles_evaluate _ _) (fun v s => hbind v s (hcall.trans hvalue)) s

theorem begun_beginConditional (s : State) :
    Begun (Does i b.scope) ⟨b, index, i.operand, i.line⟩ none s
      (beginConditional ⟨b, index, i.operand, i.line⟩ s) := by
  rw [beginConditional]
  refine .bind (idles_evaluate _ _) (fun condition s => ?_) s
  cases hlayout : layout? b.code (index + 1) with
  | none => exact begun_fail .refl _ s
  | some layout =>
    simp only [ofOption_some, pure_bind]
    cases hchosen : Builtin.chosenBranch (index + 1) layout condition.isTruthy with
    | none => exact .finished (.refl s)
    | some branch => exact .opens (.refl s) (.branch hlayout hchosen) rfl

/-- A line with a keyword of the language does itself what the line says. -/
theorem Builtin.begin_does {k : Builtin} (hk : (i.keyword, k) ∈ Builtin.words) (s : State) :
    Begun (Does i b.scope) ⟨b, index, i.operand, i.line⟩ i.declared? s
      (k.begin ⟨b, index, i.operand, i.line⟩ s) := by
  have hword := Builtin.eq_word hk
  have hidle : ∀ {x : Exec Control}, Stays Idles x →
      Begun (Does i b.scope) ⟨b, index, i.operand, i.line⟩ i.declared? s
        ((do return .finished (← x) : Exec Entry) s) :=
    fun hx => begun_finished (hx.imp fun _ _ => .of_idles) s
  cases k with
  | declare => exact begun_beginDeclare hword s
  | assign =>
    rw [Builtin.begin]
    exact begun_finished (does_runAssign hword) s
  | jump =>
    rw [Builtin.begin]
    exact hidle (idles_runJump _)
  | wait =>
    rw [Builtin.begin]
    exact hidle (idles_runWait _)
  | conditional =>
    have hnone : i.declared? = none := by
      rw [Instruction.declared?, hword]
      rfl
    rw [hnone]
    exact begun_beginConditional s
  | ignore => exact .finished (.refl s)
  | output =>
    rw [Builtin.begin]
    exact hidle (idles_runOutput _)
  | function =>
    have hheader : i.header? = some i.operandChars := by
      rw [Instruction.header?]
      exact if_pos hword
    rw [Builtin.begin, Builtin.runFunction, Instruction.toList_operand]
    exact begun_finished (.does_bind (does_defineFunction hheader) fun _ => idles_pure _) s
  | call =>
    have hcall : i.callOperand? = some i.operandChars := by
      rw [Instruction.callOperand?]
      exact if_pos hword
    have hnone : i.declared? = none := by
      rw [Instruction.declared?, hword]
      rfl
    rw [hnone, Builtin.begin, Instruction.toList_operand]
    exact begun_beginCall hcall none s
  | leave =>
    rw [Builtin.begin]
    exact hidle (idles_runLeave _)

/-- **What a line does itself.** Before it enters a block a line makes one write at
most, and the block is awaited by the target of the declaration, if it is one. -/
theorem beginLine_does (b : Block) (index : Nat) (i : Instruction) (s : State) :
    Begun (Does i b.scope) ⟨b, index, i.operand, i.line⟩ i.declared? s
      (beginLine standardTable b index i s) := by
  rw [beginLine]
  cases h : standardTable.find? i.keyword with
  | none => exact begun_fail .refl _ s
  | some handler =>
    obtain ⟨k, hk, rfl⟩ := find?_standardTable.1 h
    exact .bind (.modify .tick) (fun _ => Builtin.begin_does hk) s

end

/-! ### What is left to do after a block -/

/-- When a call is left, its value is bound to the target that waits for it. -/
theorem Pending.resume_call (f : Function) (depth : Nat) (scope : ScopeId)
    (awaited : Option Target) (after : Control) (r : Except Stop Outcome) (s : State) :
    Bound scope awaited ((Pending.call f depth scope awaited after).close s)
      ((Pending.call f depth scope awaited after).resume r s).2 := by
  cases r with
  | error e => exact .nothing
  | ok outcome => exact (stays_bindResult scope awaited _ _).1

/-- When the block of a line is closed, at most the target that waits for its value is
bound, in the scope of the line. -/
theorem Opens.resume_bound {inv : Invocation} {s t : State} {inner : Block} {p : Pending}
    (ho : Opens inv s inner p t) (r : Except Stop Outcome) (u : State) :
    Bound inv.scope p.target? (p.close u) (p.resume r u).2 := by
  cases ho with
  | branch => exact .nothing
  | call => exact Pending.resume_call ..

end LineScript
