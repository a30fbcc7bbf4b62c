import LineScript.Proofs.Keyword.Standard
import LineScript.Proofs.Machine.Line
import LineScript.Proofs.Machine.Renumber
import LineScript.Proofs.Program.Layout

/-!
# Lines of varied programs

A program may be varied without changing what it does: its lines get other numbers, calls
get another limit, and lines that do nothing stand in front. Then every position in the
list of the program goes up by the number of these lines, while those in the body of a
function stay. This module shows that the first part of a line does the same in the varied
program, except where the two differ by their nature: at the limit of calls, and at a jump
to before the start.

- `Shift`: how far the lines and the positions of a block are moved.
- `Variation`: what is varied, and what it makes of blocks, answers and states.
- `Variation.Bad`, `Variation.Strays`: where a varied program may do something else.
- `Variation.Maps`: a computation that does the same, with its rules.
- `Variation.begins_beginLine`: the first part of a line.
-/

namespace LineScript

/-! ### Shifted positions -/

/-- How a block is moved: some lines stand in front of its own, and its positions go up by
some more. -/
structure Shift where
  before : List Instruction
  up : Nat

namespace Shift

/-- How far the positions of lines go up. -/
def total (sh : Shift) : Nat :=
  sh.before.length + sh.up

/-- The position of a target. It goes up with the lines. -/
def target (sh : Shift) (t : Nat) : Nat :=
  t + sh.total

/-- How the block that a line executes is moved: the branch of a conditional with the line,
the body of a function not at all. -/
def inner (sh : Shift) : Pending → Shift
  | .branch .. => ⟨[], sh.total⟩
  | .call .. => ⟨[], 0⟩

/-- If the block is moved it is in the lower half of all positions, and lines stand in front
of it only if it is a whole root list. -/
structure Fits (sh : Shift) (b : Block) : Prop where
  bound : sh.total = 0 ∨ 2 * (b.origin + b.code.length + sh.total : Int) ≤ lastPosition
  front : sh.before = [] ∨ b.origin = 0

end Shift

/-- The operand of a jump that leads as far from every line: there is none, or it is an offset
of at most 62 bits. -/
def RelativeOperand (operand : String) : Prop :=
  operand.isEmpty = true ∨ ∃ offset ∈ relativeOffset? operand.toList, offset.natAbs < Nat.pow 2 62

instance : DecidablePred RelativeOperand :=
  fun _ => inferInstanceAs (Decidable (_ ∨ _))

/-- A line that, if it is a jump, leads as far from every place. -/
def Instruction.Relocatable (i : Instruction) : Prop :=
  i.keyword = "JUMP" → RelativeOperand i.operand

instance (i : Instruction) : Decidable i.Relocatable :=
  inferInstanceAs (Decidable (_ → _))

/-! ### What a variation makes of a machine -/

/-- How a program is varied: the numbers of its lines, the limit of calls, and the lines in
front of it. -/
structure Variation where
  line : Nat → Nat
  limit : Nat → Nat
  leading : List Instruction

namespace Variation

variable (v : Variation) (sh : Shift)

def block (b : Block) : Block :=
  { b with
    code := sh.before ++ b.code.map (Instruction.renumber v.line)
    origin := b.origin + sh.up }

def invocation (inv : Invocation) : Invocation :=
  ⟨v.block sh inv.block, inv.index + sh.before.length, inv.operand, v.line inv.line⟩

def control : Control → Control
  | .next => .next
  | .goto t => .goto (sh.target t)
  | .leave w => .leave (w.renumber v.line)

def outcome : Outcome → Outcome
  | .completed => .completed
  | .escaped t => .escaped (sh.target t)
  | .returned w => .returned (w.renumber v.line)

def pending : Pending → Pending
  | .branch depth endTarget => .branch depth (sh.target endTarget)
  | .call f depth scope target after =>
    .call (f.renumber v.line) depth scope target (v.control sh after)

def entry : Entry → Entry
  | .finished c => .finished (v.control sh c)
  | .opens inner p => .opens (v.block (sh.inner p) inner) (v.pending sh p)

def calls (cs : CallStack) : CallStack :=
  ⟨cs.calls.map (Call.renumber v.line), v.limit cs.limit⟩

/-- The same state in the varied program. The lines in front have been executed. -/
def state (s : State) : State where
  env := s.env.renumber v.line
  calls := v.calls s.calls
  sink := s.sink.renumber v.line
  clock := { s.clock with steps := s.clock.steps + v.leading.length }
  nextId := s.nextId

def stop (e : Stop) : Stop :=
  e.mapError (Error.renumber v.line)

variable {α β γ δ : Type}

/-- A line that does the same behind other lines, if there are any. -/
def Admits (i : Instruction) : Prop :=
  v.leading = [] ∨ i.Relocatable

/-- The same result in the varied program, where values are changed by `ψ`. -/
def result (ψ : α → β) (r : Except Stop α) : Except Stop β :=
  (r.mapError v.stop).map ψ

/-! ### Computations that do the same -/

/-- Causes with which a program may fail where the varied one does not: the limit of calls if
it is another one, and jumps to before the start if lines stand in front. -/
def Bad : Cause → Prop
  | .callDepthExceeded limit => v.limit limit ≠ limit
  | .invalidJump _ => v.leading ≠ []
  | _ => False

/-- Under the same limit only a jump can fail for itself, and only behind other lines. -/
theorem not_bad {v : Variation} (hlimit : ∀ k, v.limit k = k) {c : Cause}
    (hjump : v.leading = [] ∨ ∀ reason, c ≠ .invalidJump reason) : ¬ v.Bad c := by
  intro h
  cases c with
  | callDepthExceeded limit => exact h (hlimit limit)
  | invalidJump reason =>
    rcases hjump with hleading | hjump
    · exact h hleading
    · exact hjump reason rfl
  | _ => exact h

/-- A computation has failed with such a cause. -/
def Fails (r : Except Stop α × State) : Prop :=
  ∃ c, v.Bad c ∧ r.1 = .error (.failed (.ofCause c))

/-- A line has failed with such a cause, or entered a call beyond the limit of the varied
program. -/
def Strays (r : Except Stop α × State) : Prop :=
  v.Fails r ∨ v.limit r.2.calls.limit < r.2.calls.depth

/-- The computation `y` does in the varied state what `x` does, but for the excuse `E`. -/
def Follows (E : Except Stop α × State → Prop) (ψ : α → β) (x : Exec α) (y : Exec β) : Prop :=
  ∀ s, E (x s) ∨ y (v.state s) = (v.result ψ (x s).1, v.state (x s).2)

/-- The computation `y` does in the varied state what `x` does, unless that fails. -/
def Maps (ψ : α → β) (x : Exec α) (y : Exec β) : Prop :=
  v.Follows v.Fails ψ x y

/-- The computation `y` does in the varied state what `x` does, unless that strays. -/
def Begins (ψ : α → β) (x : Exec α) (y : Exec β) : Prop :=
  v.Follows v.Strays ψ x y

section rules

variable {v} {ψ : α → β} {χ : γ → δ} {x : Exec α} {y : Exec β}

theorem Maps.begins (h : v.Maps ψ x y) : v.Begins ψ x y :=
  fun s => (h s).imp_left .inl

theorem Maps.pure {a : α} {b : β} (h : b = ψ a) : v.Maps ψ (Pure.pure a) (Pure.pure b) := by
  subst h
  exact fun s => .inr rfl

theorem Maps.fail (c : Cause) : v.Maps ψ (Exec.fail c) (Exec.fail c) :=
  fun _ => .inr rfl

theorem Maps.ofExcept {r : Except Cause α} {r' : Except Cause β} (h : r' = r.map ψ) :
    v.Maps ψ (Exec.ofExcept r) (Exec.ofExcept r') := by
  subst h
  cases r with
  | error c => exact .fail c
  | ok a => exact .pure rfl

theorem Maps.ofOption (c : Cause) {o : Option α} {o' : Option β} (h : o' = o.map ψ) :
    v.Maps ψ (Exec.ofOption c o) (Exec.ofOption c o') := by
  subst h
  cases o with
  | none => exact .fail c
  | some a => exact .pure rfl

theorem Maps.get : v.Maps v.state Exec.get Exec.get :=
  fun _ => .inr rfl

theorem Maps.modify {f f' : State → State} (h : ∀ s, f' (v.state s) = v.state (f s)) :
    v.Maps id (Exec.modify f) (Exec.modify f') :=
  fun s => .inr (Prod.ext rfl (h s))

/-- One computation after the other. -/
theorem Follows.bind {E : Except Stop γ × State → Prop} (hE : ∀ r, v.Fails r → E r)
    {f : α → Exec γ} {f' : β → Exec δ} (hx : v.Maps ψ x y)
    (hf : ∀ a, v.Follows E χ (f a) (f' (ψ a))) : v.Follows E χ (x >>= f) (y >>= f') := by
  intro s
  have hxs := hx s
  rw [Exec.bind_apply, Exec.bind_apply]
  generalize x s = begun at hxs
  obtain ⟨r, t⟩ := begun
  rcases hxs with ⟨c, hc, hr⟩ | hxs
  · obtain rfl : r = _ := hr
    exact .inl (hE _ ⟨c, hc, rfl⟩)
  · rw [hxs]
    cases r with
    | error e => exact .inr rfl
    | ok a => exact hf a t

theorem Maps.bind {f : α → Exec γ} {f' : β → Exec δ} (hx : v.Maps ψ x y)
    (hf : ∀ a, v.Maps χ (f a) (f' (ψ a))) : v.Maps χ (x >>= f) (y >>= f') :=
  Follows.bind (fun _ h => h) hx hf

theorem Maps.bind_begins {f : α → Exec γ} {f' : β → Exec δ} (hx : v.Maps ψ x y)
    (hf : ∀ a, v.Begins χ (f a) (f' (ψ a))) : v.Begins χ (x >>= f) (y >>= f') :=
  Follows.bind (fun _ h => .inl h) hx hf

end rules

/-! ### What a state offers -/

section

variable {v} {sh : Shift}

@[simp] theorem env_state (s : State) : (v.state s).env = s.env.renumber v.line := rfl

@[simp] theorem depth_calls (cs : CallStack) : (v.calls cs).depth = cs.depth :=
  List.length_map _

@[simp] theorem block_invocation (inv : Invocation) :
    (v.invocation sh inv).block = v.block sh inv.block := rfl

@[simp] theorem scope_invocation (inv : Invocation) :
    (v.invocation sh inv).scope = inv.scope := rfl

@[simp] theorem operand_invocation (inv : Invocation) :
    (v.invocation sh inv).operand = inv.operand := rfl

theorem lookup_state (s : State) (scope : ScopeId) :
    (v.state s).lookup scope = Expr.Lookup.renumber v.line (s.lookup scope) := by
  funext name
  simp only [State.lookup, Expr.Lookup.renumber]
  rw [env_state, Environment.find?_renumber]
  cases s.env.find? scope name with
  | none => rfl
  | some b => rfl

theorem maps_evaluate (scope : ScopeId) (text : String) :
    v.Maps (Value.renumber v.line) (Exec.evaluate scope text) (Exec.evaluate scope text) := by
  intro s
  have hvalue := Expr.evaluate_renumber v.line (s.lookup scope) text
  rw [← lookup_state] at hvalue
  exact Maps.ofExcept hvalue s

theorem maps_declare (scope : ScopeId) (name : String) (b : Binding) :
    v.Maps id (Exec.declare scope name b) (Exec.declare scope name (b.renumber v.line)) := by
  refine .modify fun s => ?_
  simp only [state, Environment.declare_renumber]

theorem maps_emit (w : Value) :
    v.Maps id (Exec.emit w) (Exec.emit (w.renumber v.line)) := by
  refine .modify fun s => ?_
  simp only [state, Sink.emit_renumber]

theorem maps_sleep (n : Nat) : v.Maps id (Exec.sleep n) (Exec.sleep n) := by
  refine .modify fun s => ?_
  simp only [state, Sink.pause_renumber]
  rfl

theorem maps_tick : v.Maps id Exec.tick Exec.tick := by
  refine .modify fun s => ?_
  simp only [state, Clock.tick, Nat.add_right_comm]

theorem maps_freshId : v.Maps id Exec.freshId Exec.freshId :=
  fun _ => .inr rfl

theorem maps_bindTarget (scope : ScopeId) (target : Target) (w : Value) :
    v.Maps id (bindTarget scope target w) (bindTarget scope target (w.renumber v.line)) := by
  simp only [bindTarget, Value.renumber_eq_undefined]
  split
  · exact .fail _
  · exact maps_declare scope _ ⟨w, target.constant⟩

theorem maps_bindResult (scope : ScopeId) (target : Option Target) (w : Value) (after : Control) :
    v.Maps (v.control sh) (bindResult scope target (w, after))
      (bindResult scope target (w.renumber v.line, v.control sh after)) := by
  cases target with
  | none => exact .pure rfl
  | some target => exact (maps_bindTarget scope target w).bind fun _ => .pure rfl

/-! ### Functions -/

variable {inv : Invocation}

/-- The moved block with some of the lines in front left out of a part. -/
theorem slice_block (b : Block) (first stop : Nat) :
    (((v.block sh b).code.take (stop + sh.before.length)).drop (first + sh.before.length)) =
      ((b.code.take stop).drop first).map (Instruction.renumber v.line) := by
  simp only [block]
  rw [Nat.add_comm stop, Nat.add_comm first, List.take_length_add_append, ← List.drop_drop,
    List.drop_left, List.map_drop, List.map_take]

theorem layout?_block (b : Block) (start : Nat) :
    layout? (v.block sh b).code (start + sh.before.length) =
      (layout? b.code start).map (Layout.up sh.before.length) := by
  refine layout?_moved ?_ sh.before start
  rw [List.map_map]
  rfl

theorem maps_bodyFrom (b : Block) (start : Nat) :
    v.Maps (fun r => (r.1.map (Instruction.renumber v.line), r.2 + sh.before.length))
      (bodyFrom b start) (bodyFrom (v.block sh b) (start + sh.before.length)) := by
  refine (Maps.ofOption _ (layout?_block b start)).bind fun layout => .pure ?_
  exact Prod.ext (slice_block b start layout.endAt) rfl

theorem maps_defineFunction (header : List Char) :
    v.Maps (fun r => (r.1.renumber v.line, r.2 + sh.before.length)) (defineFunction inv header)
      (defineFunction (v.invocation sh inv) header) := by
  rw [defineFunction, defineFunction]
  cases (Text.words header).map String.ofList with
  | nil => exact .fail _
  | cons name params =>
    have hstart : (v.invocation sh inv).index + 1 = inv.index + 1 + sh.before.length :=
      Nat.add_right_comm _ _ _
    dsimp only
    rw [hstart]
    refine (maps_bodyFrom inv.block (inv.index + 1)).bind fun r => maps_freshId.bind fun n => ?_
    dsimp only
    cases if name = anonymousName then none else some name with
    | none => exact .pure rfl
    | some name => exact (maps_declare inv.scope name _).bind fun _ => .pure rfl

theorem maps_lookupFunction (scope : ScopeId) (name : String) :
    v.Maps (Function.renumber v.line) (lookupFunction scope name) (lookupFunction scope name) := by
  refine Maps.get.bind fun s => ?_
  rw [env_state, Environment.find?_renumber]
  cases s.env.find? scope name with
  | none => exact .fail _
  | some b =>
    obtain ⟨w, constant⟩ := b
    cases w with
    | function f => exact .pure rfl
    | undefined | boolean | number | string | std => exact .fail _

/-- Execution goes on after the `END` of the same block. -/
theorem goto_moved (endAt : Nat) :
    Control.goto ((v.invocation sh inv).block.origin + (endAt + sh.before.length) + 1) =
      v.control sh (.goto (inv.block.origin + endAt + 1)) := by
  refine congrArg Control.goto ?_
  simp only [invocation, block, Shift.target, Shift.total]
  omega

theorem maps_resolveCallee (callee : List Char) :
    v.Maps (fun r => (r.1.renumber v.line, v.control sh r.2)) (resolveCallee inv callee)
      (resolveCallee (v.invocation sh inv) callee) := by
  rw [resolveCallee, resolveCallee]
  cases inlineHeader? callee with
  | none => exact (maps_lookupFunction inv.scope _).bind fun f => .pure rfl
  | some header =>
    exact (maps_defineFunction header).bind fun r => .pure (Prod.ext rfl (goto_moved r.2))

theorem maps_argumentValues (scope : ScopeId) (params args : List String) :
    v.Maps (List.map (Value.renumber v.line)) (argumentValues scope params args)
      (argumentValues scope params args) := by
  induction params generalizing args with
  | nil => exact .pure rfl
  | cons param params ih =>
    cases args with
    | nil => exact (ih []).bind fun values => .pure rfl
    | cons arg args =>
      exact (maps_evaluate scope arg).bind fun w => (ih args).bind fun values => .pure rfl

/-! ### Calls and declarations -/

theorem begins_enterCall (f : Function) (values : List Value) (target : Option Target)
    (after : Control) :
    v.Begins (v.entry sh) (enterCall inv f values target after)
      (enterCall (v.invocation sh inv) (f.renumber v.line)
        (values.map (Value.renumber v.line)) target (v.control sh after)) := by
  intro s
  rw [enterCall, enterCall]
  by_cases hlimit : s.calls.limit ≤ s.calls.depth
  · have hpush : s.calls.push ⟨f.label, some inv.line⟩ =
        .error (.callDepthExceeded s.calls.limit) := CallStack.push_eq_error_iff.2 ⟨hlimit, rfl⟩
    rw [hpush]
    by_cases hsame : v.limit s.calls.limit = s.calls.limit
    · -- the limit is the same, and the varied program fails as well
      have hpush' : (v.state s).calls.push
          ⟨(f.renumber v.line).label, some (v.invocation sh inv).line⟩ =
            .error (.callDepthExceeded s.calls.limit) := by
        refine CallStack.push_eq_error_iff.2 ⟨?_, congrArg _ hsame.symm⟩
        show v.limit s.calls.limit ≤ (v.calls s.calls).depth
        rw [hsame, depth_calls]
        exact hlimit
      rw [hpush']
      exact .inr rfl
    · exact .inl (.inl ⟨.callDepthExceeded s.calls.limit, hsame, rfl⟩)
  · have hpush : s.calls.push ⟨f.label, some inv.line⟩ =
        .ok { s.calls with calls := ⟨f.label, some inv.line⟩ :: s.calls.calls } :=
      CallStack.push_eq_ok_iff.2 ⟨Nat.lt_of_not_le hlimit, rfl⟩
    rw [hpush]
    by_cases hbeyond : v.limit s.calls.limit ≤ s.calls.depth
    · exact .inl (.inr (Nat.lt_succ_of_le hbeyond))
    · have hpush' : (v.state s).calls.push
          ⟨(f.renumber v.line).label, some (v.invocation sh inv).line⟩ =
            .ok (v.calls { s.calls with calls := ⟨f.label, some inv.line⟩ :: s.calls.calls }) := by
        refine CallStack.push_eq_ok_iff.2 ⟨?_, rfl⟩
        show (v.calls s.calls).depth < v.limit s.calls.limit
        rw [depth_calls]
        exact Nat.lt_of_not_le hbeyond
      have henv : (v.state s).env.depth = s.env.depth := Environment.depth_renumber v.line s.env
      have hbound : ((v.state s).env.child inv.scope).2.bindAll s.env.depth
          (f.params.zip (values.map (Value.renumber v.line))) =
            ((s.env.child inv.scope).2.bindAll s.env.depth (f.params.zip values)).renumber
              v.line := by
        show ((s.env.renumber v.line).child inv.scope).2.bindAll _ _ = _
        rw [Environment.child_renumber, Environment.bindAll_renumber]
      rw [hpush', henv]
      refine .inr (Prod.ext rfl ?_)
      show State.mk (((v.state s).env.child inv.scope).2.bindAll s.env.depth _) _ _ _ _ = _
      rw [show (f.renumber v.line).params = f.params from rfl, hbound]
      rfl

theorem begins_beginCall (operand : List Char) (target : Option Target) :
    v.Begins (v.entry sh) (beginCall inv operand target)
      (beginCall (v.invocation sh inv) operand target) := by
  refine Maps.bind_begins (ψ := id) (Maps.ofExcept (by cases Expr.splitArguments operand <;> rfl))
    fun callees => ?_
  cases callees with
  | nil => exact (Maps.fail _).begins
  | cons callee args =>
    exact Maps.bind_begins (maps_resolveCallee callee) fun r =>
      Maps.bind_begins (maps_argumentValues inv.scope r.1.params _) fun values =>
        begins_enterCall r.1 values target r.2

theorem begins_beginDeclare :
    v.Begins (v.entry sh) (beginDeclare inv) (beginDeclare (v.invocation sh inv)) := by
  have hbound : ∀ (target : Target) (w : Value),
      v.Maps (v.entry sh) (do bindTarget inv.scope target w; return Entry.finished .next)
        (do bindTarget inv.scope target (w.renumber v.line); return Entry.finished .next) :=
    fun target w => (maps_bindTarget inv.scope target w).bind fun _ => .pure rfl
  rw [beginDeclare, beginDeclare, operand_invocation]
  generalize splitDeclaration inv.operand.toList = parts
  obtain ⟨targetText, valueText⟩ := parts
  dsimp only
  split
  · exact (Maps.fail _).begins
  · split
    · exact (hbound _ .undefined).begins
    · cases stripKeyword? valueText callKeyword with
      | some operand => exact begins_beginCall operand _
      | none =>
        refine Maps.begins (.bind (maps_evaluate inv.scope _) fun w => ?_)
        exact hbound _ w

/-! ### The other keywords -/

theorem maps_runAssign :
    v.Maps (v.control sh) (Builtin.runAssign inv) (Builtin.runAssign (v.invocation sh inv)) := by
  rw [Builtin.runAssign, Builtin.runAssign, operand_invocation]
  generalize splitAssignment inv.operand.toList = parts
  obtain ⟨targetText, valueText⟩ := parts
  dsimp only
  split
  · exact .fail _
  · refine Maps.get.bind fun s => ?_
    rw [env_state, scope_invocation, Environment.find?_renumber]
    cases s.env.find? inv.scope (String.ofList (Target.ofText targetText).id) with
    | none => exact .fail _
    | some b =>
      dsimp only [Option.map_some, Binding.renumber]
      split
      · exact .fail _
      · refine (maps_evaluate inv.scope _).bind fun w => .bind (.modify fun s => ?_)
          fun _ => .pure rfl
        simp only [state, Environment.rebind?_renumber]
        cases s.env.rebind? inv.scope (String.ofList (Target.ofText targetText).id)
            (fun _ => ⟨w, (Target.ofText targetText).constant⟩) with
        | none => rfl
        | some env => rfl

theorem maps_runWait :
    v.Maps (v.control sh) (Builtin.runWait inv) (Builtin.runWait (v.invocation sh inv)) := by
  refine (maps_evaluate inv.scope inv.operand).bind fun w => ?_
  cases w with
  | number ms => exact (maps_sleep _).bind fun _ => .pure rfl
  | undefined | boolean | string | function | std => exact .fail _

theorem maps_runOutput :
    v.Maps (v.control sh) (Builtin.runOutput inv) (Builtin.runOutput (v.invocation sh inv)) := by
  rw [Builtin.runOutput, Builtin.runOutput, operand_invocation]
  split
  · exact .bind (ψ := Value.renumber v.line) (.pure rfl) fun w =>
      (maps_emit w).bind fun _ => .pure rfl
  · exact (maps_evaluate inv.scope _).bind fun w => (maps_emit w).bind fun _ => .pure rfl

theorem maps_runFunction :
    v.Maps (v.control sh) (Builtin.runFunction inv)
      (Builtin.runFunction (v.invocation sh inv)) :=
  (maps_defineFunction _).bind fun r => .pure (goto_moved r.2)

theorem maps_runLeave :
    v.Maps (v.control sh) (Builtin.runLeave inv) (Builtin.runLeave (v.invocation sh inv)) := by
  refine Maps.get.bind fun s => ?_
  have hcalls : (v.state s).calls.isEmpty = s.calls.isEmpty := List.isEmpty_map
  rw [hcalls, operand_invocation]
  split
  · exact .fail _
  · split
    · exact .pure rfl
    · exact (maps_evaluate inv.scope _).bind fun w => .pure rfl

/-! ### Jumps and conditionals -/

/-- A jump that is moved leads to the moved line, unless it leads to before the start. -/
theorem maps_resumeAfter (hfront : v.leading = [] → sh.total = 0) {target : Int}
    (hroom : sh.total = 0 ∨ target + sh.total < lastPosition) :
    v.Maps (v.control sh) (Builtin.resumeAfter target)
      (Builtin.resumeAfter (target + sh.total)) := by
  unfold Builtin.resumeAfter
  by_cases hstart : target < -1
  · rw [if_pos hstart]
    by_cases hleading : v.leading = []
    · rw [hfront hleading, Int.natCast_zero, Int.add_zero, if_pos hstart]
      exact .fail _
    · exact fun s => .inl ⟨.invalidJump _, hleading, rfl⟩
  · rw [if_neg hstart, if_neg (by omega : ¬ target + sh.total < -1)]
    by_cases hlast : lastPosition ≤ target
    · have htotal : sh.total = 0 := by omega
      rw [htotal, Int.natCast_zero, Int.add_zero, if_pos hlast]
      exact .fail _
    · rw [if_neg hlast, if_neg (by omega)]
      refine .pure (congrArg Control.goto ?_)
      rw [Shift.target]
      omega

/-- An offset leads from a moved line as far as from the line itself, if the moved line is in
the lower half of all positions and the offset is small. -/
theorem maps_resumeAfter_offset (hfront : v.leading = [] → sh.total = 0) {position : Nat}
    {offset : Int} (hbound : sh.total = 0 ∨ 2 * (position + 1 + sh.total : Int) ≤ lastPosition)
    (hsmall : sh.total = 0 ∨ offset.natAbs < Nat.pow 2 62) :
    v.Maps (v.control sh) (Builtin.resumeAfter (min (position + offset) lastPosition))
      (Builtin.resumeAfter (min (((position + sh.total : Nat) : Int) + offset) lastPosition)) := by
  have hpow : Nat.pow 2 62 = 4611686018427387904 := rfl
  have hlast : lastPosition = 9223372036854775807 := rfl
  have hmoved : min (position + offset) lastPosition + sh.total =
      min (((position + sh.total : Nat) : Int) + offset) lastPosition := by omega
  rw [← hmoved]
  exact maps_resumeAfter hfront (by omega)

/-- A jump by an offset leads from a moved line as far as from the line. -/
theorem maps_runJump (hsh : sh.Fits inv.block) (hindex : inv.index < inv.block.code.length)
    (hfront : v.leading = [] → sh.total = 0)
    (hjump : v.leading = [] ∨ RelativeOperand inv.operand) :
    v.Maps (v.control sh) (Builtin.runJump inv) (Builtin.runJump (v.invocation sh inv)) := by
  have habsolute : (v.invocation sh inv).absolute = inv.absolute + sh.total := by
    simp only [Invocation.absolute, invocation, block, Shift.total]
    omega
  have hbound : sh.total = 0 ∨ 2 * (inv.absolute + 1 + sh.total : Int) ≤ lastPosition := by
    refine hsh.bound.imp_right fun hbound => ?_
    rw [Invocation.absolute]
    omega
  unfold Builtin.runJump
  rw [operand_invocation, habsolute]
  by_cases hempty : inv.operand.isEmpty = true
  · rw [if_pos hempty, if_pos hempty]
    exact .pure rfl
  · rw [if_neg hempty, if_neg hempty]
    by_cases hposition : lastPosition < inv.absolute
    · have htotal : sh.total = 0 := by omega
      rw [htotal, Nat.add_zero, if_pos hposition, if_pos hposition]
      exact .fail _
    · rw [if_neg hposition, if_neg (by omega)]
      cases hoffset : relativeOffset? inv.operand.toList with
      | some offset =>
        refine maps_resumeAfter_offset hfront hbound ?_
        obtain hleading | hempty' | ⟨offset', hmem, hsmall⟩ := hjump
        · exact .inl (hfront hleading)
        · exact absurd hempty' hempty
        · rw [hoffset] at hmem
          exact .inr (Option.some.inj hmem ▸ hsmall)
      | none =>
        -- a position by itself is the same only if no lines stand in front
        have hleading : v.leading = [] := by
          obtain hleading | hempty' | ⟨offset', hmem, -⟩ := hjump
          · exact hleading
          · exact absurd hempty' hempty
          · rw [hoffset] at hmem
            cases hmem
        have htotal := hfront hleading
        refine (maps_evaluate inv.scope inv.operand).bind fun w => ?_
        rw [Value.toNumber_renumber]
        cases positionOf w.toNumber with
        | error bad => exact .fail _
        | ok target =>
          have hsame := @maps_resumeAfter v sh hfront target (.inl htotal)
          rw [htotal, Int.natCast_zero, Int.add_zero] at hsame
          exact hsame

/-- A branch of a moved block is a moved branch. -/
theorem branch_moved (b : Block) (first stop : Nat) (scope : ScopeId) (endTarget : Nat) :
    (v.block sh b).branch (first + sh.before.length) (stop + sh.before.length) scope =
      v.block (sh.inner (.branch scope endTarget)) (b.branch first stop scope) := by
  rw [Block.branch, slice_block]
  simp only [block, Block.branch, Shift.inner, Shift.total, List.nil_append, Block.mk.injEq,
    true_and, and_true]
  omega

theorem maps_enterBranch (first stop endTarget : Nat) :
    v.Maps (v.entry sh) (enterBranch inv first stop endTarget)
      (enterBranch (v.invocation sh inv) (first + sh.before.length) (stop + sh.before.length)
        (sh.target endTarget)) := by
  intro s
  have hdepth : (v.state s).env.depth = s.env.depth := Environment.depth_renumber v.line s.env
  have hchild : ((v.state s).env.child inv.scope).2 = (s.env.child inv.scope).2.renumber v.line :=
    congrArg Prod.snd (Environment.child_renumber v.line s.env inv.scope)
  rw [enterBranch, enterBranch, hdepth]
  refine .inr (Prod.ext ?_ ?_)
  · show Except.ok (Entry.opens ((v.block sh inv.block).branch _ _ _) _) = _
    rw [branch_moved inv.block first stop s.env.depth endTarget]
    rfl
  · show State.mk ((v.state s).env.child inv.scope).2 _ _ _ _ = _
    rw [hchild]
    rfl

theorem maps_beginConditional :
    v.Maps (v.entry sh) (beginConditional inv) (beginConditional (v.invocation sh inv)) := by
  have hstart : (v.invocation sh inv).index + 1 = inv.index + 1 + sh.before.length :=
    Nat.add_right_comm _ _ _
  rw [beginConditional, beginConditional, hstart]
  refine (maps_evaluate inv.scope inv.operand).bind fun condition => ?_
  rw [block_invocation, layout?_block]
  cases hlayout : layout? inv.block.code (inv.index + 1) with
  | none => exact .fail _
  | some layout =>
    have hgoto : Control.goto (inv.block.origin + sh.up + (layout.endAt + sh.before.length) + 1) =
        v.control sh (.goto (inv.block.origin + layout.endAt + 1)) :=
      goto_moved layout.endAt
    simp only [Option.map_some, Exec.ofOption_some, pure_bind, chosenBranch_up,
      Value.isTruthy_renumber]
    cases Builtin.chosenBranch (inv.index + 1) layout condition.isTruthy with
    | none => exact .pure (congrArg Entry.finished hgoto)
    | some branch =>
      have hend : inv.block.origin + sh.up + (layout.endAt + sh.before.length) + 1 =
          sh.target (inv.block.origin + layout.endAt + 1) := Control.goto.inj hgoto
      show v.Maps (v.entry sh) _
        (enterBranch _ _ _ (inv.block.origin + sh.up + (layout.endAt + sh.before.length) + 1))
      rw [hend]
      exact maps_enterBranch branch.1 branch.2 _

/-! ### The first part of a line -/

theorem begins_builtin (hsh : sh.Fits inv.block) (hindex : inv.index < inv.block.code.length)
    (hfront : v.leading = [] → sh.total = 0) (k : Builtin)
    (hjump : k = .jump → v.leading = [] ∨ RelativeOperand inv.operand) :
    v.Begins (v.entry sh) (k.begin inv) (k.begin (v.invocation sh inv)) := by
  have hfinished : ∀ {x y : Exec Control}, v.Maps (v.control sh) x y →
      v.Begins (v.entry sh) (do return .finished (← x)) (do return .finished (← y)) := by
    intro x y h
    refine Maps.begins (.bind h fun c => ?_)
    exact .pure rfl
  cases k with
  | declare => exact begins_beginDeclare
  | assign => exact hfinished maps_runAssign
  | jump => exact hfinished (maps_runJump hsh hindex hfront (hjump rfl))
  | wait => exact hfinished maps_runWait
  | conditional => exact maps_beginConditional.begins
  | ignore => exact (Maps.pure rfl).begins
  | output => exact hfinished maps_runOutput
  | function => exact hfinished maps_runFunction
  | call => exact begins_beginCall _ none
  | leave => exact hfinished maps_runLeave

end

/-- **The first part of a line.** A line of the moved block does in the varied state what the
line does in the block itself, unless this one strays. If lines stand in front, a jump must
be one by an offset. -/
theorem begins_beginLine {v : Variation} {sh : Shift} {b : Block} (hb : sh.Fits b)
    (hfront : v.leading = [] → sh.total = 0) {index : Nat} (hindex : index < b.code.length)
    {i : Instruction} (hi : v.Admits i) :
    v.Begins (v.entry sh) (beginLine standardTable b index i)
      (beginLine standardTable (v.block sh b) (index + sh.before.length)
        (i.renumber v.line)) := by
  rw [beginLine, beginLine, Instruction.keyword_renumber]
  cases h : standardTable.find? i.keyword with
  | none => exact (Maps.fail _).begins
  | some handler =>
    obtain ⟨k, hk, rfl⟩ := find?_standardTable.1 h
    refine Maps.bind_begins maps_tick fun _ => ?_
    refine @begins_builtin v sh ⟨b, index, i.operand, i.line⟩ hb hindex hfront k fun hjump => ?_
    refine hi.imp_right fun hi => hi ?_
    rw [Builtin.eq_word hk, hjump]
    rfl

end Variation

end LineScript
