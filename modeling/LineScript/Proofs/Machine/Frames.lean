import LineScript.Proofs.Machine.Bodies
import LineScript.Proofs.Machine.Jumps
import LineScript.Proofs.Program.Structured

/-!
# The live stacks during a run

The frames that are live and the calls that are active follow from the lines that
wait. Every one of them has made a frame on top of the one of its own block, and
those that call a function have pushed their call.

- `Suspended.call?`, `activeCalls`, `activeBranches`: the calls and conditionals
  that wait.
- `CallsOver`, `CallsOf`: the active calls are those of the waiting lines, on top of
  those that were active before or without any.
- `Stacked`: the frames and calls are those of the waiting lines. A line keeps that
  when it enters a block (`Stacked.opens`) and when the block ends
  (`Stacked.close`).
- `StackShape`: the shape of the stacks when a line is at hand.
- `stackShape_of_reaches`: every moment of a program's run has this shape.
-/

namespace LineScript

/-! ### Calls and conditionals that wait -/

/-- The call that a waiting line has made, if it does not wait for a branch. -/
def Suspended.call? (w : Suspended) : Option Call :=
  match w.pending with
  | .branch .. => none
  | .call f .. => some ⟨f.label, some w.line⟩

/-- The active calls, the outermost first, each with the line that made it. -/
def activeCalls (outer : List Suspended) : List Call :=
  outer.reverse.filterMap Suspended.call?

/-- The number of conditionals whose branch is executed, over all active calls. -/
def activeBranches (outer : List Suspended) : Nat :=
  outer.countP fun w => w.call?.isNone

/-- Every waiting line is a call or a conditional. -/
theorem length_waiting (outer : List Suspended) :
    outer.length = (activeCalls outer).length + activeBranches outer := by
  rw [activeCalls, List.filterMap_reverse, List.length_reverse]
  induction outer with
  | nil => rfl
  | cons w outer ih =>
    simp only [activeBranches, List.filterMap_cons, List.countP_cons, List.length_cons] at ih ⊢
    cases w.call? with
    | none =>
      simp only [Option.isNone_none, if_true]
      omega
    | some call =>
      simp only [Option.isNone_some, List.length_cons, Bool.false_eq_true, if_false]
      omega

/-! ### The calls of the waiting lines -/

/-- The active calls are those of the lines that wait, on top of those of `base`. -/
def CallsOver (base : CallStack) (outer : List Suspended) (s : State) : Prop :=
  s.calls = ⟨outer.filterMap Suspended.call? ++ base.calls, base.limit⟩

namespace CallsOver

variable {base : CallStack} {outer : List Suspended} {s t : State}

theorem of_calls (h : CallsOver base outer s) (hst : t.calls = s.calls) : CallsOver base outer t :=
  hst.trans h

/-- A line that enters a block waits with its call, if it makes one. -/
theorem opens {b inner : Block} {index : Nat} {i : Instruction} {p : Pending}
    (h : CallsOver base outer s) (ho : Opens ⟨b, index, i.operand, i.line⟩ s inner p t) :
    CallsOver base (⟨b, index, i.line, p⟩ :: outer) t := by
  cases ho with
  | branch => exact h
  | call hpush =>
    obtain ⟨-, rfl⟩ := CallStack.push_eq_ok_iff.1 hpush
    show CallStack.mk (_ :: s.calls.calls) s.calls.limit = _
    rw [h]
    rfl

/-- When a block ends, its call is over if it is the body of a function. -/
theorem close {w : Suspended} (h : CallsOver base (w :: outer) s) :
    CallsOver base outer (w.pending.close s) := by
  obtain ⟨block, index, line, pending⟩ := w
  cases pending with
  | branch => exact h
  | call =>
    show s.calls.pop = _
    rw [h]
    rfl

end CallsOver

/-- The active calls are those of the lines that wait. -/
def CallsOf (limit : Nat) (outer : List Suspended) (s : State) : Prop :=
  s.calls = ⟨outer.filterMap Suspended.call?, limit⟩

namespace CallsOf

variable {limit : Nat} {outer : List Suspended} {s t : State}

theorem iff_over : CallsOf limit outer s ↔ CallsOver (.empty limit) outer s := by
  rw [CallsOf, CallsOver, CallStack.empty, List.append_nil]

theorem calls_eq (h : CallsOf limit outer s) : s.calls.calls = outer.filterMap Suspended.call? :=
  congrArg CallStack.calls h

theorem opens {b inner : Block} {index : Nat} {i : Instruction} {p : Pending}
    (h : CallsOf limit outer s) (ho : Opens ⟨b, index, i.operand, i.line⟩ s inner p t) :
    CallsOf limit (⟨b, index, i.line, p⟩ :: outer) t :=
  iff_over.2 ((iff_over.1 h).opens ho)

theorem close {w : Suspended} (h : CallsOf limit (w :: outer) s) :
    CallsOf limit outer (w.pending.close s) :=
  iff_over.2 (iff_over.1 h).close

end CallsOf

/-! ### The stacks of the waiting lines -/

/-- The live frames are the root, whose parent is `top`, and one for each waiting
line, on top of each other; the active calls are those of the waiting lines. -/
structure Stacked (top : Option ScopeId) (limit : Nat) (outer : List Suspended) (s : State) :
    Prop where
  parents : s.env.parents = top :: (List.range outer.length).map some
  calls : s.calls = ⟨outer.filterMap Suspended.call?, limit⟩
  depth_le : s.calls.depth ≤ limit

namespace Stacked

variable {top : Option ScopeId} {limit : Nat} {outer : List Suspended} {s t : State}

theorem depth_eq (h : Stacked top limit outer s) : s.env.depth = outer.length + 1 := by
  rw [← Environment.length_parents, h.parents]
  simp

theorem of_sameStacks (h : Stacked top limit outer s) (hst : SameStacks s t) :
    Stacked top limit outer t :=
  ⟨hst.parents.trans h.parents, hst.calls.trans h.calls, hst.calls ▸ h.depth_le⟩

/-- A line in the newest frame that enters a block waits with one frame more, and
with its call if it makes one. -/
theorem opens {b inner : Block} {index : Nat} {i : Instruction} {p : Pending}
    (h : Stacked top limit outer s) (hscope : b.scope + 1 = s.env.depth)
    (ho : Opens ⟨b, index, i.operand, i.line⟩ s inner p t) :
    Stacked top limit (⟨b, index, i.line, p⟩ :: outer) t := by
  have hparents : t.env.parents = top :: (List.range (outer.length + 1)).map some := by
    have hnewest : b.scope = outer.length := by
      rw [h.depth_eq] at hscope
      exact Nat.succ.inj hscope
    rw [ho.stacks.2, h.parents, List.range_succ, List.map_append, ← List.cons_append]
    exact congrArg _ (congrArg (fun scope => [some scope]) hnewest)
  refine ⟨hparents, CallsOf.opens h.calls ho, ?_⟩
  cases ho with
  | branch => exact h.depth_le
  | call hpush =>
    obtain ⟨hlt, rfl⟩ := CallStack.push_eq_ok_iff.1 hpush
    rw [h.calls] at hlt ⊢
    exact hlt

/-- When a block ends, its frame is released, and its call is over if it is the
body of a function. -/
theorem close {start b : Block} {w : Suspended} (h : Stacked top limit (w :: outer) s)
    (hn : Nested start 1 b (w :: outer) s.env.depth) :
    Stacked top limit outer (w.pending.close s) := by
  have hdepth := h.depth_eq
  have hreleased : ∀ d, s.env.depth = d + 1 →
      (s.env.release d).parents = top :: (List.range outer.length).map some := by
    intro d hd
    have hd' : max d 1 = outer.length + 1 := by
      rw [List.length_cons] at hdepth
      omega
    rw [Environment.parents_release, hd', h.parents, List.take_succ_cons, List.length_cons,
      ← List.map_take, List.take_range, Nat.min_eq_left (Nat.le_succ _)]
  have hcalls := h.calls
  have hle := h.depth_le
  have hclosed := CallsOf.close hcalls
  generalize hd : s.env.depth = depth at hn
  cases hn with
  | branch hlayout hchosen hn => exact ⟨hreleased _ hd, hclosed, hle⟩
  | call hn =>
    refine ⟨hreleased _ hd, hclosed, ?_⟩
    rw [hcalls] at hle
    rw [Pending.close, hcalls]
    exact Nat.le_of_succ_le hle

end Stacked

/-! ### Every moment of a run -/

namespace Config

/-- The lines that wait at a moment. -/
def outer : Config → List Suspended
  | running _ _ outer _ | answered _ _ _ outer _ _ | ended outer _ _ => outer

/-- The state at a moment. -/
def state : Config → State
  | running _ _ _ s | answered _ _ _ _ _ s | ended _ _ s => s

end Config

/-- Every step keeps the calls those of the waiting lines on top of the same others. -/
theorem CallsOver.step {base : CallStack} (c : Config) (h : CallsOver base c.outer c.state) :
    CallsOver base c.step.outer c.step.state := by
  have hstep := c.stepsTo
  generalize c.step = d at hstep ⊢
  cases hstep with
  | atEnd | error | goesOn | leaves | halted => exact h
  | failed _ hdoes | finished _ hdoes => exact CallsOver.of_calls h hdoes.calls_eq
  | opens _ hdoes ho => exact CallsOver.opens (CallsOver.of_calls h hdoes.calls_eq) ho
  | @resumes w _ r s =>
    exact (CallsOver.close h).of_calls (w.pending.sameStacks_resume r s).calls

/-- Every step keeps the calls those of the waiting lines. -/
theorem CallsOf.step {limit : Nat} (c : Config) (h : CallsOf limit c.outer c.state) :
    CallsOf limit c.step.outer c.step.state :=
  iff_over.2 ((iff_over.1 h).step c)

/-- In a run from the root frame every block is executed in the newest frame. -/
theorem Nested.scope_eq {start b : Block} {base depth : Nat} {outer : List Suspended}
    (hstart : start.scope + 1 = base) (h : Nested start base b outer depth) :
    b.scope + 1 = depth := by
  cases h with
  | root => exact hstart
  | branch | call => rfl

/-- Every step keeps the stacks those of the waiting lines. -/
theorem Stacked.step {top : Option ScopeId} {limit : Nat} {start : Block} (hstart : start.scope = 0)
    (c : Config) (hn : c.WellNested start 1) (h : Stacked top limit c.outer c.state) :
    Stacked top limit c.step.outer c.step.state := by
  have hstep := c.stepsTo
  generalize c.step = d at hstep ⊢
  cases hstep with
  | atEnd | error | goesOn | leaves | halted => exact h
  | @failed b index i outer s t _ _ hdoes | @finished b index i outer s t _ _ hdoes =>
    exact Stacked.of_sameStacks h hdoes.sameStacks
  | @opens b inner index i outer p s t u _ hdoes ho =>
    have hst := hdoes.sameStacks
    have hscope : b.scope + 1 = s.env.depth := Nested.scope_eq (congrArg Nat.succ hstart) hn
    exact (Stacked.of_sameStacks h hst).opens (by rw [hst.depth]; exact hscope) ho
  | @resumes w outer r s =>
    obtain ⟨b, hb⟩ := hn
    exact (Stacked.close h hb).of_sameStacks (w.pending.sameStacks_resume r s)

/-- The shape of the stacks when a line of the block `b` is at hand while the
lines `outer` wait, in a run of `start`. -/
structure StackShape (start : Block) (limit : Nat) (b : Block) (outer : List Suspended)
    (s : State) : Prop where
  /-- The blocks around the line hang together. -/
  nested : Nested start 1 b outer s.env.depth
  /-- The scope of the line is the newest frame. -/
  newest : b.scope + 1 = s.env.depth
  /-- Every other frame than the root is a child of the one before it. -/
  parent : ∀ k, k + 1 < s.env.depth → s.env.parent? (k + 1) = some k
  /-- Beside the root there is a frame for every active call and every active branch. -/
  depth : s.env.depth = 1 + (activeCalls outer).length + activeBranches outer
  /-- The call stack lists the active calls. -/
  calls : s.calls.calls.reverse = activeCalls outer
  limit_eq : s.calls.limit = limit
  depth_le : s.calls.depth ≤ limit
  /-- A waiting line is a conditional, or the line of the call that it has made. -/
  lines : ∀ w ∈ outer, ∃ i, w.block.code[w.index]? = some i ∧
    (i.keyword = ifKeyword ∧ w.call? = none ∨
      (i.keyword = callKeyword ∨ i.keyword = declareKeyword) ∧
        ∃ f : Function, w.call? = some ⟨f.label, some i.line⟩)

/-- A waiting line is a conditional or makes a call. -/
theorem Suspended.Stands.call?_eq {w : Suspended} (h : w.Stands) :
    ∃ i, w.block.code[w.index]? = some i ∧
      (i.keyword = ifKeyword ∧ w.call? = none ∨
        (i.keyword = callKeyword ∨ i.keyword = declareKeyword) ∧
          ∃ f : Function, w.call? = some ⟨f.label, some i.line⟩) := by
  obtain ⟨i, hi, hline, hsuits⟩ := h
  obtain ⟨block, index, line, pending⟩ := w
  obtain rfl : i.line = line := hline
  refine ⟨i, hi, ?_⟩
  cases pending with
  | branch depth endTarget => exact .inl ⟨hsuits, rfl⟩
  | call f depth scope target after =>
    obtain ⟨operand, hcall⟩ := hsuits
    exact .inr ⟨Instruction.keyword_of_callOperand? hcall, f, rfl⟩

/-- **The shape of the live stacks.** Let an interpreter have only its root frame
and no active call. At every moment at which a line is at hand in the run of a
program, the scope of the line is the newest frame and every frame is a child of
the one before it. There is one frame for the root, for every active call and for
every active branch. The call stack lists the active calls with the lines that made
them, and they are never more than the limit allows. -/
theorem stackShape_of_reaches {m : Interpreter} (htable : m.table = standardTable)
    (hdepth : m.state.env.depth = 1) (hcalls : m.state.calls.calls = []) (p : Program) :
    (∀ r u, (∃ fuel, m.run fuel p = (r, { m with state := u }) ∧ r ≠ .error .outOfFuel) ↔
      ∃ result, Reaches (m.start p) (.ended [] result u) ∧ r = result.map fun _ => ()) ∧
    ∀ b index outer s, Reaches (m.start p) (.running b index outer s) →
      StackShape (.root p.instructions Environment.root) m.state.calls.limit b outer s := by
  refine ⟨fun r u => Interpreter.run_iff_reaches htable, fun b index outer s hreach => ?_⟩
  -- the three invariants at the start
  have hnested : (m.start p).WellNested (.root p.instructions Environment.root) 1 := by
    rw [← hdepth]
    exact Nested.root
  have hlines : (m.start p).RunsIn fun _ => True :=
    ⟨trivial, nofun, fun _ _ _ _ _ _ => trivial⟩
  obtain ⟨top, htop⟩ : ∃ top, m.state.env.parents = [top] := by
    rw [← List.length_eq_one_iff, Environment.length_parents, hdepth]
  have hstacked : Stacked top m.state.calls.limit (m.start p).outer (m.start p).state := by
    refine ⟨htop, ?_, ?_⟩
    · show m.state.calls = ⟨[], m.state.calls.limit⟩
      rw [← hcalls]
    · show m.state.calls.calls.length ≤ _
      rw [hcalls]
      exact Nat.zero_le _
  -- and at the moment reached
  have htrue : Inherited fun _ => True := ⟨fun _ _ => trivial, fun _ _ _ => trivial⟩
  obtain ⟨hn, hl, hs⟩ := hreach.invariant
    (P := fun c => c.WellNested (.root p.instructions Environment.root) 1 ∧
      c.RunsIn (fun _ => True) ∧ Stacked top m.state.calls.limit c.outer c.state)
    (fun c ⟨hn, hl, hs⟩ => ⟨Config.WellNested.step Nat.one_pos c hn, Config.RunsIn.step htrue c hl,
      Stacked.step rfl c hn hs⟩)
    ⟨hnested, hlines, hstacked⟩
  have hs : Stacked top m.state.calls.limit outer s := hs
  refine ⟨hn, Nested.scope_eq rfl hn, fun k hk => ?_, ?_, ?_, ?_, hs.depth_le,
    fun w hw => (hl.2.1 w hw).stands.call?_eq⟩
  · rw [hs.depth_eq] at hk
    rw [Environment.parent?_eq, hs.parents, List.getElem?_cons_succ, List.getElem?_map,
      List.getElem?_range (Nat.lt_of_succ_lt_succ hk)]
    rfl
  · rw [hs.depth_eq, length_waiting]
    omega
  · rw [hs.calls, activeCalls, List.filterMap_reverse]
  · rw [hs.calls]

/-- A function that calls another one in a branch, called in a branch. -/
def nestedCalls : List Instruction :=
  [⟨"FUNC f", 1⟩, ⟨"IF true", 2⟩, ⟨"CALL g", 3⟩, ⟨"END", 4⟩, ⟨"END", 5⟩, ⟨"FUNC g", 6⟩,
    ⟨"IGNORE", 7⟩, ⟨"END", 8⟩, ⟨"IF true", 9⟩, ⟨"DECLARE r = CALL f", 10⟩, ⟨"END", 11⟩]

/-- In the body of `g` there are five frames: the root, the branch in the program,
the body of `f`, the branch in it, and the body of `g`. -/
theorem nestedCalls_stackShape :
    (Interpreter.new 10 .silent []).table = standardTable ∧
    (Interpreter.new 10 .silent []).state.env.depth = 1 ∧
    (Interpreter.new 10 .silent []).state.calls.calls = [] ∧
    ∃ b outer s, Reaches ((Interpreter.new 10 .silent []).start ⟨nestedCalls⟩)
        (.running b 0 outer s) ∧
      StackShape (.root nestedCalls Environment.root) 10 b outer s ∧
      b.code = [⟨"IGNORE", 7⟩] ∧ s.env.depth = 5 ∧
      s.calls.calls.reverse = [⟨"f", some 10⟩, ⟨"g", some 3⟩] := by
  have hreach : Reaches ((Interpreter.new 10 .silent []).start ⟨nestedCalls⟩) (.running _ 0 _ _) :=
    ⟨8, rfl⟩
  obtain ⟨-, hshape⟩ := stackShape_of_reaches (m := .new 10 .silent []) rfl rfl rfl ⟨nestedCalls⟩
  exact ⟨rfl, rfl, rfl, _, _, _, hreach, hshape _ _ _ _ hreach, rfl, rfl, rfl⟩

end LineScript
