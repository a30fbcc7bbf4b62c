import LineScript.Proofs.Machine.Frames

/-!
# How blocks and calls end

A jump leaves the blocks that do not hold its target, and a `RET` leaves all blocks up
to the innermost active call. Neither of them goes further: a root block holds every jump
inside, and the end of a call is the end of what its `RET` gives up.

- `runBlock_escaped`: only a nested block is left by a jump, and only by one out of it.
- `Returning`: a `RET` line at hand with its value.
- `beginLine_leave_iff`: only a `RET` line leaves its call, and only when there is one.
- `Nested.leave_handed_up`: the value of a `RET` is handed up to the innermost call.
- `Config.Given`: every value that is handed up comes from a `RET` line in the same call.
- `return_ends_innermost_call`: how blocks, programs and calls end.
-/

namespace LineScript

/-! ### Jumps out of a block -/

/-- A block ends with an escape only if it is nested and does not hold the target. -/
theorem Block.next_escaped {b : Block} {index target : Nat} {c : Control}
    (h : b.next index c = .inr (.escaped target)) : b.nested = true ∧ ¬ b.Holds target := by
  cases c with
  | next => cases h
  | leave v => cases h
  | goto t =>
    by_cases ht : b.Holds t
    · rw [Block.next_of_holds ht] at h
      cases h
    · rw [Block.next_of_not_holds ht] at h
      split at h
      · next hnested =>
        obtain rfl := Outcome.escaped.inj (Sum.inr.inj h)
        exact ⟨hnested, ht⟩
      · cases h

/-- A run of a block ends with an escape only if the block is nested and does not hold
the target. -/
theorem runBlock_escaped {table : Table Handler} {fuel : Nat} {b : Block} {index target : Nat}
    {s t : State} (h : runBlock table fuel b index s = (.ok (.escaped target), t)) :
    b.nested = true ∧ ¬ b.Holds target := by
  induction fuel generalizing index s with
  | zero => cases h
  | succ fuel ih =>
    cases hi : b.code[index]? with
    | none =>
      rw [runBlock_succ, hi] at h
      cases h
    | some i =>
      rw [runBlock_of_line hi] at h
      generalize dispatch table (nestedRunner table fuel) b index i s = result at h
      obtain ⟨r, u⟩ := result
      cases r with
      | error e => cases h
      | ok control =>
        rw [goOn] at h
        cases hn : b.next index control with
        | inl next =>
          rw [hn] at h
          exact ih h
        | inr outcome =>
          rw [hn] at h
          obtain rfl := Except.ok.inj (Prod.mk.inj h).1
          exact Block.next_escaped hn

/-! ### Lines that stay in their call -/

/-- An answer that stays in the call. -/
def Control.Onward : Control → Prop
  | .next | .goto _ => True
  | .leave _ => False

/-- What is left to do after a block stays in the call, if the block does. -/
def Pending.Onward : Pending → Prop
  | .branch .. => True
  | .call _ _ _ _ after => after.Onward

/-- The first part of a line ends with an answer that stays in the call, or with a block
after which the line does. -/
def Entry.Onward : Entry → Prop
  | .finished control => control.Onward
  | .opens _ pending => pending.Onward

section

open Exec

variable {inv : Invocation}

theorem yields_bindResult (scope : ScopeId) (target : Option Target) (v : Value)
    {after : Control} (h : after.Onward) :
    Yields Control.Onward (bindResult scope target (v, after)) := by
  cases target with
  | none => exact .pure h
  | some target => exact .after fun _ => .pure h

theorem yields_runJump : Yields Control.Onward (Builtin.runJump inv) :=
  Builtin.runJump_of (fun _ => .pure trivial) (fun _ => .fail _) (.pure trivial)
    fun _ hf => .after hf

theorem yields_runAssign : Yields Control.Onward (Builtin.runAssign inv) := by
  simp only [Builtin.runAssign]
  split
  · exact .fail _
  · refine .after fun s => ?_
    split
    · exact .fail _
    · split
      · exact .fail _
      · exact .after fun v => .after fun _ => .pure trivial

theorem yields_runWait : Yields Control.Onward (Builtin.runWait inv) := by
  refine .after fun v => ?_
  split
  · exact .after fun _ => .pure trivial
  · exact .fail _

theorem yields_resolveCallee (callee : List Char) :
    Yields (fun r => r.2.Onward) (resolveCallee inv callee) := by
  rw [resolveCallee]
  split
  · exact .after fun _ => .pure trivial
  · exact .after fun _ => .pure trivial

theorem yields_enterCall (f : Function) (values : List Value) (target : Option Target)
    {after : Control} (h : after.Onward) :
    Yields Entry.Onward (enterCall inv f values target after) := by
  intro s entry he
  rw [enterCall] at he
  split at he
  · cases he
  · obtain rfl := Except.ok.inj he
    exact h

theorem yields_beginCall (operand : List Char) (target : Option Target) :
    Yields Entry.Onward (beginCall inv operand target) := by
  refine .after fun callees => ?_
  cases callees with
  | nil => exact .fail _
  | cons callee args =>
    exact .bind (yields_resolveCallee callee) fun r hr =>
      .after fun values => yields_enterCall r.1 values target hr

theorem yields_beginDeclare : Yields Entry.Onward (beginDeclare inv) := by
  simp only [beginDeclare]
  split
  · exact .fail _
  · split
    · exact .after fun _ => .pure trivial
    · split
      · exact yields_beginCall _ _
      · exact .after fun _ => .after fun _ => .pure trivial

theorem yields_beginConditional : Yields Entry.Onward (beginConditional inv) := by
  refine .after fun condition => .after fun layout => ?_
  dsimp only
  split
  · exact .pure trivial
  · rintro s entry he
    obtain rfl := Except.ok.inj he
    trivial

/-- A line without a block stays in its call, if its answer does. -/
theorem yields_finished {x : Exec Control} (h : Yields Control.Onward x) :
    Yields Entry.Onward (do return .finished (← x)) :=
  .bind h fun _ hc => .pure hc

/-- Every keyword other than `RET` stays in its call. -/
theorem Builtin.yields_begin {k : Builtin} (hk : k ≠ .leave) :
    Yields Entry.Onward (k.begin inv) := by
  cases k with
  | declare => exact yields_beginDeclare
  | assign => exact yields_finished yields_runAssign
  | jump => exact yields_finished yields_runJump
  | wait => exact yields_finished yields_runWait
  | conditional => exact yields_beginConditional
  | ignore => exact .pure trivial
  | output =>
    refine yields_finished ?_
    simp only [Builtin.runOutput]
    split
    · exact .after fun v => .after fun _ => .pure trivial
    · exact .after fun v => .after fun _ => .pure trivial
  | function => exact yields_finished (.after fun _ => .pure trivial)
  | call => exact yields_beginCall _ _
  | leave => exact absurd rfl hk

/-- Every line other than a `RET` stays in its call. -/
theorem yields_beginLine {b : Block} {index : Nat} {i : Instruction} (hi : i.keyword ≠ "RET") :
    Yields Entry.Onward (beginLine standardTable b index i) := by
  rw [beginLine]
  cases h : standardTable.find? i.keyword with
  | none => exact .fail _
  | some handler =>
    obtain ⟨k, hk, rfl⟩ := find?_standardTable.1 h
    refine .after fun _ => Builtin.yields_begin ?_
    rintro rfl
    exact hi (Builtin.eq_word hk)

end

/-! ### A return -/

/-- The line `i` is at hand in the block `b` and is a `RET` that has the value `v`. -/
structure Returning (b : Block) (index : Nat) (i : Instruction) (s : State) (v : Value) :
    Prop where
  line : b.code[index]? = some i
  keyword : i.keyword = "RET"
  value : if i.operand.isEmpty then v = .undefined
    else Expr.evaluate (s.lookup b.scope) i.operand = .ok v

section

variable {b : Block} {index : Nat} {i : Instruction} {s t : State} {v : Value}

/-- A `RET` gives its value if there is a call to leave. -/
theorem runLeave_iff {inv : Invocation} :
    Builtin.runLeave inv s = (.ok (.leave v), t) ↔
      s.calls.calls ≠ [] ∧ t = s ∧ if inv.operand.isEmpty then v = .undefined
        else Expr.evaluate (s.lookup inv.scope) inv.operand = .ok v := by
  have hcalls : s.calls.isEmpty = true ↔ s.calls.calls = [] := List.isEmpty_iff
  rw [Builtin.runLeave, Exec.bind_apply]
  dsimp only [Exec.get]
  by_cases hempty : s.calls.isEmpty = true
  · rw [if_pos hempty]
    refine ⟨?_, fun h => absurd (hcalls.1 hempty) h.1⟩
    rintro ⟨⟩
  · rw [if_neg hempty]
    have hsome : s.calls.calls ≠ [] := fun h => hempty (hcalls.2 h)
    split
    · constructor
      · intro h
        obtain ⟨hv, rfl⟩ := Prod.mk.inj h
        obtain rfl := Control.leave.inj (Except.ok.inj hv)
        exact ⟨hsome, rfl, rfl⟩
      · rintro ⟨-, rfl, rfl⟩
        rfl
    · rw [Exec.bind_apply, Exec.evaluate]
      cases Expr.evaluate (s.lookup inv.scope) inv.operand with
      | error c =>
        constructor
        · rintro ⟨⟩
        · rintro ⟨-, -, ⟨⟩⟩
      | ok w =>
        constructor
        · intro h
          obtain ⟨hv, rfl⟩ := Prod.mk.inj h
          obtain rfl := Control.leave.inj (Except.ok.inj hv)
          exact ⟨hsome, rfl, rfl⟩
        · rintro ⟨-, rfl, hv⟩
          rw [Except.ok.inj hv]
          rfl

/-- A `RET` line begins, and then it leaves its call or fails. -/
theorem beginLine_of_ret (hret : i.keyword = "RET") :
    beginLine standardTable b index i s =
      match Builtin.runLeave ⟨b, index, i.operand, i.line⟩ s.ticked with
      | (.ok control, t) => (.ok (.finished control), t)
      | (.error e, t) => (.error e, t) := by
  have hfind : standardTable.find? i.keyword = some (.builtin .leave) := by
    rw [hret]
    exact find?_standardTable.2 ⟨.leave, by decide, rfl⟩
  rw [beginLine, hfind]
  show (Exec.tick >>= fun _ => Builtin.leave.begin _) s = _
  rw [Builtin.begin, Exec.bind_apply]
  show (Builtin.runLeave _ >>= fun control => pure (Entry.finished control)) s.ticked = _
  rw [Exec.bind_apply]
  generalize Builtin.runLeave ⟨b, index, i.operand, i.line⟩ s.ticked = result
  obtain ⟨r, t⟩ := result
  cases r <;> rfl

/-- Only a `RET` line leaves its call, and only when there is one. -/
theorem beginLine_leave_iff (hi : b.code[index]? = some i) :
    beginLine standardTable b index i s = (.ok (.finished (.leave v)), t) ↔
      Returning b index i s v ∧ s.calls.calls ≠ [] ∧ t = s.ticked := by
  by_cases hret : i.keyword = "RET"
  · have hleave : beginLine standardTable b index i s = (.ok (.finished (.leave v)), t) ↔
        Builtin.runLeave ⟨b, index, i.operand, i.line⟩ s.ticked = (.ok (.leave v), t) := by
      rw [beginLine_of_ret hret]
      generalize Builtin.runLeave ⟨b, index, i.operand, i.line⟩ s.ticked = result
      obtain ⟨r, u⟩ := result
      cases r <;> simp
    rw [hleave, runLeave_iff]
    constructor
    · rintro ⟨hcalls, rfl, hv⟩
      exact ⟨⟨hi, hret, hv⟩, hcalls, rfl⟩
    · rintro ⟨hreturning, hcalls, rfl⟩
      exact ⟨hcalls, rfl, hreturning.value⟩
  · constructor
    · intro h
      exact (yields_beginLine hret s _ (congrArg Prod.fst h)).elim
    · intro h
      exact absurd h.1.keyword hret

/-- A line that enters a block stays in its call, if the block does. -/
theorem onward_of_opens {inner : Block} {p : Pending}
    (h : beginLine standardTable b index i s = (.ok (.opens inner p), t)) : p.Onward := by
  by_cases hret : i.keyword = "RET"
  · rw [beginLine_of_ret hret] at h
    split at h
    · cases h
    · cases h
  · exact yields_beginLine hret s _ (congrArg Prod.fst h)

/-- A `RET` line in a call answers with its value. -/
theorem Returning.step (h : Returning b index i s v) (hcalls : s.calls.calls ≠ [])
    (outer : List Suspended) :
    (Config.running b index outer s).step =
      .answered b index i.line outer (.ok (.leave v)) s.ticked := by
  rw [Config.step_running h.line, (beginLine_leave_iff h.line).2 ⟨h, hcalls, rfl⟩]

end

/-! ### A return is handed up -/

/-- A `RET` leaves every block up to the root block of its call, and the scopes of these
blocks are released. -/
theorem Nested.leave_handed_up {start b : Block} {base : Nat} {outer : List Suspended} {s : State}
    (hbase : 0 < base) (index line : Nat) (v : Value)
    (h : Nested start base b outer s.env.depth) :
    Leads (.answered b index line outer (.ok (.leave v)) s)
      (.ended (callers outer) (.ok (.returned v)) (s.leaving (nest b outer).dropLast)) := by
  induction outer generalizing b index line s with
  | nil => exact .answered (.refl _)
  | cons w outer ih =>
    have hclosed := h.close hbase
    generalize hdepth : s.env.depth = depth at h
    cases h with
    | call => exact .answered (.refl _)
    | @branch b _ d index' line' layout condition first stop hlayout hchosen h =>
      -- the branch ends with the value, which the conditional hands up
      refine .answered (.ended ?_)
      obtain ⟨_, hrest⟩ := nest_eq_cons b outer
      have hne : nest b outer ≠ [] := by
        rw [hrest]
        exact List.cons_ne_nil _ _
      rw [nest]
      dsimp only
      rw [List.dropLast_cons_of_ne_nil hne]
      exact ih index' line' hclosed

/-- The calls of the waiting lines are those of the callers. -/
theorem filterMap_callers (outer : List Suspended) :
    (callers outer).filterMap Suspended.call? = outer.filterMap Suspended.call? := by
  induction outer with
  | nil => rfl
  | cons w outer ih =>
    rw [callers]
    cases hp : w.pending with
    | branch =>
      have hnone : w.call? = none := by rw [Suspended.call?, hp]
      rw [List.filterMap_cons_none hnone]
      exact ih
    | call => rfl

/-- The innermost caller waits for a call. -/
theorem pending_of_callers {outer rest : List Suspended} {w : Suspended}
    (h : callers outer = w :: rest) :
    ∃ f depth scope target after, w.pending = .call f depth scope target after := by
  induction outer with
  | nil => cases h
  | cons w' outer ih =>
    rw [callers] at h
    cases hp : w'.pending with
    | branch =>
      rw [hp] at h
      exact ih h
    | call f depth scope target after =>
      rw [hp] at h
      obtain ⟨rfl, -⟩ := List.cons.inj h
      exact ⟨f, depth, scope, target, after, hp⟩

theorem callers_callers (outer : List Suspended) : callers (callers outer) = callers outer := by
  induction outer with
  | nil => rfl
  | cons w outer ih =>
    rw [callers]
    cases hp : w.pending with
    | branch => exact ih
    | call => simp only [callers, hp]

theorem length_callers_le (outer : List Suspended) : (callers outer).length ≤ outer.length := by
  induction outer with
  | nil => exact Nat.le_refl _
  | cons w outer ih =>
    rw [callers]
    cases w.pending with
    | branch => exact Nat.le_succ_of_le ih
    | call => exact Nat.le_refl _

/-- A line that waits for a branch is not the innermost caller. -/
theorem callers_ne_of_branch {outer : List Suspended} {w : Suspended} {depth endTarget : Nat}
    (hw : w.pending = .branch depth endTarget) : callers (w :: outer) ≠ w :: outer := by
  intro h
  have hlength := congrArg List.length h
  rw [callers, hw] at hlength
  exact Nat.not_succ_le_self _ (hlength ▸ length_callers_le outer)

/-! ### Where a value comes from -/

namespace Config

/-- The value with which a line has left its call or a block has ended. -/
def given? : Config → Option Value
  | answered _ _ _ _ (.ok (.leave v)) _ | ended _ (.ok (.returned v)) _ => some v
  | _ => none

end Config

/-- A jump gives no value. -/
theorem Block.next_goto_ne_returned {b : Block} {index target : Nat} {v : Value} :
    b.next index (.goto target) ≠ .inr (.returned v) := by
  rw [Block.next]
  split
  · rintro ⟨⟩
  · split
    · rintro ⟨⟩
    · rintro ⟨⟩

/-- A value is handed up within its call, or it is the one of a `RET` line. -/
theorem given_of_step {c : Config} (honward : ∀ w ∈ c.outer, w.pending.Onward) {v : Value}
    (h : c.step.given? = some v) :
    (c.given? = some v ∧ callers c.step.outer = callers c.outer ∧ Leads c c.step) ∨
      ∃ b index i outer s, c = .running b index outer s ∧ Returning b index i s v ∧
        s.calls.calls ≠ [] ∧ c.step = .answered b index i.line outer (.ok (.leave v)) s.ticked := by
  cases c with
  | running b index outer s =>
    refine .inr ⟨b, index, ?_⟩
    cases hi : b.code[index]? with
    | none =>
      rw [Config.step, hi] at h
      cases h
    | some i =>
      rw [Config.step_running hi] at h ⊢
      cases hbegun : beginLine standardTable b index i s with
      | mk r t =>
        rw [hbegun] at h
        cases r with
        | error e => cases h
        | ok entry =>
          cases entry with
          | opens inner p => cases h
          | finished control =>
            cases control with
            | next | goto => cases h
            | leave w =>
              obtain rfl := Option.some.inj h
              obtain ⟨hreturning, hcalls, rfl⟩ := (beginLine_leave_iff hi).1 hbegun
              exact ⟨i, outer, s, rfl, hreturning, hcalls, rfl⟩
  | answered b index line outer r s =>
    cases r with
    | error e => cases h
    | ok control =>
      cases control with
      | next => cases h
      | leave w => exact .inl ⟨h, rfl, .answered (.refl _)⟩
      | goto target =>
        rw [Config.step] at h
        cases hnext : b.next index (.goto target) with
        | inl next =>
          rw [hnext] at h
          cases h
        | inr outcome =>
          rw [hnext] at h
          cases outcome with
          | completed | escaped => cases h
          | returned w => exact absurd hnext Block.next_goto_ne_returned
  | ended outer r s =>
    cases outer with
    | nil => exact .inl ⟨h, rfl, .ended (.refl _)⟩
    | cons w outer =>
      have hw := honward w List.mem_cons_self
      have hleads : Leads (.ended (w :: outer) r s) (Config.ended (w :: outer) r s).step :=
        .ended (.refl _)
      obtain ⟨block, index, line, pending⟩ := w
      cases pending with
      | branch depth endTarget =>
        refine .inl ⟨?_, rfl, hleads⟩
        cases r with
        | error e => cases h
        | ok outcome =>
          cases outcome with
          | completed | escaped => cases h
          | returned v => exact h
      | call f depth scope target after =>
        cases r with
        | error e => cases h
        | ok outcome =>
          -- the line goes on after the call
          have hyields := yields_bindResult scope target outcome.callValue hw
            ((Pending.call f depth scope target after).close s)
          simp only [Config.step, Pending.resume] at h
          generalize bindResult scope target _ _ = result at h hyields
          obtain ⟨answer, t⟩ := result
          cases answer with
          | error e => cases h
          | ok control =>
            have hcontrol := hyields control rfl
            cases control with
            | next | goto => cases h
            | leave v => exact hcontrol.elim

/-- The lines that wait at a moment go on in their calls. -/
theorem onward_step (c : Config) (h : ∀ w ∈ c.outer, w.pending.Onward) :
    ∀ w ∈ c.step.outer, w.pending.Onward := by
  cases c with
  | running b index outer s =>
    cases hi : b.code[index]? with
    | none =>
      rw [Config.step, hi]
      exact h
    | some i =>
      rw [Config.step_running hi]
      cases hbegun : beginLine standardTable b index i s with
      | mk r t =>
        cases r with
        | error e => exact h
        | ok entry =>
          cases entry with
          | finished control => exact h
          | opens inner p =>
            intro w hw
            rcases List.mem_cons.1 hw with rfl | hw
            · exact onward_of_opens hbegun
            · exact h w hw
  | answered b index line outer r s =>
    cases r with
    | error e => exact h
    | ok control =>
      rw [Config.step]
      cases b.next index control with
      | inl next => exact h
      | inr outcome => exact h
  | ended outer r s =>
    cases outer with
    | nil => exact h
    | cons w outer => exact fun w' hw' => h w' (List.mem_cons_of_mem w hw')

/-- The run from `start` has come to a `RET` line with the value `v` in the call inside of
`around`, and this line leads to `c`. -/
def GivenTo (start : Config) (v : Value) (around : List Suspended) (c : Config) : Prop :=
  ∃ b index i inner s, Reaches start (.running b index inner s) ∧ Returning b index i s v ∧
    s.calls.calls ≠ [] ∧ callers inner = around ∧
    Leads (.answered b index i.line inner (.ok (.leave v)) s.ticked) c

/-- A value that leaves its call was given by a `RET` line in this call. -/
theorem givenTo_of_reaches {b : Block} {s : State} {c : Config} {v : Value}
    (h : Reaches (.running b 0 [] s) c) (hv : c.given? = some v) :
    GivenTo (.running b 0 [] s) v (callers c.outer) c := by
  -- along the run, together with the lines that wait
  have hall := h.invariant
    (P := fun c => Reaches (.running b 0 [] s) c ∧ (∀ w ∈ c.outer, w.pending.Onward) ∧
      ∀ v, c.given? = some v → GivenTo (.running b 0 [] s) v (callers c.outer) c)
    (fun c ⟨hreach, honward, hgiven⟩ => by
      refine ⟨hreach.trans ⟨1, rfl⟩, onward_step c honward, fun v hv => ?_⟩
      obtain ⟨hhere, hcallers, hstep⟩ | ⟨b, index, i, outer, s, rfl, hreturning, hcalls, hstep⟩ :=
        given_of_step honward hv
      · obtain ⟨b, index, i, inner, s, hr, hreturning, hcalls, haround, hleads⟩ := hgiven v hhere
        exact ⟨b, index, i, inner, s, hr, hreturning, hcalls, haround.trans hcallers.symm,
          hleads.trans hstep⟩
      · rw [hstep]
        exact ⟨b, index, i, outer, s, hreach, hreturning, hcalls, rfl, .refl _⟩)
    ⟨.refl _, nofun, nofun⟩
  exact hall.2.2 v hv

/-- Of the root blocks of a run none ends with an escape. -/
theorem callers_ne_of_escaped {start : Block} {s u : State} {outer : List Suspended} {target : Nat}
    (hbase : 0 < s.env.depth) (hstart : start.nested = false)
    (h : Reaches (.running start 0 [] s) (.ended outer (.ok (.escaped target)) u)) :
    callers outer ≠ outer := by
  have hall := h.invariant
    (P := fun c => c.WellNested start s.env.depth ∧
      ∀ outer target u, c = .ended outer (.ok (.escaped target)) u → callers outer ≠ outer)
    (fun c ⟨hn, hc⟩ => by
      refine ⟨Config.WellNested.step hbase c hn, fun outer target u hu => ?_⟩
      have hstep := c.stepsTo
      rw [hu] at hstep
      cases hstep with
      | halted => exact hc [] target u rfl
      | @leaves b index line _ control _ _ hnext =>
        -- the block is nested, so a conditional waits for it
        obtain ⟨hnested, -⟩ := Block.next_escaped hnext
        have hn : Nested start s.env.depth b outer u.env.depth := hn
        generalize u.env.depth = depth at hn
        cases hn with
        | root => exact absurd (hstart.symm.trans hnested) nofun
        | branch => exact callers_ne_of_branch rfl
        | call => cases hnested)
    ⟨Nested.root, nofun⟩
  exact hall.2 outer target u rfl

/-- At every moment of a run the active calls are those of the waiting lines, on top of
those that were active before. -/
theorem callsOver_of_reaches {b : Block} {s : State} {c : Config}
    (h : Reaches (.running b 0 [] s) c) : CallsOver s.calls c.outer c.state :=
  h.invariant (P := fun c => CallsOver s.calls c.outer c.state) CallsOver.step rfl

/-! ### How calls end -/

/-- The call that `w` has made ends with the value `v`, when its body has ended with `o` in
the state `u`: this call is left and no other, and the value is bound if `w` declares one. -/
def Suspended.CallEnds (w : Suspended) (rest : List Suspended) (o : Outcome) (u : State)
    (v : Value) : Prop :=
  ∃ f depth scope target after, w.pending = .call f depth scope target after ∧
    u.calls.calls = ⟨f.label, some w.line⟩ :: (w.pending.close u).calls.calls ∧
    (Config.ended (w :: rest) (.ok o) u).step =
      .answered w.block w.index w.line rest
        (bindResult scope target (v, after) (w.pending.close u)).1
        (bindResult scope target (v, after) (w.pending.close u)).2

/-- The innermost caller gets the value of the body that has ended. -/
theorem callEnds_of_callers {base : CallStack} {w : Suspended} {rest : List Suspended}
    {o : Outcome} {u : State} (h : callers (w :: rest) = w :: rest)
    (hcalls : CallsOver base (w :: rest) u) : w.CallEnds rest o u o.callValue := by
  obtain ⟨f, depth, scope, target, after, hp⟩ := pending_of_callers h
  obtain ⟨block, index, line, pending⟩ := w
  obtain rfl : pending = .call f depth scope target after := hp
  refine ⟨f, depth, scope, target, after, rfl, ?_, rfl⟩
  show u.calls.calls = _ :: u.calls.pop.calls
  rw [hcalls]
  rfl

/-- How the `RET` line `i` at hand ends the innermost active call, in a run of `start`. -/
structure Returns (start : Block) (b : Block) (index : Nat) (i : Instruction)
    (outer : List Suspended) (s : State) (v : Value) : Prop where
  /-- The line is in the body of the function that the innermost caller calls. -/
  root : RootOf start (rootBlock b outer) (callers outer)
  /-- It answers with its value. -/
  step : (Config.running b index outer s).step =
    .answered b index i.line outer (.ok (.leave v)) s.ticked
  /-- No other line begins before the body has ended with this value. -/
  leads : Leads (.answered b index i.line outer (.ok (.leave v)) s.ticked)
    (.ended (callers outer) (.ok (.returned v)) (s.ticked.leaving (nest b outer).dropLast))
  /-- The scopes of the branches around the line are released, and no other. -/
  releases : Releases (nest b outer).dropLast s.ticked
    (s.ticked.leaving (nest b outer).dropLast)
  /-- The innermost call ends with this value. -/
  ends : ∀ w rest, callers outer = w :: rest →
    w.CallEnds rest (.returned v) (s.ticked.leaving (nest b outer).dropLast) v

/-- **Blocks, programs and calls end in their own ways.** A block ends with an escape only
if it is nested, and to a target that it does not hold. A program that is run without
active calls and succeeds has completed its last line or left it by a jump, never by a
return. When a `RET` line with a value is at hand in the body of a function, however many
branches there are around it, then no other line begins before the body has ended, exactly
the innermost active call is left, and the value is the one of this call. A body that ends
in another way, but for an error, gives undefined to its call. -/
theorem return_ends_innermost_call :
    (∀ fuel b index s t target,
      runBlock standardTable fuel b index s = (.ok (.escaped target), t) →
        b.nested = true ∧ (target < b.origin ∨ b.origin + b.code.length < target)) ∧
    (∀ (m m' : Interpreter) fuel p, m.table = standardTable → m.state.calls.calls = [] →
      m.run fuel p = (.ok (), m') →
        runBlock standardTable fuel (.root p.instructions Environment.root) 0 m.state =
          (.ok .completed, m'.state)) ∧
    ∀ (code : List Instruction) (scope : ScopeId) (s₀ : State), s₀.env.isLive scope = true →
      (∀ r u, Reaches (.running (.root code scope) 0 [] s₀) (.ended [] r u) ↔
        ∃ fuel, runBlock standardTable fuel (.root code scope) 0 s₀ = (r, u) ∧
          r ≠ .error .outOfFuel) ∧
      (∀ b index i outer s v,
        Reaches (.running (.root code scope) 0 [] s₀) (.running b index outer s) →
        Returning b index i s v → (callers outer = [] → s₀.calls.calls ≠ []) →
          Returns (.root code scope) b index i outer s v) ∧
      (∀ outer o u, callers outer = outer →
        Reaches (.running (.root code scope) 0 [] s₀) (.ended outer (.ok o) u) →
          ∃ v, (o = .completed ∧ v = .undefined ∨
              o = .returned v ∧
                GivenTo (.running (.root code scope) 0 [] s₀) v outer (.ended outer (.ok o) u)) ∧
            ∀ w rest, outer = w :: rest → w.CallEnds rest o u v) := by
  refine ⟨fun fuel b index s t target h => ?_, fun m m' fuel p htable hcalls hrun => ?_,
    fun code scope s₀ hlive => ?_⟩
  · obtain ⟨hnested, hholds⟩ := runBlock_escaped h
    rw [Block.Holds] at hholds
    exact ⟨hnested, by omega⟩
  · rw [m.run_eq, htable] at hrun
    generalize hblock : runBlock standardTable fuel _ 0 m.state = result at hrun
    obtain ⟨r, u⟩ := result
    obtain ⟨hr, rfl⟩ := Prod.mk.inj hrun
    obtain ⟨o, rfl, -⟩ := map_eq_ok.1 hr
    have hreach := reaches_ended_iff.2 ⟨fuel, hblock, nofun⟩
    cases o with
    | completed => rfl
    | escaped target => exact absurd (runBlock_escaped hblock).1 nofun
    | returned v =>
      -- a value would be that of a line in a call, and no call is active
      obtain ⟨b, index, i, inner, s, hr, -, hactive, haround, -⟩ :=
        givenTo_of_reaches hreach rfl
      refine absurd ?_ hactive
      have hover : CallsOver m.state.calls inner s := callsOver_of_reaches hr
      rw [hover, hcalls, ← filterMap_callers inner, haround]
      rfl
  · have hscope : scope < s₀.env.depth := of_decide_eq_true hlive
    have hbase : 0 < s₀.env.depth := Nat.zero_lt_of_lt hscope
    refine ⟨fun r u => reaches_ended_iff, fun b index i outer s v hreach hreturning hin => ?_,
      fun outer o u hroot hreach => ?_⟩
    · have hn : Nested (.root code scope) s₀.env.depth b outer s.env.depth :=
        hreach.invariant (fun c => Config.WellNested.step hbase c) Nested.root
      have hover : CallsOver s₀.calls outer s := callsOver_of_reaches hreach
      have hactive : s.calls.calls ≠ [] := by
        rw [hover, ← filterMap_callers outer]
        cases hcallers : callers outer with
        | nil => exact hin hcallers
        | cons w rest =>
          obtain ⟨f, depth, scope, target, after, hp⟩ := pending_of_callers hcallers
          have hcall : w.call? = some ⟨f.label, some w.line⟩ := by rw [Suspended.call?, hp]
          rw [List.filterMap_cons_some hcall]
          exact nofun
      refine ⟨hn.rootOf_rootBlock, hreturning.step hactive outer,
        Nested.leave_handed_up (s := s.ticked) hbase index i.line v hn,
        Nested.releases (s := s.ticked) hbase hn (nest_eq_append b outer),
        fun w rest hcallers => ?_⟩
      have hcallersOver : CallsOver s₀.calls (w :: rest)
          (s.ticked.leaving (nest b outer).dropLast) := by
        rw [CallsOver, ← hcallers, filterMap_callers]
        exact hover
      exact callEnds_of_callers (o := .returned v) (hcallers ▸ callers_callers outer)
        hcallersOver
    · cases o with
      | completed =>
        refine ⟨.undefined, .inl ⟨rfl, rfl⟩, ?_⟩
        rintro w rest rfl
        exact callEnds_of_callers hroot (callsOver_of_reaches hreach)
      | escaped target => exact absurd hroot (callers_ne_of_escaped hbase rfl hreach)
      | returned v =>
        refine ⟨v, .inr ⟨rfl, ?_⟩, ?_⟩
        · have hgiven := givenTo_of_reaches hreach rfl
          rwa [show callers (Config.ended outer (.ok (.returned v)) u).outer = outer from hroot]
            at hgiven
        · rintro w rest rfl
          exact callEnds_of_callers hroot (callsOver_of_reaches hreach)

/-- A function that returns in a branch of a branch, with a line left that would print. -/
def returnInBranches : List Instruction :=
  [⟨"FUNC f", 1⟩, ⟨"IF true", 2⟩, ⟨"IF true", 3⟩, ⟨"RET true", 4⟩, ⟨"END", 5⟩, ⟨"END", 6⟩,
    ⟨"STD::OUT", 7⟩, ⟨"END", 8⟩, ⟨"DECLARE r = CALL f", 9⟩]

/-- The function of `returnInBranches`. -/
def returningFunction : Function :=
  ⟨0, some "f", [], [⟨"IF true", 2⟩, ⟨"IF true", 3⟩, ⟨"RET true", 4⟩, ⟨"END", 5⟩, ⟨"END", 6⟩,
    ⟨"STD::OUT", 7⟩]⟩

/-- The line that calls the function of `returnInBranches`. -/
def returningCaller : Suspended :=
  ⟨.root returnInBranches 0, 8, 9, .call returningFunction 1 0 (some ⟨['r'], false⟩) .next⟩

/-- The outer branch of the function, and the line around it. -/
def returningOuter : Level :=
  ⟨(Block.root returningFunction.body 1).branch 1 4 2,
    [⟨.root returningFunction.body 1, 0, 2, .branch 2 5⟩, returningCaller]⟩

/-- The inner branch of the function, and the lines around it. -/
def returningInner : Level :=
  ⟨returningOuter.block.branch 1 2 3,
    ⟨returningOuter.block, 0, 3, .branch 3 4⟩ :: returningOuter.outer⟩

/-- The state in which the `RET` of `returnInBranches` is at hand. -/
def returningState : State where
  env := ⟨#[⟨[("f", ⟨.function returningFunction, false⟩), ("std", ⟨.std 0, true⟩)], none⟩,
    ⟨[], some 0⟩, ⟨[], some 1⟩, ⟨[], some 2⟩]⟩
  calls := ⟨[⟨"f", some 9⟩], 10⟩
  sink := .buffer #[]
  clock := ⟨#[], 4⟩
  nextId := 1

/-- A branch that jumps out of itself. -/
def escapingBranch : Block :=
  ⟨[⟨"JUMP +5", 4⟩], Environment.root, 3, true⟩

/-- The branch `escapingBranch` ends with an escape to a position behind it. The program
`returnInBranches` is completed. Its `RET` ends the call of line 9 from two branches deep,
nothing is printed, and the name `r` gets the value. -/
theorem returnInBranches_ends_call :
    (∃ t, runBlock standardTable 2 escapingBranch 0 (Interpreter.initialState 10 .silent) =
        (.ok (.escaped 9), t) ∧ escapingBranch.nested = true) ∧
    (∃ m, (Interpreter.new 10 .silent []).run 20 ⟨returnInBranches⟩ = (.ok (), m) ∧
      runBlock standardTable 20 (.root returnInBranches Environment.root) 0
        (Interpreter.initialState 10 .silent) = (.ok .completed, m.state)) ∧
    Reaches (.running (.root returnInBranches Environment.root) 0 []
      (Interpreter.initialState 10 (.buffer #[])))
      (.running returningInner.block 0 returningInner.outer returningState) ∧
    Returning returningInner.block 0 ⟨"RET true", 4⟩ returningState (.boolean true) ∧
    ∃ u t,
      Leads (.answered returningInner.block 0 4 returningInner.outer
          (.ok (.leave (.boolean true))) returningState.ticked)
        (.ended [returningCaller] (.ok (.returned (.boolean true))) u) ∧
      (Config.ended [returningCaller] (.ok (.returned (.boolean true))) u).step =
        .answered (.root returnInBranches 0) 8 9 [] (.ok .next) t ∧
      t.calls.calls = [] ∧ t.lookup Environment.root "r" = some (.boolean true) ∧
      t.sink.lines = [] := by
  obtain ⟨hescapes, hprograms, hcalls⟩ := return_ends_innermost_call
  have hescaped : (runBlock standardTable 2 escapingBranch 0
      (Interpreter.initialState 10 .silent)).1 = .ok (.escaped 9) := rfl
  have hrun : ((Interpreter.new 10 .silent []).run 20 ⟨returnInBranches⟩).1 = .ok () := rfl
  have hreach : Reaches (.running (.root returnInBranches Environment.root) 0 []
      (Interpreter.initialState 10 (.buffer #[])))
      (.running returningInner.block 0 returningInner.outer returningState) := ⟨5, rfl⟩
  have hreturning : Returning returningInner.block 0 ⟨"RET true", 4⟩ returningState
      (.boolean true) := ⟨rfl, rfl, rfl⟩
  obtain ⟨-, hreturns, -⟩ := hcalls returnInBranches Environment.root
    (Interpreter.initialState 10 (.buffer #[])) rfl
  have hends := hreturns _ _ _ _ _ _ hreach hreturning nofun
  obtain ⟨_, _, _, _, _, hp, -, hstep⟩ := hends.ends returningCaller [] rfl
  obtain ⟨rfl, rfl, rfl, rfl, rfl⟩ := Pending.call.inj hp
  exact ⟨⟨_, Prod.ext hescaped rfl, (hescapes 2 _ 0 _ _ 9 (Prod.ext hescaped rfl)).1⟩,
    ⟨_, Prod.ext hrun rfl, hprograms (.new 10 .silent []) _ 20 _ rfl rfl (Prod.ext hrun rfl)⟩,
    hreach, hreturning, _, _, hends.leads, hstep, rfl, rfl, rfl⟩

end LineScript
