import LineScript.Proofs.Machine.Backtraces
import LineScript.Proofs.Machine.Scopes

/-!
# Lines that fail

A line checks everything before it changes anything: it writes, prints or waits only when
nothing can fail any more. A line that makes a call is different, since the call may have
done things before it fails, or before its value is refused. The lines around a failing
one only release frames.

- `Remains`: what is left of a state, with frames released.
- `Exec.Still`, `Exec.FailsStill`: computations that change nothing, or nothing when they fail.
- `failsStill_beginLine`: a line that makes no call changes nothing when it fails.
- `Config.remains_step`: from an error on, frames are released and nothing else happens.
- `FailsAt`, `remains_of_failed`: what is left after a run that fails.
-/

namespace LineScript

/-! ### What is left of a state -/

/-- What is left of a state: its output, its waits, and the bindings of the frames that
are still live. -/
structure Remains (s u : State) : Prop where
  depth : u.env.depth ≤ s.env.depth
  bindings : ∀ scope < u.env.depth, u.env.bindings scope = s.env.bindings scope
  sink : u.sink = s.sink
  waits : u.clock.waits = s.clock.waits

namespace Remains

variable {s t u : State}

theorem refl (s : State) : Remains s s :=
  ⟨Nat.le_refl _, fun _ _ => rfl, rfl, rfl⟩

theorem trans (h : Remains s t) (h' : Remains t u) : Remains s u where
  depth := Nat.le_trans h'.depth h.depth
  bindings scope hscope :=
    (h'.bindings scope hscope).trans (h.bindings scope (Nat.lt_of_lt_of_le hscope h'.depth))
  sink := h'.sink.trans h.sink
  waits := h'.waits.trans h.waits

/-- Releasing the frames of a block leaves the others as they are. -/
theorem close (p : Pending) (s : State) : Remains s (p.close s) := by
  have hrelease : ∀ (d : Nat) (calls : CallStack),
      Remains s { s with env := s.env.release d, calls } := by
    refine fun d calls => ⟨?_, fun scope hscope => ?_, rfl, rfl⟩
    · rw [Environment.depth_release]
      exact Nat.min_le_right _ _
    · rw [Environment.depth_release] at hscope
      exact Environment.bindings_release s.env (Nat.lt_of_lt_of_le hscope (Nat.min_le_left _ _))
  cases p with
  | branch depth endTarget => exact hrelease depth s.calls
  | call f depth scope target after => exact hrelease depth s.calls.pop

end Remains

/-! ### Computations that change nothing -/

namespace Exec

variable {α β : Type} {x : Exec α} {f : α → Exec β}

/-- The computation leaves bindings, output and waits as they are. -/
def Still (x : Exec α) : Prop :=
  ∀ s, Remains s (x s).2

/-- When the computation fails, it leaves bindings, output and waits as they are. -/
def FailsStill (x : Exec α) : Prop :=
  ∀ s t e, x s = (.error e, t) → Remains s t

/-- The computation gives a value from every state. -/
def Total (x : Exec α) : Prop :=
  ∀ s, ∃ a t, x s = (.ok a, t)

theorem Still.pure (a : α) : Still (Pure.pure a : Exec α) :=
  .refl

theorem Still.fail (c : Cause) : Still (fail c : Exec α) :=
  .refl

theorem Still.bind (hx : Still x) (hf : ∀ a, Still (f a)) : Still (x >>= f) := by
  intro s
  have hs := hx s
  rw [bind_apply]
  generalize x s = result at hs ⊢
  obtain ⟨r, t⟩ := result
  cases r with
  | error e => exact hs
  | ok a => exact hs.trans (hf a t)

theorem Still.ofExcept (r : Except Cause α) : Still (ofExcept r) := by
  cases r with
  | ok a => exact .pure a
  | error c => exact .fail c

theorem Still.ofOption (c : Cause) (o : Option α) : Still (ofOption c o) := by
  cases o with
  | some a => exact .pure a
  | none => exact .fail c

theorem still_get : Still get :=
  .refl

theorem still_tick : Still tick :=
  fun _ => ⟨Nat.le_refl _, fun _ _ => rfl, rfl, rfl⟩

theorem still_freshId : Still freshId :=
  fun _ => ⟨Nat.le_refl _, fun _ _ => rfl, rfl, rfl⟩

theorem still_evaluate (scope : ScopeId) (text : String) : Still (evaluate scope text) :=
  fun s => Still.ofExcept (Expr.evaluate (s.lookup scope) text) s

theorem total_pure (a : α) : Total (pure a : Exec α) :=
  fun s => ⟨a, s, rfl⟩

theorem total_modify (f : State → State) : Total (modify f) :=
  fun s => ⟨(), f s, rfl⟩

theorem Total.bind (hx : Total x) (hf : ∀ a, Total (f a)) : Total (x >>= f) := by
  intro s
  obtain ⟨a, t, hx⟩ := hx s
  rw [bind_of_ok hx]
  exact hf a t

theorem Still.failsStill (h : Still x) : FailsStill x := by
  intro s t e hx
  have hs := h s
  rwa [hx] at hs

/-- What always gives a value never fails. -/
theorem Total.failsStill (h : Total x) : FailsStill x := by
  intro s t e hx
  obtain ⟨a, u, hok⟩ := h s
  cases hok.symm.trans hx

theorem FailsStill.fail (c : Cause) : FailsStill (fail c : Exec α) :=
  (Still.fail c).failsStill

theorem FailsStill.pure (a : α) : FailsStill (Pure.pure a : Exec α) :=
  (Still.pure a).failsStill

/-- As long as nothing has changed, a failure leaves things as they were. -/
theorem Still.bind_failsStill (hx : Still x) (hf : ∀ a, FailsStill (f a)) :
    FailsStill (x >>= f) := by
  intro s u e h
  have hs := hx s
  rw [bind_apply] at h
  generalize x s = result at hs h
  obtain ⟨r, t⟩ := result
  cases r with
  | error e' =>
    obtain ⟨-, rfl⟩ := Prod.mk.inj h
    exact hs
  | ok a => exact hs.trans (hf a t u e h)

/-- When nothing can fail any more, everything may change. -/
theorem FailsStill.bind_total (hx : FailsStill x) (hf : ∀ a, Total (f a)) :
    FailsStill (x >>= f) := by
  intro s u e h
  cases hs : x s with
  | mk r t =>
    cases r with
    | error e' =>
      rw [bind_of_error hs] at h
      obtain ⟨-, rfl⟩ := Prod.mk.inj h
      exact hx s t e' hs
    | ok a =>
      rw [bind_of_ok hs] at h
      obtain ⟨b, v, hok⟩ := hf a t
      cases hok.symm.trans h

end Exec

open Exec

/-! ### The first part of a line -/

section

variable (inv : Invocation)

theorem failsStill_bindTarget (scope : ScopeId) (target : Target) (v : Value) :
    FailsStill (bindTarget scope target v) := by
  rw [bindTarget]
  split
  · exact .fail _
  · exact (total_modify _).failsStill

/-- A function is made and bound when its body has been found. -/
theorem failsStill_defineFunction (header : List Char) :
    FailsStill (defineFunction inv header) := by
  rw [defineFunction]
  split
  · exact .fail _
  · have hbody : Still (bodyFrom inv.block (inv.index + 1)) :=
      .bind (.ofOption _ _) fun _ => .pure _
    refine hbody.bind_failsStill fun body => still_freshId.bind_failsStill fun id => ?_
    dsimp only
    split
    · exact ((total_modify _).bind fun _ => total_pure _).failsStill
    · exact .pure _

/-- A declaration whose value is no call binds it when it is known and fits. -/
theorem failsStill_beginDeclare
    (hcall : stripKeyword? (splitDeclaration inv.operand.toList).2 callKeyword = none) :
    FailsStill (beginDeclare inv) := by
  simp only [beginDeclare, hcall]
  split
  · exact .fail _
  · split
    · exact (failsStill_bindTarget _ _ _).bind_total fun _ => total_pure _
    · exact (still_evaluate _ _).bind_failsStill fun v =>
        (failsStill_bindTarget _ _ _).bind_total fun _ => total_pure _

/-- An assignment writes when its variable and its value are known. -/
theorem failsStill_runAssign : FailsStill (Builtin.runAssign inv) := by
  simp only [Builtin.runAssign]
  split
  · exact .fail _
  · refine still_get.bind_failsStill fun s => ?_
    split
    · exact .fail _
    · split
      · exact .fail _
      · exact (still_evaluate _ _).bind_failsStill fun v =>
          ((total_modify _).bind fun _ => total_pure _).failsStill

theorem still_runJump : Still (Builtin.runJump inv) :=
  Builtin.runJump_of (fun _ => .pure _) (fun _ => .fail _) (.pure _)
    fun _ hf => (still_evaluate _ _).bind hf

/-- A wait begins when its length is known to be a number. -/
theorem failsStill_runWait : FailsStill (Builtin.runWait inv) := by
  refine (still_evaluate _ _).bind_failsStill fun v => ?_
  split
  · exact ((total_modify _).bind fun _ => total_pure _).failsStill
  · exact .fail _

/-- A branch is entered when the condition and the layout are known. -/
theorem failsStill_beginConditional : FailsStill (beginConditional inv) := by
  refine (still_evaluate _ _).bind_failsStill fun condition =>
    (Still.ofOption _ _).bind_failsStill fun layout => ?_
  dsimp only
  split
  · exact .pure _
  · exact Total.failsStill fun s => ⟨_, _, rfl⟩

theorem failsStill_runOutput : FailsStill (Builtin.runOutput inv) := by
  have hprint : ∀ v : Value, Total (do emit v; return Control.next) :=
    fun v => (total_modify _).bind fun _ => total_pure _
  simp only [Builtin.runOutput]
  split
  · exact (Still.pure _).bind_failsStill fun v => (hprint v).failsStill
  · exact (still_evaluate _ _).bind_failsStill fun v => (hprint v).failsStill

theorem still_runLeave : Still (Builtin.runLeave inv) := by
  refine still_get.bind fun s => ?_
  split
  · exact .fail _
  · split
    · exact .pure _
    · exact (still_evaluate _ _).bind fun _ => .pure _

end

section

variable {b : Block} {index : Nat} {i : Instruction}

/-- A keyword that makes no call changes nothing when it fails. -/
theorem Builtin.failsStill_begin {k : Builtin} (hk : (i.keyword, k) ∈ Builtin.words)
    (hcall : i.callOperand? = none) : FailsStill (k.begin ⟨b, index, i.operand, i.line⟩) := by
  have hword := Builtin.eq_word hk
  have hfinished : ∀ {x : Exec Control}, FailsStill x →
      FailsStill (do return Entry.finished (← x)) :=
    fun hx => hx.bind_total fun _ => total_pure _
  cases k with
  | declare =>
    rw [Instruction.callOperand?_declare hword, ← Instruction.toList_operand] at hcall
    rw [Builtin.begin]
    exact failsStill_beginDeclare ⟨b, index, i.operand, i.line⟩ hcall
  | assign => exact hfinished (failsStill_runAssign _)
  | jump => exact hfinished (still_runJump _).failsStill
  | wait => exact hfinished (failsStill_runWait _)
  | conditional => exact failsStill_beginConditional _
  | ignore => exact .pure _
  | output => exact hfinished (failsStill_runOutput _)
  | function =>
    exact hfinished ((failsStill_defineFunction _ _).bind_total fun _ => total_pure _)
  | call =>
    rw [Instruction.callOperand?, if_pos (show i.keyword = callKeyword from hword)] at hcall
    cases hcall
  | leave => exact hfinished (still_runLeave _).failsStill

/-- **A line that makes no call checks before it changes anything.** When its first part
fails, bindings, output and waits are as they were before the line. -/
theorem failsStill_beginLine (hcall : i.callOperand? = none) :
    FailsStill (beginLine standardTable b index i) := by
  rw [beginLine]
  cases h : standardTable.find? i.keyword with
  | none => exact .fail _
  | some handler =>
    obtain ⟨k, hk, rfl⟩ := find?_standardTable.1 h
    exact still_tick.bind_failsStill fun _ => Builtin.failsStill_begin hk hcall

end

/-! ### From the error to the end of the run -/

/-- A line that makes no call can raise an error only where it begins: what it does when its
branch has ended cannot fail. -/
theorem begun_of_raised {c : Config} (hstands : ∀ w ∈ c.outer, w.Stands) (hc : c.failed? = none)
    {b : Block} {index : Nat} {i : Instruction} {outer : List Suspended} {e : Error} {t : State}
    (hi : b.code[index]? = some i) (hcall : i.callOperand? = none)
    (hstep : c.step = .answered b index i.line outer (.error (.failed e)) t) :
    ∃ s, c = .running b index outer s ∧
      beginLine standardTable b index i s = (.error (.failed e), t) := by
  cases c with
  | running b' index' outer' s =>
    cases hi' : b'.code[index']? with
    | none =>
      simp only [Config.step, hi'] at hstep
      cases hstep
    | some j =>
      rw [Config.step_running hi'] at hstep
      cases hbegun : beginLine standardTable b' index' j s with
      | mk r u =>
        rw [hbegun] at hstep
        rcases r with stop | ⟨control⟩ | ⟨inner, pending⟩
        · obtain ⟨rfl, rfl, -, rfl, hstop, rfl⟩ := Config.answered.inj hstep
          obtain rfl := Except.error.inj hstop
          obtain rfl := Option.some.inj (hi.symm.trans hi')
          exact ⟨s, rfl, hbegun⟩
        · obtain ⟨-, -, -, -, hok, -⟩ := Config.answered.inj hstep
          cases hok
        · cases hstep
  | answered b' index' line outer' r s =>
    cases r with
    | error e' => cases hstep
    | ok control =>
      simp only [Config.step] at hstep
      cases hnext : b'.next index' control with
      | inl next =>
        rw [hnext] at hstep
        cases hstep
      | inr outcome =>
        rw [hnext] at hstep
        cases hstep
  | ended outer' r s =>
    cases outer' with
    | nil => cases hstep
    | cons w outer' =>
      obtain ⟨rfl, rfl, -, -, hanswer, -⟩ := Config.answered.inj hstep
      obtain ⟨j, hj, -, hsuits⟩ := hstands w List.mem_cons_self
      obtain rfl := Option.some.inj (hi.symm.trans hj)
      cases hp : w.pending with
      | call f depth scope target after =>
        -- only a line that makes a call waits for one
        rw [hp] at hsuits
        obtain ⟨operand, hoperand⟩ := hsuits
        cases hcall.symm.trans hoperand
      | branch depth endTarget =>
        rw [hp] at hanswer
        cases r with
        | ok outcome => cases hanswer
        | error stop =>
          obtain rfl : stop = .failed e := Except.error.inj hanswer
          cases hc

/-- From an error on, frames are released and nothing else happens. -/
theorem Config.remains_step {c : Config} {e : Error} (h : c.failed? = some e) :
    Remains c.state c.step.state := by
  obtain ⟨b, index, line, outer, s, rfl⟩ | ⟨outer, s, rfl⟩ := failed?_eq_some h
  · exact .refl s
  · cases outer with
    | nil => exact .refl s
    | cons w outer =>
      obtain ⟨e', -, hresume⟩ := w.pending.resume_failed e s
      rw [Config.step, hresume]
      exact .close w.pending s

/-- What is left of a state with an error at any later moment. -/
theorem remains_of_reaches {c d : Config} {e : Error} (h : c.failed? = some e)
    (hreach : Reaches c d) : Remains c.state d.state := by
  refine (hreach.invariant (P := fun d => (∃ e, d.failed? = some e) ∧ Remains c.state d.state) ?_
    ⟨⟨e, h⟩, .refl _⟩).2
  rintro d ⟨⟨e, he⟩, hd⟩
  obtain ⟨e', -, he'⟩ := failed?_step he
  exact ⟨⟨e', he'⟩, hd.trans (Config.remains_step he)⟩

/-! ### Runs that fail -/

/-- The line at hand at a moment, when it begins or is over. -/
def Config.line? : Config → Option Instruction
  | running b index _ _ | answered b index _ _ _ _ => b.code[index]?
  | ended _ _ _ => none

/-- Where a run first has an error: after `n` steps the line `i`, in a block at a position,
answers with an error of its own, while the lines `outer` wait. No line inside of it has
failed. -/
structure FailsAt (start : Config) (n : Nat) (b : Block) (index : Nat) (i : Instruction)
    (outer : List Suspended) : Prop where
  first : ∀ k ≤ n, (start.after k).failed? = none
  line : b.code[index]? = some i
  answers : ∃ cause t,
    start.after (n + 1) = .answered b index i.line outer (.error (.failed (.ofCause cause))) t

namespace FailsAt

variable {start : Config} {n m : Nat} {b : Block} {index : Nat} {i : Instruction}
  {outer : List Suspended}

theorem failed?_ne_none (h : FailsAt start n b index i outer) :
    (start.after (n + 1)).failed? ≠ none := by
  obtain ⟨cause, t, hanswers⟩ := h.answers
  rw [hanswers]
  exact nofun

/-- The line is the one at hand when there is an error for the first time. -/
theorem line?_eq (h : FailsAt start n b index i outer) :
    (start.after (n + 1)).line? = some i := by
  obtain ⟨cause, t, hanswers⟩ := h.answers
  rw [hanswers]
  exact h.line

/-- There is only one moment at which a run first fails. -/
theorem eq_of_first (h : FailsAt start n b index i outer)
    (hfirst : ∀ k ≤ m, (start.after k).failed? = none)
    (hfails : (start.after (m + 1)).failed? ≠ none) : n = m := by
  rcases Nat.lt_trichotomy n m with hlt | heq | hlt
  · exact absurd (hfirst (n + 1) hlt) h.failed?_ne_none
  · exact heq
  · exact absurd (h.first (m + 1) hlt) hfails

end FailsAt

/-- A run that ends with an error has a line that fails. -/
theorem exists_failsAt {b : Block} {s u : State} {e : Error}
    (hend : Reaches (.running b 0 [] s) (.ended [] (.error (.failed e)) u)) :
    ∃ n b' index i outer, FailsAt (.running b 0 [] s) n b' index i outer := by
  obtain ⟨N, hN⟩ := hend
  have hfails : ((Config.running b 0 [] s).after N).failed? ≠ none := by
    rw [hN]
    exact nofun
  obtain ⟨n, -, hfirst, hraises⟩ := first_failed rfl hfails
  obtain ⟨e', he'⟩ := Option.ne_none_iff_exists'.1 hraises
  rw [Config.after_add n 1] at he'
  obtain ⟨b', index, i, outer, cause, t, hi, hstep⟩ :=
    raised_of_step (stands_of_reaches ⟨n, rfl⟩) (hfirst n (Nat.le_refl n)) he'
  exact ⟨n, b', index, i, outer, hfirst, hi, cause, t,
    (Config.after_add n 1 _).trans hstep⟩

/-- What is left when the run has ended is what was there before the failing line, if that
line makes no call. -/
theorem FailsAt.remains {b b' : Block} {s u : State} {e : Error} {n index : Nat}
    {i : Instruction} {outer : List Suspended}
    (h : FailsAt (.running b 0 [] s) n b' index i outer) (hcall : i.callOperand? = none)
    (hend : Reaches (.running b 0 [] s) (.ended [] (.error (.failed e)) u)) :
    ∃ t, (Config.running b 0 [] s).after n = .running b' index outer t ∧ Remains t u := by
  obtain ⟨cause, t', hanswers⟩ := h.answers
  obtain ⟨t, hrunning, hbegun⟩ := begun_of_raised (stands_of_reaches ⟨n, rfl⟩)
    (h.first n (Nat.le_refl n)) h.line hcall ((Config.after_add n 1 _).symm.trans hanswers)
  have hline : Remains t t' := failsStill_beginLine hcall t t' _ hbegun
  have hrest : Reaches ((Config.running b 0 [] s).after (n + 1))
      (.ended [] (.error (.failed e)) u) := Reaches.to_ended ⟨n + 1, rfl⟩ hend
  rw [hanswers] at hrest
  exact ⟨t, hrunning, hline.trans (remains_of_reaches rfl hrest)⟩

/-- **A failing line has no effect of its own.** When a run fails, one line is the first to
fail, the innermost of those that fail. If it is neither a call nor the declaration of the
value of a call, then after the run the output, the waits and the bindings of all frames
that are still there are those of the moment right before that line. -/
theorem run_fails_without_effect {fuel : Nat} {b : Block} {s u : State} {e : Error}
    (hrun : runBlock standardTable fuel b 0 s = (.error (.failed e), u)) :
    ∃ n b' index i outer, FailsAt (.running b 0 [] s) n b' index i outer ∧
      (i.callOperand? = none →
        ∃ t, (Config.running b 0 [] s).after n = .running b' index outer t ∧ Remains t u) := by
  have hend := reaches_ended_iff.2 ⟨fuel, hrun, nofun⟩
  obtain ⟨n, b', index, i, outer, hfails⟩ := exists_failsAt hend
  exact ⟨n, b', index, i, outer, hfails, fun hcall => hfails.remains hcall hend⟩

/-- A function that prints and assigns to `x`, and then fails in a branch. -/
def failingBranch : List Instruction :=
  [⟨"DECLARE x = true", 1⟩, ⟨"FUNC f", 2⟩, ⟨"STD::OUT x", 3⟩, ⟨"ASSIGN x = false", 4⟩,
    ⟨"IF true", 5⟩, ⟨"ASSIGN y = x", 6⟩, ⟨"END", 7⟩, ⟨"END", 8⟩, ⟨"CALL f", 9⟩]

/-- The run of `failingBranch` fails at the line that assigns to `y`, which makes no call. The
line that was printed and the value of `x` are left, and no more. -/
theorem failingBranch_remains :
    ∃ n b index i outer t u,
      runBlock standardTable 30 (.root failingBranch Environment.root) 0
        (Interpreter.initialState 10 (.buffer #[])) =
          (.error (.failed ⟨.undefinedVariable "y", some 6, some [⟨"f", some 9⟩]⟩), u) ∧
      FailsAt (.running (.root failingBranch Environment.root) 0 []
        (Interpreter.initialState 10 (.buffer #[]))) n b index i outer ∧
      i = ⟨"ASSIGN y = x", 6⟩ ∧ i.callOperand? = none ∧
      (Config.running (.root failingBranch Environment.root) 0 []
        (Interpreter.initialState 10 (.buffer #[]))).after n = .running b index outer t ∧
      Remains t u ∧ u.sink.lines = ["true"] ∧
      u.lookup Environment.root "x" = some (.boolean false) := by
  have herror : (runBlock standardTable 30 (.root failingBranch Environment.root) 0
      (Interpreter.initialState 10 (.buffer #[]))).1 =
        .error (.failed ⟨.undefinedVariable "y", some 6, some [⟨"f", some 9⟩]⟩) := by
    decide +kernel
  have hlines : (runBlock standardTable 30 (.root failingBranch Environment.root) 0
      (Interpreter.initialState 10 (.buffer #[]))).2.sink.lines = ["true"] := by
    decide +kernel
  have hx : (runBlock standardTable 30 (.root failingBranch Environment.root) 0
      (Interpreter.initialState 10 (.buffer #[]))).2.lookup Environment.root "x" =
        some (.boolean false) := by
    decide +kernel
  generalize hrun : runBlock standardTable 30 (.root failingBranch Environment.root) 0
    (Interpreter.initialState 10 (.buffer #[])) = result at herror hlines hx
  obtain ⟨r, u⟩ := result
  obtain rfl : r = _ := herror
  obtain ⟨n, b, index, i, outer, hfails, hremains⟩ := run_fails_without_effect hrun
  -- the line that assigns to `y` is the first one that fails
  have hfirst : ∀ k ≤ 10, ((Config.running (.root failingBranch Environment.root) 0 []
      (Interpreter.initialState 10 (.buffer #[]))).after k).failed? = none := by
    decide +kernel
  have hraises : ((Config.running (.root failingBranch Environment.root) 0 []
      (Interpreter.initialState 10 (.buffer #[]))).after 11).failed? ≠ none := by
    decide +kernel
  have hi : ((Config.running (.root failingBranch Environment.root) 0 []
      (Interpreter.initialState 10 (.buffer #[]))).after 11).line? =
        some ⟨"ASSIGN y = x", 6⟩ := by
    decide +kernel
  obtain rfl := hfails.eq_of_first hfirst hraises
  obtain rfl := Option.some.inj (hfails.line?_eq.symm.trans hi)
  have hcall : Instruction.callOperand? ⟨"ASSIGN y = x", 6⟩ = none := by decide +kernel
  obtain ⟨t, hrunning, ht⟩ := hremains hcall
  exact ⟨10, b, index, _, outer, t, u, rfl, hfails, rfl, hcall, hrunning, ht, hlines, hx⟩

end LineScript
