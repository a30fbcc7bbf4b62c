import LineScript.Proofs.Machine.Steps

/-!
# Where the output goes

A machine sends its sink what it prints and how long it waits, and never looks at what
the sink makes of that. So a run is the same whatever the sink is, and each sink ends
with what it receives.

- `Sent`, `Sink.receive`: what is sent, and a sink that has received it.
- `Exec.Mute`: a computation that sends nothing; `Builtin.mute_begin`: most keywords.
- `Exec.Blind`: a computation that sends the same to every sink, and is otherwise the same.
- `blind_beginLine`, `Entry.blind_complete`: the two parts of a line.
- `blind_runBlock`: every run of a block is blind.
- `Interpreter.run_receives`, `run_regardless_of_sink`: what this says about programs.
-/

namespace LineScript

/-! ### What is sent -/

/-- What a machine sends to its sink. -/
inductive Sent where
  | printed (v : Value)
  | waited (nanoseconds : Nat)

/-- The values that are printed, in order. -/
def Sent.values (sent : List Sent) : List Value :=
  sent.filterMap fun
    | printed v => some v
    | waited _ => none

namespace Sink

/-- The sink after it was sent something. -/
def accept (sink : Sink) : Sent → Sink
  | .printed v => sink.emit v
  | .waited nanoseconds => sink.pause nanoseconds

/-- The sink after it was sent all this, in order. -/
def receive (sink : Sink) (sent : List Sent) : Sink :=
  sent.foldl accept sink

theorem receive_append (sink : Sink) (sent sent' : List Sent) :
    sink.receive (sent ++ sent') = (sink.receive sent).receive sent' :=
  List.foldl_append

/-- A buffer keeps the texts of the values that are printed. -/
theorem lines_receive (ls : Array String) (sent : List Sent) :
    ((buffer ls).receive sent).lines = ls.toList ++ (Sent.values sent).map Value.text := by
  induction sent generalizing ls with
  | nil => exact (List.append_nil _).symm
  | cons sent rest ih =>
    cases sent with
    | printed v =>
      refine (ih (ls.push v.text)).trans ?_
      rw [Array.toList_push, List.append_assoc]
      rfl
    | waited nanoseconds => exact ih ls

/-- A host receives the values that are printed. -/
theorem values_receive (vs : Array Value) (sent : List Sent) :
    ((forward vs).receive sent).values = vs.toList ++ Sent.values sent := by
  induction sent generalizing vs with
  | nil => exact (List.append_nil _).symm
  | cons sent rest ih =>
    cases sent with
    | printed v =>
      refine (ih (vs.push v)).trans ?_
      rw [Array.toList_push, List.append_assoc]
      rfl
    | waited nanoseconds => exact ih vs

end Sink

/-- The state with another sink. -/
def State.withSink (s : State) (sink : Sink) : State :=
  { s with sink }

/-- The interpreter with another sink. -/
def Interpreter.withSink (m : Interpreter) (sink : Sink) : Interpreter :=
  { m with state := m.state.withSink sink }

/-! ### Computations that send nothing -/

namespace Exec

variable {α β : Type} {x : Exec α}

/-- The computation does not look at its sink and sends nothing to it. -/
def Mute (x : Exec α) : Prop :=
  ∀ (s : State) (sink : Sink), x (s.withSink sink) = ((x s).1, (x s).2.withSink sink)

/-- The sink stays as it is. -/
theorem Mute.sink_eq (hx : Mute x) (s : State) : (x s).2.sink = s.sink :=
  congrArg (fun result : Except Stop α × State => result.2.sink) (hx s s.sink)

theorem Mute.pure (a : α) : Mute (Pure.pure a : Exec α) :=
  fun _ _ => rfl

theorem Mute.fail (c : Cause) : Mute (fail c : Exec α) :=
  fun _ _ => rfl

theorem Mute.bind {f : α → Exec β} (hx : Mute x) (hf : ∀ a, Mute (f a)) : Mute (x >>= f) := by
  intro s sink
  rw [bind_apply, bind_apply, hx s sink]
  cases x s with
  | mk r t =>
    cases r with
    | error e => rfl
    | ok a => exact hf a t sink

/-- A computation that looks at the state may not look at its sink. -/
theorem Mute.of_get {f : State → Exec α} (hsame : ∀ s sink, f (s.withSink sink) = f s)
    (hf : ∀ s, Mute (f s)) : Mute (get >>= f) := by
  intro s sink
  rw [bind_apply, bind_apply]
  dsimp only [get]
  rw [hsame, hf s s sink]

/-- A change of the state that leaves the sink as it is. -/
theorem Mute.modify {f : State → State}
    (hf : ∀ s sink, f (s.withSink sink) = (f s).withSink sink) : Mute (modify f) :=
  fun s sink => congrArg (Prod.mk _) (hf s sink)

theorem Mute.ofExcept (r : Except Cause α) : Mute (ofExcept r) := by
  cases r with
  | ok a => exact .pure a
  | error c => exact .fail c

theorem Mute.ofOption (c : Cause) (o : Option α) : Mute (ofOption c o) := by
  cases o with
  | some a => exact .pure a
  | none => exact .fail c

theorem mute_evaluate (scope : ScopeId) (text : String) : Mute (evaluate scope text) :=
  .of_get (fun _ _ => rfl) fun s => .ofExcept (Expr.evaluate (s.lookup scope) text)

theorem mute_declare (scope : ScopeId) (id : String) (b : Binding) : Mute (declare scope id b) :=
  .modify fun _ _ => rfl

theorem mute_tick : Mute tick :=
  .modify fun _ _ => rfl

theorem mute_freshId : Mute freshId :=
  fun _ _ => rfl

end Exec

open Exec

/-! ### Lines that send nothing -/

section

variable (inv : Invocation)

theorem mute_bindTarget (scope : ScopeId) (target : Target) (v : Value) :
    Mute (bindTarget scope target v) := by
  rw [bindTarget]
  split
  · exact .fail _
  · exact mute_declare _ _ _

theorem mute_bindResult (scope : ScopeId) (target : Option Target) (result : Value × Control) :
    Mute (bindResult scope target result) := by
  cases target with
  | none => exact .pure _
  | some target => exact .bind (mute_bindTarget _ _ _) fun _ => .pure _

theorem mute_defineFunction (header : List Char) : Mute (defineFunction inv header) := by
  rw [defineFunction]
  split
  · exact .fail _
  · refine .bind (.bind (.ofOption _ _) fun _ => .pure _) fun body =>
      .bind mute_freshId fun id => ?_
    dsimp only
    split
    · exact .bind (mute_declare _ _ _) fun _ => .pure _
    · exact .pure _

theorem mute_lookupFunction (scope : ScopeId) (name : String) :
    Mute (lookupFunction scope name) := by
  refine .of_get (fun _ _ => rfl) fun s => ?_
  split
  · exact .fail _
  · exact .pure _
  · exact .fail _

theorem mute_resolveCallee (callee : List Char) : Mute (resolveCallee inv callee) := by
  rw [resolveCallee]
  split
  · exact .bind (mute_defineFunction inv _) fun _ => .pure _
  · exact .bind (mute_lookupFunction _ _) fun _ => .pure _

theorem mute_argumentValues (caller : ScopeId) (params args : List String) :
    Mute (argumentValues caller params args) := by
  induction params generalizing args with
  | nil => exact .pure _
  | cons param params ih =>
    cases args with
    | nil => exact .bind (ih []) fun _ => .pure _
    | cons arg args =>
      exact .bind (mute_evaluate _ _) fun _ => .bind (ih args) fun _ => .pure _

theorem mute_enterCall (f : Function) (values : List Value) (target : Option Target)
    (after : Control) : Mute (enterCall inv f values target after) := by
  intro s sink
  have hcalls : (s.withSink sink).calls = s.calls := rfl
  rw [enterCall, enterCall, hcalls]
  cases s.calls.push ⟨f.label, some inv.line⟩ with
  | error cause => rfl
  | ok calls => rfl

theorem mute_beginCall (operand : List Char) (target : Option Target) :
    Mute (beginCall inv operand target) := by
  refine .bind (.ofExcept _) fun callees => ?_
  cases callees with
  | nil => exact .fail _
  | cons callee args =>
    exact .bind (mute_resolveCallee inv callee) fun _ =>
      .bind (mute_argumentValues _ _ _) fun _ => mute_enterCall inv _ _ _ _

theorem mute_beginDeclare : Mute (beginDeclare inv) := by
  simp only [beginDeclare]
  split
  · exact .fail _
  · split
    · exact .bind (mute_bindTarget _ _ _) fun _ => .pure _
    · split
      · exact mute_beginCall inv _ _
      · exact .bind (mute_evaluate _ _) fun _ => .bind (mute_bindTarget _ _ _) fun _ => .pure _

theorem mute_runAssign : Mute (Builtin.runAssign inv) := by
  simp only [Builtin.runAssign]
  split
  · exact .fail _
  · refine .of_get (fun _ _ => rfl) fun s => ?_
    split
    · exact .fail _
    · split
      · exact .fail _
      · exact .bind (mute_evaluate _ _) fun _ => .bind (.modify fun _ _ => rfl) fun _ => .pure _

theorem mute_runJump : Mute (Builtin.runJump inv) :=
  Builtin.runJump_of (fun _ => .pure _) (fun _ => .fail _) (.pure _)
    fun _ hf => .bind (mute_evaluate _ _) hf

theorem mute_beginConditional : Mute (beginConditional inv) := by
  refine .bind (mute_evaluate _ _) fun condition => .bind (.ofOption _ _) fun layout => ?_
  dsimp only
  split
  · exact .pure _
  · exact fun _ _ => rfl

theorem mute_runLeave : Mute (Builtin.runLeave inv) := by
  refine .of_get (fun _ _ => rfl) fun s => ?_
  split
  · exact .fail _
  · split
    · exact .pure _
    · exact .bind (mute_evaluate _ _) fun _ => .pure _

/-- All keywords but those that wait or print send nothing. -/
theorem Builtin.mute_begin {k : Builtin} (hwait : k ≠ .wait) (houtput : k ≠ .output) :
    Mute (k.begin inv) := by
  have hfinished : ∀ {x : Exec Control}, Mute x → Mute (do return Entry.finished (← x)) :=
    fun hx => .bind hx fun _ => .pure _
  cases k with
  | declare => exact mute_beginDeclare inv
  | assign => exact hfinished (mute_runAssign inv)
  | jump => exact hfinished (mute_runJump inv)
  | wait => exact absurd rfl hwait
  | conditional => exact mute_beginConditional inv
  | ignore => exact .pure _
  | output => exact absurd rfl houtput
  | function => exact hfinished (.bind (mute_defineFunction inv _) fun _ => .pure _)
  | call => exact mute_beginCall inv _ _
  | leave => exact hfinished (mute_runLeave inv)

end

/-! ### Computations that do not look at their sink -/

namespace Exec

variable {α β : Type} {x : Exec α}

/-- Whatever its sink is, the computation gives the same result, makes the same state of
all but the sink, and sends the same to the sink. -/
def Blind (x : Exec α) : Prop :=
  ∀ s : State, ∃ sent, ∀ sink : Sink,
    x (s.withSink sink) = ((x s).1, (x s).2.withSink (sink.receive sent))

theorem Mute.blind (hx : Mute x) : Blind x :=
  fun s => ⟨[], hx s⟩

/-- A computation and then one that is chosen by its result. What both send is sent in
their order. -/
theorem Blind.attempt {f : Except Stop α → Exec β} (hx : Blind x) (hf : ∀ r, Blind (f r)) :
    Blind fun s => f (x s).1 (x s).2 := by
  intro s
  obtain ⟨sent, hx⟩ := hx s
  obtain ⟨sent', hf⟩ := hf (x s).1 (x s).2
  refine ⟨sent ++ sent', fun sink => ?_⟩
  simp only [hx sink, hf, Sink.receive_append]

/-- A result that is there already. -/
theorem Blind.result (r : Except Stop α) : Blind fun s => (r, s) :=
  fun _ => ⟨[], fun _ => rfl⟩

theorem Blind.bind {f : α → Exec β} (hx : Blind x) (hf : ∀ a, Blind (f a)) :
    Blind (x >>= f) := by
  intro s
  obtain ⟨sent, hx⟩ := hx s
  generalize hs : x s = result at hx
  obtain ⟨r, t⟩ := result
  cases r with
  | error e =>
    refine ⟨sent, fun sink => ?_⟩
    simp only [bind_apply, hx sink, hs]
  | ok a =>
    obtain ⟨sent', hf⟩ := hf a t
    refine ⟨sent ++ sent', fun sink => ?_⟩
    simp only [bind_apply, hx sink, hs, hf, Sink.receive_append]

theorem blind_emit (v : Value) : Blind (emit v) :=
  fun _ => ⟨[.printed v], fun _ => rfl⟩

theorem blind_sleep (nanoseconds : Nat) : Blind (sleep nanoseconds) :=
  fun _ => ⟨[.waited nanoseconds], fun _ => rfl⟩

end Exec

/-! ### Every line -/

section

variable (inv : Invocation)

theorem blind_runWait : Blind (Builtin.runWait inv) := by
  refine .bind (mute_evaluate _ _).blind fun v => ?_
  split
  · exact .bind (blind_sleep _) fun _ => (Mute.pure _).blind
  · exact (Mute.fail _).blind

theorem blind_runOutput : Blind (Builtin.runOutput inv) := by
  have hprint : ∀ v : Value, Blind (do emit v; return Control.next) :=
    fun v => .bind (blind_emit v) fun _ => (Mute.pure _).blind
  simp only [Builtin.runOutput]
  split
  · exact .bind (Mute.pure _).blind hprint
  · exact .bind (mute_evaluate _ _).blind hprint

theorem Builtin.blind_begin (k : Builtin) : Blind (k.begin inv) := by
  by_cases hwait : k = .wait
  · subst hwait
    exact .bind (blind_runWait inv) fun _ => (Mute.pure _).blind
  · by_cases houtput : k = .output
    · subst houtput
      exact .bind (blind_runOutput inv) fun _ => (Mute.pure _).blind
    · exact (Builtin.mute_begin inv hwait houtput).blind

end

/-- The first part of a line does not look at the sink. -/
theorem blind_beginLine (b : Block) (index : Nat) (i : Instruction) :
    Blind (beginLine standardTable b index i) := by
  rw [beginLine]
  cases h : standardTable.find? i.keyword with
  | none => exact (Mute.fail _).blind
  | some handler =>
    obtain ⟨k, -, rfl⟩ := find?_standardTable.1 h
    exact .bind mute_tick.blind fun _ => Builtin.blind_begin _ k

/-- When a block has ended, its scope and its call are left, and a value may be bound. -/
theorem Pending.mute_resume (p : Pending) (r : Except Stop Outcome) : Mute (p.resume r) := by
  intro s sink
  cases p with
  | branch depth endTarget => rfl
  | call f depth scope target after =>
    cases r with
    | error e => rfl
    | ok outcome =>
      exact mute_bindResult scope target _ ((Pending.call f depth scope target after).close s) sink

/-- A line does not look at the sink, if the block inside of it does not. -/
theorem Entry.blind_complete {runner : Runner} (hrunner : ∀ inner, Blind (runner inner))
    (entry : Entry) : Blind (entry.complete runner) := by
  cases entry with
  | finished control => exact (Mute.pure control).blind
  | opens inner pending =>
    exact .attempt (hrunner inner) fun r => (pending.mute_resume r).blind

/-! ### Runs -/

/-- After a line has answered, a block goes on in the same way whatever the sink is, if
its other lines do. -/
theorem blind_goOn {fuel : Nat} {b : Block}
    (hrun : ∀ next, Blind (runBlock standardTable fuel b next)) (index line : Nat)
    (r : Except Stop Control) : Blind fun s => goOn standardTable fuel b index line (r, s) := by
  cases r with
  | error e => exact .result _
  | ok control =>
    simp only [goOn]
    cases b.next index control with
    | inl next => exact hrun next
    | inr outcome => exact .result _

/-- No run of a block looks at the sink. -/
theorem blind_runBlock (fuel : Nat) (b : Block) (index : Nat) :
    Blind (runBlock standardTable fuel b index) := by
  induction fuel generalizing b index with
  | zero => exact .result _
  | succ fuel ih =>
    cases hi : b.code[index]? with
    | none =>
      intro s
      refine ⟨[], fun sink => ?_⟩
      rw [runBlock_succ, runBlock_succ, hi]
      rfl
    | some i =>
      have hline : Blind (dispatch standardTable (nestedRunner standardTable fuel) b index i) := by
        rw [dispatch_eq]
        exact .bind (blind_beginLine b index i) (Entry.blind_complete fun inner => ih inner 0)
      have hrun : runBlock standardTable (fuel + 1) b index = fun s =>
          goOn standardTable fuel b index i.line
            (dispatch standardTable (nestedRunner standardTable fuel) b index i s) :=
        funext fun s => runBlock_of_line hi s
      rw [hrun]
      exact .attempt hline (blind_goOn (ih b) index i.line)

/-! ### Programs -/

/-- **A program sends the same to every sink.** It ends in the same way whatever the sink
is, in a state that is the same but for the sink, and the sink has received what the
program has sent. -/
theorem Interpreter.run_receives (limit fuel : Nat) (p : Program) :
    ∃ r m sent, ∀ sink : Sink,
      (Interpreter.new limit sink []).run fuel p =
        (r, Interpreter.withSink m (sink.receive sent)) := by
  obtain ⟨sent, hsent⟩ := blind_runBlock fuel (.root p.instructions Environment.root) 0
    (initialState limit .silent)
  generalize runBlock standardTable fuel _ 0 (initialState limit .silent) = result at hsent
  obtain ⟨r, t⟩ := result
  exact ⟨r.map fun _ => (), ⟨standardTable, t⟩, sent, fun sink =>
    Interpreter.run_of_block (m := .new limit sink []) (hsent sink)⟩

/-- **Where the output goes has no influence on a run.** A program that is run on fresh
interpreters with two sinks gives the same success or error, whenever it ends, and leaves
the same environment, with all bindings of the root scope, the same waits and the same
number of instructions.
The lines that a buffer keeps are the texts of the values that a host receives, in order. -/
theorem run_regardless_of_sink (limit fuel : Nat) (p : Program) :
    (∀ sink sink' : Sink, ∃ r m m',
      (Interpreter.new limit sink []).run fuel p = (r, m) ∧
      (Interpreter.new limit sink' []).run fuel p = (r, m') ∧
      m.state.env = m'.state.env ∧ m.state.clock.waits = m'.state.clock.waits ∧
      m.state.clock.steps = m'.state.clock.steps) ∧
    ((Interpreter.new limit (.buffer #[]) []).run fuel p).2.state.sink.lines =
      ((Interpreter.new limit (.forward #[]) []).run fuel p).2.state.sink.values.map
        Value.text := by
  obtain ⟨r, m, sent, hrun⟩ := Interpreter.run_receives limit fuel p
  refine ⟨fun sink sink' => ⟨r, _, _, hrun sink, hrun sink', rfl, rfl, rfl⟩, ?_⟩
  rw [hrun, hrun]
  have hlines := Sink.lines_receive #[] sent
  have hvalues := Sink.values_receive #[] sent
  rw [Array.toList_empty, List.nil_append] at hlines hvalues
  exact hlines.trans (congrArg (List.map Value.text) hvalues.symm)

/-- A program that prints a text and a function, and then fails. -/
def printsAndFails : Program :=
  ⟨[⟨"FUNC f x", 1⟩, ⟨"END", 2⟩, ⟨"STD::OUT 'a' + 'b'", 3⟩, ⟨"STD::OUT f", 4⟩, ⟨"STD::OUT g", 5⟩]⟩

/-- The run of `printsAndFails` with a buffer and the one with a host fail at the same line.
The buffer has kept the texts of the two values that the host has received. -/
theorem printsAndFails_sinks :
    ∃ m m', (Interpreter.new 10 (.buffer #[]) []).run 9 printsAndFails =
        (.error (.failed ⟨.undefinedVariable "g", some 5, none⟩), m) ∧
      (Interpreter.new 10 (.forward #[]) []).run 9 printsAndFails =
        (.error (.failed ⟨.undefinedVariable "g", some 5, none⟩), m') ∧
      m.state.env = m'.state.env ∧
      m.state.sink.lines = ["ab", "[Function: f]"] ∧
      m'.state.sink.values.map Value.text = ["ab", "[Function: f]"] := by
  obtain ⟨hsame, hlines⟩ := run_regardless_of_sink 10 9 printsAndFails
  obtain ⟨r, m, m', hrun, hrun', henv, -⟩ := hsame (.buffer #[]) (.forward #[])
  have herror : ((Interpreter.new 10 (.buffer #[]) []).run 9 printsAndFails).1 =
      .error (.failed ⟨.undefinedVariable "g", some 5, none⟩) := by
    decide +kernel
  have hbuffer : ((Interpreter.new 10 (.buffer #[]) []).run 9 printsAndFails).2.state.sink.lines =
      ["ab", "[Function: f]"] := by
    decide +kernel
  rw [hrun] at herror hbuffer hlines
  rw [hrun'] at hlines
  obtain rfl : r = _ := herror
  exact ⟨m, m', hrun, hrun', henv, hbuffer, hlines.symm.trans hbuffer⟩

end LineScript
