import LineScript.Proofs.Machine.Frames

/-!
# The place of an error

The line that raises an error is the innermost one at hand. On the way out every line
around it and every call adds what it knows, but only what is not known yet, so the
error keeps the line that has raised it and the calls that were active there.

- `Config.failed?`: the error of a moment.
- `raised_of_step`: an error is raised by the line that has just answered.
- `failed?_of_reaches`, `halts_of_failed`: a run with an error ends with the same cause.
- `Config.Carries`: the error of a moment has a cause, a line and calls.
- `Config.Carries.step`: they stay until the end of the run.
- `error_of_run`: where the error of a program points.
-/

namespace LineScript

/-! ### How an error is raised -/

namespace Config

/-- The error with which a line has answered or a block has ended. -/
def failed? : Config → Option Error
  | answered _ _ _ _ (.error (.failed e)) _ | ended _ (.error (.failed e)) _ => some e
  | _ => none

end Config

/-- A line that waits for a block with a result can raise an error only itself. -/
theorem Pending.raised_of_resume {p : Pending} {o : Outcome} {s : State} {e : Stop}
    (h : (p.resume (.ok o) s).1 = .error e) : ∃ cause, e = .failed (.ofCause cause) := by
  cases p with
  | branch => cases h
  | call f depth scope awaited after => exact (stays_bindResult scope awaited _ _).2 e h

/-- The first error of a run is raised by the line that has answered with it: nothing
is known yet about its place. -/
theorem raised_of_step {c : Config} (hstands : ∀ w ∈ c.outer, w.Stands) (hc : c.failed? = none)
    {e : Error} (he : c.step.failed? = some e) :
    ∃ b index i outer cause t, b.code[index]? = some i ∧
      c.step = .answered b index i.line outer (.error (.failed (.ofCause cause))) t := by
  have hstep := c.stepsTo
  generalize c.step = d at hstep he ⊢
  cases hstep with
  | atEnd | finished | opens | goesOn | leaves => cases he
  | @failed b index i outer s t cause hi => exact ⟨b, index, i, outer, cause, t, hi, rfl⟩
  | @error _ _ _ _ stop =>
    cases stop with
    | failed e' => cases hc
    | outOfFuel => cases he
  | halted => exact absurd (hc.symm.trans he) nofun
  | @resumes w outer r s =>
    obtain ⟨i, hi, hline, -⟩ := hstands w List.mem_cons_self
    cases r with
    | error stop =>
      cases stop with
      | failed e' => cases hc
      | outOfFuel =>
        rw [w.pending.resume_outOfFuel] at he
        cases he
    | ok o =>
      -- the end of a call: the value is refused
      cases hr : (w.pending.resume (.ok o) s).1 with
      | ok control =>
        rw [hr] at he
        cases he
      | error stop =>
        obtain ⟨cause, rfl⟩ := Pending.raised_of_resume hr
        exact ⟨w.block, w.index, i, outer, cause, _, hi, by rw [hline]⟩

/-- A run that comes to an error has a first moment with one. -/
theorem first_failed {c : Config} {n : Nat} (hc : c.failed? = none)
    (hn : (c.after n).failed? ≠ none) :
    ∃ m < n, (∀ k ≤ m, (c.after k).failed? = none) ∧ (c.after (m + 1)).failed? ≠ none := by
  induction n generalizing c with
  | zero => exact absurd hc hn
  | succ n ih =>
    by_cases hstep : c.step.failed? = none
    · obtain ⟨m, hm, hbefore, hfirst⟩ := ih hstep hn
      refine ⟨m + 1, Nat.succ_lt_succ hm, ?_, hfirst⟩
      intro k hk
      cases k with
      | zero => exact hc
      | succ k => exact hbefore k (Nat.le_of_succ_le_succ hk)
    · refine ⟨0, Nat.succ_pos n, ?_, hstep⟩
      intro k hk
      obtain rfl := Nat.le_zero.1 hk
      exact hc

/-! ### An error ends the run -/

/-- What is left to do after a block with an error keeps the cause. -/
theorem Pending.resume_failed (p : Pending) (e : Error) (s : State) :
    ∃ e', e'.cause = e.cause ∧
      p.resume (.error (.failed e)) s = (.error (.failed e'), p.close s) := by
  cases p with
  | branch => exact ⟨e, rfl, rfl⟩
  | call => exact ⟨s.calls.attach e, CallStack.cause_attach s.calls e, rfl⟩

/-- A moment has an error when a line has answered or a block has ended with it. -/
theorem failed?_eq_some {c : Config} {e : Error} (h : c.failed? = some e) :
    (∃ b index line outer s, c = .answered b index line outer (.error (.failed e)) s) ∨
      ∃ outer s, c = .ended outer (.error (.failed e)) s := by
  cases c with
  | running => cases h
  | answered b index line outer r s =>
    rcases r with (_ | e') | control
    · obtain rfl := Option.some.inj h
      exact .inl ⟨b, index, line, outer, s, rfl⟩
    · cases h
    · cases h
  | ended outer r s =>
    rcases r with (_ | e') | outcome
    · obtain rfl := Option.some.inj h
      exact .inr ⟨outer, s, rfl⟩
    · cases h
    · cases h

/-- The next moment has an error with the same cause. -/
theorem failed?_step {c : Config} {e : Error} (h : c.failed? = some e) :
    ∃ e', e'.cause = e.cause ∧ c.step.failed? = some e' := by
  obtain ⟨b, index, line, outer, s, rfl⟩ | ⟨outer, s, rfl⟩ := failed?_eq_some h
  · exact ⟨e.atLine line, rfl, rfl⟩
  · cases outer with
    | nil => exact ⟨e, rfl, rfl⟩
    | cons w outer =>
      obtain ⟨e', hcause, hresume⟩ := w.pending.resume_failed e s
      refine ⟨e', hcause, ?_⟩
      rw [Config.step, hresume]
      rfl

/-- All later moments have an error with the same cause. -/
theorem failed?_of_reaches {c d : Config} {e : Error} (h : c.failed? = some e)
    (hreach : Reaches c d) : ∃ e', e'.cause = e.cause ∧ d.failed? = some e' := by
  refine hreach.invariant (P := fun c => ∃ e', e'.cause = e.cause ∧ c.failed? = some e') ?_
    ⟨e, rfl, h⟩
  rintro c ⟨e', hcause, he'⟩
  obtain ⟨e'', hcause', he''⟩ := failed?_step he'
  exact ⟨e'', hcause'.trans hcause, he''⟩

/-- A block with an error ends the lines that wait for it, one after the other. -/
theorem halts_of_ended (outer : List Suspended) (e : Error) (s : State) :
    ∃ e' u, e'.cause = e.cause ∧
      Reaches (.ended outer (.error (.failed e)) s) (.ended [] (.error (.failed e')) u) := by
  induction outer generalizing e s with
  | nil => exact ⟨e, s, rfl, .refl _⟩
  | cons w outer ih =>
    obtain ⟨e', hcause, hresume⟩ := w.pending.resume_failed e s
    obtain ⟨e'', u, hcause', hreach⟩ := ih (e'.atLine w.line) (w.pending.close s)
    refine ⟨e'', u, hcause'.trans hcause, .of_step (.of_step ?_)⟩
    rw [Config.step, hresume]
    exact hreach

/-- A run with an error comes to its end with the same cause. -/
theorem halts_of_failed {c : Config} {e : Error} (h : c.failed? = some e) :
    ∃ e' u, e'.cause = e.cause ∧ Reaches c (.ended [] (.error (.failed e')) u) := by
  obtain ⟨b, index, line, outer, s, rfl⟩ | ⟨outer, s, rfl⟩ := failed?_eq_some h
  · obtain ⟨e', u, hcause, hreach⟩ := halts_of_ended outer (e.atLine line) s
    exact ⟨e', u, hcause, .of_step hreach⟩
  · exact halts_of_ended outer e s

/-! ### What an error keeps -/

/-- What an error knows about the calls that were active where it was raised: nothing
yet, while they are still active, or that there were some. -/
def Error.Traces (e : Error) (raised now : List Call) : Prop :=
  e.backtrace = none ∧ now = raised ∨ e.backtrace = some raised ∧ raised ≠ []

/-- A call that is left tells the error about the active calls. -/
theorem Error.Traces.attach {e : Error} {raised : List Call} {calls : CallStack}
    (h : e.Traces raised calls.calls) (hne : calls.calls ≠ []) (now : List Call) :
    (calls.attach e).Traces raised now := by
  rw [CallStack.attach, CallStack.backtrace]
  rcases h with ⟨hnone, hsame⟩ | ⟨hsome, hraised⟩
  · have hattached : e.withBacktrace calls.calls = { e with backtrace := some calls.calls } := by
      rw [withBacktrace, if_pos]
      simp [hnone, hne]
    rw [hattached, hsame]
    exact .inr ⟨rfl, hsame ▸ hne⟩
  · rw [withBacktrace_of_some hsome]
    exact .inr ⟨hsome, hraised⟩

/-- A call that is left does not change the line of an error. -/
theorem Error.line_attach (calls : CallStack) (e : Error) : (calls.attach e).line = e.line := by
  rw [CallStack.attach, withBacktrace]
  split
  · rfl
  · rfl

namespace Config

/-- The error of a moment has this cause. Its line is known or that of the line which
has answered, and of the calls it knows those that were active where it was raised. -/
def Carries (cause : Cause) (line : Nat) (raised : List Call) : Config → Prop
  | answered _ _ here _ (.error (.failed e)) s =>
    e.cause = cause ∧ e.line.getD here = line ∧ e.Traces raised s.calls.calls
  | ended _ (.error (.failed e)) s =>
    e.cause = cause ∧ e.line = some line ∧ e.Traces raised s.calls.calls
  | _ => False

/-- A step tells the error nothing that it knows already. -/
theorem Carries.step {cause : Cause} {line limit : Nat} {raised : List Call} (c : Config)
    (hcalls : CallsOf limit c.outer c.state) (h : c.Carries cause line raised) :
    c.step.Carries cause line raised := by
  have hstep := c.stepsTo
  generalize c.step = d at hstep ⊢
  cases hstep with
  | atEnd | failed | finished | opens | goesOn | leaves => exact h.elim
  | halted => exact h
  | @error _ _ here _ stop s =>
    cases stop with
    | outOfFuel => exact h.elim
    | failed e =>
      obtain ⟨hcause, hline, htraces⟩ := h
      exact ⟨hcause, congrArg some hline, htraces⟩
  | @resumes w outer r s =>
    cases r with
    | ok o => exact h.elim
    | error stop =>
      cases stop with
      | outOfFuel => exact h.elim
      | failed e =>
        obtain ⟨hcause, hline, htraces⟩ := h
        obtain ⟨block, index, here, pending⟩ := w
        cases pending with
        | branch =>
          refine ⟨hcause, ?_, htraces⟩
          rw [hline]
          rfl
        | call f depth scope awaited after =>
          -- the call itself is among those that are active
          have hactive : s.calls.calls =
              ⟨f.label, some here⟩ :: outer.filterMap Suspended.call? := CallsOf.calls_eq hcalls
          have hne : s.calls.calls ≠ [] := by
            rw [hactive]
            exact List.cons_ne_nil _ _
          refine ⟨(CallStack.cause_attach s.calls e).trans hcause, ?_, htraces.attach hne _⟩
          rw [Error.line_attach, hline]
          rfl

end Config

/-! ### Programs -/

/-- Where a run first has an error: after `n` steps the line `i` raises it, while the
lines `outer` wait and `calls` are active. -/
structure Raised (start : Config) (n : Nat) (i : Instruction) (outer : List Suspended)
    (cause : Cause) (calls : List Call) : Prop where
  /-- There is no error before. -/
  first : ∀ k ≤ n, (start.after k).failed? = none
  /-- The line at hand answers with the error; no line is executed inside of it. -/
  answers : ∃ b index t, b.code[index]? = some i ∧ t.calls.calls = calls ∧
    start.after (n + 1) = .answered b index i.line outer (.error (.failed (.ofCause cause))) t
  /-- The active calls are those of the lines that wait, the innermost first. -/
  calls_eq : calls = outer.filterMap Suspended.call?
  /-- A waiting line is a conditional, or the line of the call that it has made. -/
  lines : ∀ w ∈ outer, ∃ j, w.block.code[w.index]? = some j ∧
    (j.keyword = ifKeyword ∧ w.call? = none ∨
      (j.keyword = callKeyword ∨ j.keyword = declareKeyword) ∧
        ∃ f : Function, w.call? = some ⟨f.label, some j.line⟩)

/-- At every moment of a run the waiting lines are those at their positions. -/
theorem stands_of_reaches {b : Block} {s : State} {c : Config}
    (h : Reaches (.running b 0 [] s) c) : ∀ w ∈ c.outer, w.Stands := by
  have htrue : Inherited fun _ => True := ⟨fun _ _ => trivial, fun _ _ _ => trivial⟩
  have hstart : (Config.running b 0 [] s).RunsIn fun _ => True :=
    ⟨trivial, nofun, fun _ _ _ _ _ _ => trivial⟩
  have hruns := h.invariant (Config.RunsIn.step htrue) hstart
  intro w hw
  cases c with
  | running | answered => exact (hruns.2.1 w hw).stands
  | ended => exact (hruns.1 w hw).stands

/-- At every moment of a run that began without calls the active calls are those of the
waiting lines. -/
theorem callsOf_of_reaches {b : Block} {s : State} (hempty : s.calls.calls = []) {c : Config}
    (h : Reaches (.running b 0 [] s) c) : CallsOf s.calls.limit c.outer c.state := by
  refine h.invariant (P := fun c => CallsOf s.calls.limit c.outer c.state) CallsOf.step ?_
  show s.calls = ⟨[], s.calls.limit⟩
  rw [← hempty]

section

variable {b : Block} {s : State} (hempty : s.calls.calls = [])

include hempty

/-- The error of a run was raised before, by a line of the run. -/
theorem exists_raised {N : Nat} (h : ((Config.running b 0 [] s).after N).failed? ≠ none) :
    ∃ n < N, ∃ i outer cause calls, Raised (.running b 0 [] s) n i outer cause calls := by
  obtain ⟨n, hn, hfirst, hfails⟩ := first_failed rfl h
  have hbefore : Reaches (.running b 0 [] s) ((Config.running b 0 [] s).after n) := ⟨n, rfl⟩
  have hafter : Reaches (.running b 0 [] s) ((Config.running b 0 [] s).after (n + 1)) :=
    ⟨n + 1, rfl⟩
  have hsucc := Config.after_add n 1 (.running b 0 [] s)
  obtain ⟨e, he⟩ := Option.ne_none_iff_exists'.1 hfails
  rw [hsucc] at he
  obtain ⟨b', index, i, outer, cause, t, hi, hraised⟩ :=
    raised_of_step (stands_of_reaches hbefore) (hfirst n (Nat.le_refl n)) he
  have hraised : (Config.running b 0 [] s).after (n + 1) =
      .answered b' index i.line outer (.error (.failed (.ofCause cause))) t := hsucc.trans hraised
  have hcalls := callsOf_of_reaches hempty hafter
  have hstands := stands_of_reaches hafter
  rw [hraised] at hcalls hstands
  exact ⟨n, hn, i, outer, cause, t.calls.calls, hfirst, ⟨b', index, t, hi, rfl, hraised⟩,
    CallsOf.calls_eq hcalls, fun w hw => (hstands w hw).call?_eq⟩

/-- At the end of the run the error knows where it was raised. -/
theorem Raised.error_eq {n N : Nat} {i : Instruction} {outer : List Suspended} {cause : Cause}
    {calls : List Call} (h : Raised (.running b 0 [] s) n i outer cause calls) (hn : n < N)
    {e : Error} {u : State}
    (hend : (Config.running b 0 [] s).after N = .ended [] (.error (.failed e)) u) :
    e = ⟨cause, some i.line, if calls = [] then none else some calls⟩ := by
  obtain ⟨b', index, t, -, hcalls, hraised⟩ := h.answers
  have hcarries : ((Config.running b 0 [] s).after (n + 1)).Carries cause i.line calls := by
    rw [hraised]
    exact ⟨rfl, rfl, .inl ⟨rfl, hcalls⟩⟩
  have hrest : Reaches ((Config.running b 0 [] s).after (n + 1))
      (.ended [] (.error (.failed e)) u) := by
    refine ⟨N - (n + 1), ?_⟩
    rw [← Config.after_add, Nat.add_sub_of_le hn, hend]
  -- what the error knows stays, and in the end no call is active
  obtain ⟨⟨hcause, hline, htraces⟩, hlast⟩ := hrest.invariant
    (P := fun c => c.Carries cause i.line calls ∧ CallsOf s.calls.limit c.outer c.state)
    (fun c ⟨hc, hcalls⟩ => ⟨hc.step c hcalls, hcalls.step c⟩)
    ⟨hcarries, callsOf_of_reaches hempty ⟨n + 1, rfl⟩⟩
  have hnone : u.calls.calls = [] := CallsOf.calls_eq hlast
  obtain ⟨cause', line', backtrace⟩ := e
  obtain rfl : cause' = cause := hcause
  obtain rfl : line' = some i.line := hline
  rcases htraces with ⟨hbacktrace, hsame⟩ | ⟨hbacktrace, hne⟩
  · obtain rfl : backtrace = none := hbacktrace
    rw [if_pos (hsame.symm.trans hnone)]
  · obtain rfl : backtrace = some calls := hbacktrace
    rw [if_neg hne]

end

/-- **An error points at the line that has raised it.** When a program fails that was
run without active calls, a line of the run has raised the error, the innermost one at
hand, while some calls were active. The error has the line of that instruction. It has
no backtrace if no call was active, and else these calls, the most recent one first,
each with its label and the line that has made it. -/
theorem error_of_run {m m' : Interpreter} (htable : m.table = standardTable)
    (hempty : m.state.calls.calls = []) {p : Program} {fuel : Nat} {e : Error}
    (hrun : m.run fuel p = (.error (.failed e), m')) :
    ∃ n i outer cause calls, Raised (m.start p) n i outer cause calls ∧
      e = ⟨cause, some i.line, if calls = [] then none else some calls⟩ := by
  rw [Interpreter.eq_of_run hrun] at hrun
  obtain ⟨result, ⟨N, hN⟩, hresult⟩ :=
    (Interpreter.run_iff_reaches htable).1 ⟨fuel, hrun, nofun⟩
  obtain rfl : result = .error (.failed e) := by
    cases result with
    | ok o => cases hresult
    | error stop =>
      injection hresult with hresult
      rw [hresult]
  have hfails : ((m.start p).after N).failed? ≠ none := by
    rw [hN]
    exact nofun
  obtain ⟨n, hn, i, outer, cause, calls, hraised⟩ := exists_raised hempty hfails
  exact ⟨n, i, outer, cause, calls, hraised, hraised.error_eq hempty hn hN⟩

/-- A function that declares a constant without a value, in a branch. -/
def emptyConstant : List Instruction :=
  [⟨"FUNC f", 1⟩, ⟨"IF true", 2⟩, ⟨"DECLARE *c", 3⟩, ⟨"END", 4⟩, ⟨"END", 5⟩, ⟨"CALL f", 6⟩]

/-- The error of `emptyConstant` is raised by the line of the declaration, in the call of
the function. The branch around it is no call. -/
theorem emptyConstant_error :
    ∃ m n i outer, (Interpreter.new 10 .silent []).run 20 ⟨emptyConstant⟩ =
        (.error (.failed ⟨.undefinedConstant "c", some 3, some [⟨"f", some 6⟩]⟩), m) ∧
      Raised ((Interpreter.new 10 .silent []).start ⟨emptyConstant⟩) n i outer
        (.undefinedConstant "c") [⟨"f", some 6⟩] ∧ i.line = 3 := by
  have herror : (runBlock standardTable 20 (.root emptyConstant Environment.root) 0
      (Interpreter.initialState 10 .silent)).1 =
        .error (.failed ⟨.undefinedConstant "c", some 3, some [⟨"f", some 6⟩]⟩) := rfl
  obtain ⟨t, hblock⟩ : ∃ t, runBlock standardTable 20 (.root emptyConstant Environment.root) 0
      (Interpreter.initialState 10 .silent) =
        (.error (.failed ⟨.undefinedConstant "c", some 3, some [⟨"f", some 6⟩]⟩), t) :=
    ⟨_, Prod.ext herror rfl⟩
  have hrun := Interpreter.run_of_block (m := .new 10 .silent []) (p := ⟨emptyConstant⟩) hblock
  obtain ⟨n, i, outer, cause, calls, hraised, he⟩ :=
    error_of_run (m := .new 10 .silent []) rfl rfl hrun
  obtain ⟨rfl, hline, hcalls⟩ := Error.mk.inj he
  have hcalls' : calls = [⟨"f", some 6⟩] := by
    split at hcalls
    · cases hcalls
    · exact (Option.some.inj hcalls).symm
  exact ⟨_, n, i, outer, hrun, hcalls' ▸ hraised, (Option.some.inj hline).symm⟩

end LineScript
