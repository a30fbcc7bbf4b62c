import LineScript.Proofs.Expr.Characters
import LineScript.Proofs.Machine.Bindings
import LineScript.Proofs.Machine.Sinks

/-!
# One line of output for every value

A program is made of lines, and no operator makes a line feed: what is no text is shown
without one, and a text is a literal of a line or the sum of texts. So no value that a
program ever has shows a line feed, and what a buffer keeps can be cut into the lines
that were printed.

- `Value.OneLine`: a value without a line feed.
- `keepsFrom_beginLine_oneLine`: the first part of a line binds no other values.
- `Config.OneLine`: a moment of a run without line feeds; `Config.OneLine.step`.
- `Config.printed?`, `printedIn`: what is printed at a moment, and in a number of steps.
- `Config.sends_step`, `sends_after`: this is what the sink receives.
- `output_of_source`: what this says about a source text.
-/

namespace LineScript

/-! ### Values without a line feed -/

/-- A value that shows no line feed: a text without one, or a function without one in its
name; all other values have none. -/
def Value.OneLine : Value → Prop
  | .string s => '\n' ∉ s.toList
  | .function f => ∀ name, f.name = some name → '\n' ∉ name.toList
  | _ => True

/-- A value without a line feed is one whose text has none. -/
theorem Value.oneLine_iff {v : Value} : v.OneLine ↔ '\n' ∉ v.text.toList := by
  have hother : v.type ≠ .function → v.type ≠ .string → '\n' ∉ v.text.toList :=
    fun hfunction hstring hfeed =>
      absurd (Value.no_control_of_type hfunction hstring _ hfeed) (by decide)
  cases v with
  | string s => exact Iff.rfl
  | undefined | boolean | number | std =>
    exact iff_of_true trivial (hother (by rintro ⟨⟩) (by rintro ⟨⟩))
  | function f =>
    have hopen : '\n' ∉ "[Function: ".toList := by decide
    have hclose : '\n' ∉ "]".toList := by decide
    have hanonymous : '\n' ∉ "[Function (anonymous)]".toList := by decide
    rw [OneLine, text, functionText]
    cases hname : f.name with
    | none =>
      refine iff_of_true ?_ hanonymous
      rintro name ⟨⟩
    | some name =>
      simp only [String.toList_append, List.mem_append, hopen, hclose, false_or, or_false]
      constructor
      · intro h
        exact h name rfl
      · rintro h name' hname'
        rwa [← Option.some.inj hname']

/-- An expression without a line feed has a value without one, if all values of names have
none. -/
theorem Expr.evaluate_oneLine {lookup : Lookup} (hlookup : ∀ id v, lookup id = some v → v.OneLine)
    {text : String} (htext : '\n' ∉ text.toList) {v : Value}
    (h : evaluate lookup text = .ok v) : v.OneLine := by
  refine Value.oneLine_iff.2 (evaluate_lacks (by decide) (fun id w hw => ?_) htext h)
  exact Value.oneLine_iff.1 (hlookup id w hw)

/-! ### What a line binds -/

section

open Exec

/-- No name has a value with a line feed if no bound value has one. -/
theorem State.lookup_oneLine {s : State} (hs : s.env.AllValues Value.OneLine) (scope : ScopeId) :
    ∀ id v, s.lookup scope id = some v → v.OneLine := by
  intro id v hv
  obtain ⟨b, hb, rfl⟩ := Option.map_eq_some_iff.1 hv
  exact hs.find? hb

theorem keeps_evaluate_oneLine (scope : ScopeId) {text : String} (htext : '\n' ∉ text.toList) :
    Keeps Value.OneLine Value.OneLine (evaluate scope text) := by
  intro s hs
  exact Keeps.ofExcept
    (fun v hv => Expr.evaluate_oneLine (State.lookup_oneLine hs scope) htext hv) s hs

variable {inv : Invocation}

/-- The name of a function is a word, and a line feed is blank. -/
theorem keeps_defineFunction_oneLine (header : List Char) :
    Keeps Value.OneLine (fun _ => True) (defineFunction inv header) := by
  rw [defineFunction]
  cases hwords : (Text.words header).map String.ofList with
  | nil => exact .fail _ _
  | cons name params =>
    have hname : '\n' ∉ name.toList := by
      obtain ⟨w, hw, rfl⟩ : ∃ w ∈ Text.words header, String.ofList w = name :=
        List.mem_map.1 (hwords ▸ List.mem_cons_self)
      rw [String.toList_ofList]
      intro hfeed
      exact absurd (Text.not_blank_of_mem_words hw _ hfeed) (by decide)
    refine .bind (.of_idles (idles_bodyFrom _ _)) fun body _ => .bind .freshId fun id _ => ?_
    dsimp only
    split
    · refine .bind (keeps_declare _ _ ?_) fun _ _ => .pure trivial
      intro name' hname'
      dsimp only at hname'
      split at hname'
      · cases hname'
      · exact Option.some.inj hname' ▸ hname
    · exact .pure trivial

/-- The first part of a line without a line feed binds values without one, if all bound
values have none. -/
theorem keepsFrom_beginLine_oneLine {b : Block} {index : Nat} {i : Instruction}
    (hi : '\n' ∉ i.text.toList) (s : State) :
    KeepsFrom s Value.OneLine (beginLine standardTable b index i) := by
  refine keepsFrom_beginLine trivial (fun text htext => ?_) fun header _ => ?_
  · refine keeps_evaluate_oneLine b.scope fun hfeed => hi (i.operand_subset ?_)
    rw [Instruction.toList_operand]
    exact htext hfeed
  · exact (keeps_defineFunction_oneLine header).keepsFrom

end

/-! ### What is printed -/

/-- The value that an output line prints: the value of its operand, or the empty text. -/
def Instruction.outputValue (i : Instruction) (lookup : Expr.Lookup) : Except Cause Value :=
  if i.operand.isEmpty then .ok (.string "") else Expr.evaluate lookup i.operand

namespace Config

/-- The value that is printed at a moment: an output line is at hand, and it has a value. -/
def printed? : Config → Option Value
  | running b index _ s =>
    match b.code[index]? with
    | none => none
    | some i =>
      if i.keyword = "STD::OUT" then (i.outputValue (s.lookup b.scope)).toOption else none
  | _ => none

/-- An output line is at hand, and it completes: it answers without an error. -/
def CompletesOutput (c : Config) : Prop :=
  ∃ b index i outer s control t, c = running b index outer s ∧ b.code[index]? = some i ∧
    i.keyword = "STD::OUT" ∧ c.step = answered b index i.line outer (.ok control) t

/-- What is printed in a number of steps, in order. -/
def printedIn (c : Config) (n : Nat) : List Value :=
  (List.range n).filterMap fun k => (c.after k).printed?

end Config

section

variable {b : Block} {index : Nat} {i : Instruction} {outer : List Suspended} {s : State}

/-- An output line prints its value, or fails when it has none. -/
theorem runOutput_apply :
    Builtin.runOutput ⟨b, index, i.operand, i.line⟩ s =
      match i.outputValue (s.lookup b.scope) with
      | .ok v => (.ok .next, { s with sink := s.sink.emit v })
      | .error c => Exec.fail c s := by
  rw [Instruction.outputValue]
  simp only [Builtin.runOutput]
  split
  · rfl
  · cases hv : Expr.evaluate (s.lookup b.scope) i.operand with
    | ok v =>
      have heval : Exec.evaluate b.scope i.operand s = (.ok v, s) := Exec.evaluate_of_ok hv
      exact Exec.bind_of_ok heval
    | error c =>
      have heval : Exec.evaluate b.scope i.operand s = Exec.fail c s := by
        rw [Exec.evaluate, hv]
        rfl
      exact Exec.bind_of_error heval

theorem beginLine_output (hi : i.keyword = "STD::OUT") :
    beginLine standardTable b index i s =
      match i.outputValue (s.lookup b.scope) with
      | .ok v => (.ok (.finished .next), { s.ticked with sink := s.sink.emit v })
      | .error c => Exec.fail c s.ticked := by
  have hk : (i.keyword, Builtin.output) ∈ Builtin.words := Builtin.mem_words hi
  have hrun := @runOutput_apply b index i s.ticked
  have hlookup : s.ticked.lookup b.scope = s.lookup b.scope := rfl
  rw [hlookup] at hrun
  rw [beginLine_of_word hk, Builtin.begin]
  cases hv : i.outputValue (s.lookup b.scope) with
  | ok v =>
    rw [hv] at hrun
    exact Exec.bind_of_ok hrun
  | error c =>
    rw [hv] at hrun
    exact Exec.bind_of_error hrun

/-- A wait sends its length, unless it fails. -/
theorem runWait_sends (inv : Invocation) :
    ∃ sent, (Builtin.runWait inv s).2.sink = s.sink.receive sent ∧ Sent.values sent = [] := by
  rw [Builtin.runWait, Exec.bind_apply, Exec.evaluate]
  cases Expr.evaluate (s.lookup inv.scope) inv.operand with
  | error c => exact ⟨[], rfl, rfl⟩
  | ok v =>
    cases v with
    | number ms => exact ⟨[.waited (waitTime ms)], rfl, rfl⟩
    | undefined | boolean | string | function | std => exact ⟨[], rfl, rfl⟩

/-- A line that prints nothing sends at most a wait. -/
theorem beginLine_sends (hi : i.keyword ≠ "STD::OUT") :
    ∃ sent, (beginLine standardTable b index i s).2.sink = s.sink.receive sent ∧
      Sent.values sent = [] := by
  cases h : standardTable.find? i.keyword with
  | none =>
    rw [beginLine, h]
    exact ⟨[], rfl, rfl⟩
  | some handler =>
    obtain ⟨k, hk, rfl⟩ := find?_standardTable.1 h
    rw [beginLine_of_word hk]
    by_cases hwait : k = .wait
    · subst hwait
      obtain ⟨sent, hsink, hvalues⟩ := @runWait_sends s.ticked ⟨b, index, i.operand, i.line⟩
      refine ⟨sent, ?_, hvalues⟩
      rw [← show s.ticked.sink = s.sink from rfl, ← hsink, Builtin.begin, Exec.bind_apply]
      rcases Builtin.runWait ⟨b, index, i.operand, i.line⟩ s.ticked with ⟨e | control, t⟩
      · rfl
      · rfl
    · have houtput : k ≠ .output := by
        rintro rfl
        exact hi (Builtin.eq_word hk)
      exact ⟨[], (Builtin.mute_begin _ hwait houtput).sink_eq s.ticked, rfl⟩

end

namespace Config

theorem printed?_running {b : Block} {index : Nat} {i : Instruction}
    (hi : b.code[index]? = some i) (outer : List Suspended) (s : State) :
    (running b index outer s).printed? =
      if i.keyword = "STD::OUT" then (i.outputValue (s.lookup b.scope)).toOption else none := by
  rw [printed?, hi]

/-- Something is printed exactly at the moments at which an output line completes. -/
theorem isSome_printed?_iff {c : Config} : c.printed?.isSome = true ↔ c.CompletesOutput := by
  constructor
  · intro h
    cases c with
    | answered | ended => cases h
    | running b index outer s =>
      cases hi : b.code[index]? with
      | none =>
        rw [printed?, hi] at h
        cases h
      | some i =>
        rw [printed?_running hi] at h
        by_cases houtput : i.keyword = "STD::OUT"
        · have hbegun := @beginLine_output b index i s houtput
          rw [if_pos houtput] at h
          cases hv : i.outputValue (s.lookup b.scope) with
          | error e =>
            rw [hv] at h
            cases h
          | ok v =>
            rw [hv] at hbegun
            refine ⟨b, index, i, outer, s, .next, { s.ticked with sink := s.sink.emit v }, rfl, hi,
              houtput, ?_⟩
            rw [step_running hi, hbegun]
        · rw [if_neg houtput] at h
          cases h
  · rintro ⟨b, index, i, outer, s, control, t, rfl, hi, houtput, hstep⟩
    have hbegun := @beginLine_output b index i s houtput
    rw [step_running hi] at hstep
    rw [printed?_running hi, if_pos houtput]
    cases hv : i.outputValue (s.lookup b.scope) with
    | ok v => rfl
    | error e =>
      rw [hv] at hbegun
      rw [hbegun] at hstep
      cases hstep

/-- What a step sends to the sink is a wait or what is printed. -/
theorem sends_step (c : Config) :
    ∃ sent, c.step.state.sink = c.state.sink.receive sent ∧
      Sent.values sent = c.printed?.toList := by
  cases c with
  | running b index outer s =>
    cases hi : b.code[index]? with
    | none =>
      have hstep : (running b index outer s).step = ended outer (.ok .completed) s := by
        simp only [step, hi]
      refine ⟨[], by rw [hstep]; rfl, ?_⟩
      rw [printed?, hi]
      rfl
    | some i =>
      rw [state_step_running hi, printed?_running hi]
      by_cases houtput : i.keyword = "STD::OUT"
      · rw [if_pos houtput, beginLine_output houtput]
        cases i.outputValue (s.lookup b.scope) with
        | ok v => exact ⟨[.printed v], rfl, rfl⟩
        | error c => exact ⟨[], rfl, rfl⟩
      · rw [if_neg houtput]
        exact beginLine_sends houtput
  | answered b index line outer r s =>
    refine ⟨[], ?_, rfl⟩
    cases r with
    | error e => rfl
    | ok control =>
      simp only [step]
      cases b.next index control with
      | inl next => rfl
      | inr outcome => rfl
  | ended outer r s =>
    refine ⟨[], ?_, rfl⟩
    cases outer with
    | nil => rfl
    | cons w outer => exact (w.pending.mute_resume r).sink_eq s

theorem printedIn_succ (c : Config) (n : Nat) :
    c.printedIn (n + 1) = c.printedIn n ++ (c.after n).printed?.toList := by
  rw [printedIn, List.range_succ, List.filterMap_append, ← printedIn]
  cases h : (c.after n).printed? with
  | none => simp [h]
  | some v => simp [h]

/-- What the sink receives in a number of steps are waits and what is printed in them. -/
theorem sends_after (c : Config) (n : Nat) :
    ∃ sent, (c.after n).state.sink = c.state.sink.receive sent ∧
      Sent.values sent = c.printedIn n := by
  induction n with
  | zero => exact ⟨[], rfl, rfl⟩
  | succ n ih =>
    obtain ⟨sent, hsink, hvalues⟩ := ih
    obtain ⟨sent', hsink', hvalues'⟩ := sends_step (c.after n)
    refine ⟨sent ++ sent', ?_, ?_⟩
    · rw [after_add n 1, Sink.receive_append, ← hsink]
      exact hsink'
    · rw [printedIn_succ, ← hvalues, ← hvalues']
      exact List.filterMap_append

/-! ### No line feed at any moment -/

/-- No value of the moment has a line feed: none that is bound in a frame, none that a line
or a block gives back, and none that is printed. -/
structure OneLine (c : Config) : Prop where
  bound : c.state.env.AllValues Value.OneLine
  given : ∀ v, c.given? = some v → v.OneLine
  printed : ∀ v, c.printed? = some v → v.OneLine

/-- What is printed has no line feed, if no bound value and no line has one. -/
theorem printed_oneLine {c : Config}
    (hlines : c.RunsIn fun code => ∀ i ∈ code, '\n' ∉ i.text.toList)
    (hbound : c.state.env.AllValues Value.OneLine) : ∀ v, c.printed? = some v → v.OneLine := by
  intro v hv
  cases c with
  | answered | ended => cases hv
  | running b index outer s =>
    cases hi : b.code[index]? with
    | none =>
      rw [printed?, hi] at hv
      cases hv
    | some i =>
      rw [printed?_running hi] at hv
      split at hv
      · cases hvalue : i.outputValue (s.lookup b.scope) with
        | error e =>
          rw [hvalue] at hv
          cases hv
        | ok w =>
          rw [hvalue] at hv
          obtain rfl := Option.some.inj hv
          rw [Instruction.outputValue] at hvalue
          split at hvalue
          · obtain rfl := Except.ok.inj hvalue
            exact nofun
          · have hfeed := hlines.1 i (List.mem_of_getElem? hi)
            exact Expr.evaluate_oneLine (State.lookup_oneLine hbound b.scope)
              (fun h => hfeed (i.operand_subset h)) hvalue
      · cases hv

/-- A step makes no line feed. -/
theorem OneLine.step {c : Config}
    (hlines : c.RunsIn fun code => ∀ i ∈ code, '\n' ∉ i.text.toList)
    (honward : ∀ w ∈ c.outer, w.pending.Onward) (h : c.OneLine) : c.step.OneLine := by
  have hbound : c.step.state.env.AllValues Value.OneLine := by
    refine allValues_step trivial ?_ h.bound h.given
    rintro b index i outer s rfl hi
    exact keepsFrom_beginLine_oneLine (hlines.1 i (List.mem_of_getElem? hi)) s
  refine ⟨hbound, fun v hv => ?_, printed_oneLine (hlines.step (.forall_mem _) _) hbound⟩
  -- a value that is given back was so before, or it is the one of a `RET` line
  obtain ⟨hgiven, -, -⟩ | ⟨b, index, i, outer, s, rfl, hreturning, -, -⟩ := given_of_step honward hv
  · exact h.given v hgiven
  · have hvalue := hreturning.value
    split at hvalue
    · rw [hvalue]
      trivial
    · have hfeed := hlines.1 i (List.mem_of_getElem? hreturning.line)
      exact Expr.evaluate_oneLine (State.lookup_oneLine h.bound b.scope)
        (fun hmem => hfeed (i.operand_subset hmem)) hvalue

end Config

/-! ### Source texts -/

/-- At no moment of the run of a source text is there a line feed. -/
theorem oneLine_of_reaches (limit : Nat) (sink : Sink) (source : String) {c : Config}
    (h : Reaches ((Interpreter.new limit sink []).start (.ofSource source)) c) : c.OneLine := by
  have hlines : ((Interpreter.new limit sink []).start (.ofSource source)).RunsIn
      fun code => ∀ i ∈ code, '\n' ∉ i.text.toList :=
    Interpreter.runsIn_start limit sink (Program.not_feed_of_ofSource source)
  have hbound : (Interpreter.initialState limit sink).env.AllValues Value.OneLine :=
    .initialState trivial limit sink
  refine (h.invariant (P := fun c => (c.RunsIn fun code => ∀ i ∈ code, '\n' ∉ i.text.toList) ∧
    (∀ w ∈ c.outer, w.pending.Onward) ∧ c.OneLine) ?_ ⟨hlines, nofun, hbound, nofun,
      Config.printed_oneLine hlines hbound⟩).2.2
  rintro c ⟨hlines, honward, hone⟩
  exact ⟨hlines.step (.forall_mem _), onward_step c honward, hone.step hlines honward⟩

/-- The lines that a buffer keeps are found again in its text, if none has a line feed. -/
theorem Sink.pieces_text {sink : Sink} (h : ∀ line ∈ sink.lines, '\n' ∉ line.toList) :
    Text.pieces (· = '\n') sink.text.toList = sink.lines.map String.toList ++ [[]] := by
  have htext : sink.text.toList = (sink.lines.map String.toList).flatMap (· ++ ['\n']) := by
    rw [Sink.text, String.toList_join, List.flatMap_map, List.flatMap_map]
    simp only [String.toList_append]
    rfl
  rw [htext]
  refine Text.pieces_ended fun part hpart => ?_
  obtain ⟨line, hline, rfl⟩ := List.mem_map.1 hpart
  exact h line hline

/-- **One line of output for every value.** While the program of a source text is run on a
new interpreter, no value ever has a line feed, whatever the sink is: none that is bound, given
back or printed. With a buffer, when the run has ended in whatever way, the lines of the buffer
are the texts of the values that were printed, one for each output line that has completed, in
order, and the output cut at its line feeds gives these lines again. -/
theorem output_of_source (limit : Nat) (source : String) :
    (∀ sink c, Reaches ((Interpreter.new limit sink []).start (.ofSource source)) c →
      c.OneLine ∧ (c.printed?.isSome = true ↔ c.CompletesOutput)) ∧
    ∀ fuel r m, (Interpreter.new limit (.buffer #[]) []).runSource fuel source = (r, m) →
      r ≠ .error .outOfFuel →
      ∃ n result,
        ((Interpreter.new limit (.buffer #[]) []).start (.ofSource source)).after n =
          .ended [] result m.state ∧ r = result.map (fun _ => ()) ∧
        m.state.sink.lines =
          (((Interpreter.new limit (.buffer #[]) []).start (.ofSource source)).printedIn n).map
            Value.text ∧
        Text.pieces (· = '\n') m.state.sink.text.toList =
          m.state.sink.lines.map String.toList ++ [[]] := by
  refine ⟨fun sink c hreach =>
    ⟨oneLine_of_reaches limit sink source hreach, Config.isSome_printed?_iff⟩, ?_⟩
  intro fuel r m hrun hr
  have hm := Interpreter.eq_of_run hrun
  rw [Interpreter.runSource, hm] at hrun
  obtain ⟨result, ⟨n, hn⟩, hresult⟩ := (Interpreter.run_iff_reaches rfl).1 ⟨fuel, hrun, hr⟩
  -- the buffer has received what was printed, and that has no line feed
  obtain ⟨sent, hsink, hvalues⟩ := Config.sends_after
    ((Interpreter.new limit (.buffer #[]) []).start (.ofSource source)) n
  have hlines : m.state.sink.lines =
      (((Interpreter.new limit (.buffer #[]) []).start (.ofSource source)).printedIn n).map
        Value.text := by
    rw [hn] at hsink
    have hreceived := Sink.lines_receive #[] sent
    rw [Array.toList_empty, List.nil_append, hvalues] at hreceived
    rw [← hreceived]
    exact congrArg Sink.lines hsink
  refine ⟨n, result, hn, hresult, hlines, Sink.pieces_text fun line hline => ?_⟩
  rw [hlines] at hline
  obtain ⟨v, hv, rfl⟩ := List.mem_map.1 hline
  obtain ⟨k, -, hk⟩ := List.mem_filterMap.1 hv
  exact Value.oneLine_iff.1 ((oneLine_of_reaches limit _ source ⟨k, rfl⟩).printed v hk)

/-- A source text that prints a text, an empty line and a function, and then fails. -/
def printingSource : String :=
  "%-- BEGIN EXECUTION --%\nFUNC f x\nEND\nSTD::OUT 'a' + 'b'\nSTD::OUT\nSTD::OUT f\nSTD::OUT g\n"

/-- The run of `printingSource` fails at its last line, and the output is cut into the three
lines that were printed before. -/
theorem printingSource_output :
    ∃ m n result, (Interpreter.new 10 (.buffer #[]) []).runSource 20 printingSource =
        (.error (.failed ⟨.undefinedVariable "g", some 7, none⟩), m) ∧
      m.state.sink.lines = ["ab", "", "[Function: f]"] ∧
      Text.pieces (· = '\n') m.state.sink.text.toList =
        ["ab".toList, [], "[Function: f]".toList, []] ∧
      ((Interpreter.new 10 (.buffer #[]) []).start (.ofSource printingSource)).after n =
        .ended [] result m.state ∧
      (((Interpreter.new 10 (.buffer #[]) []).start
        (.ofSource printingSource)).after n).OneLine := by
  have herror : ((Interpreter.new 10 (.buffer #[]) []).runSource 20 printingSource).1 =
      .error (.failed ⟨.undefinedVariable "g", some 7, none⟩) := by
    decide +kernel
  have hlines : ((Interpreter.new 10 (.buffer #[]) []).runSource 20
      printingSource).2.state.sink.lines = ["ab", "", "[Function: f]"] := by
    decide +kernel
  generalize hrun : (Interpreter.new 10 (.buffer #[]) []).runSource 20 printingSource = run
    at herror hlines
  obtain ⟨r, m⟩ := run
  obtain rfl : r = _ := herror
  obtain ⟨hone, houtput⟩ := output_of_source 10 printingSource
  obtain ⟨n, result, hn, -, -, hpieces⟩ := houtput 20 _ m hrun nofun
  rw [hlines] at hpieces
  exact ⟨m, n, result, rfl, hlines, hpieces, hn, (hone _ _ ⟨n, rfl⟩).1⟩

end LineScript
