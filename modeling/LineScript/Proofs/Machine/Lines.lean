import LineScript.Proofs.Machine.Lockstep
import LineScript.Proofs.Program.Source

/-!
# Line numbers play no part in a run

What a run does depends on the texts of the instructions alone. The numbers of their lines
only show in the places of an error and in the bodies of functions.

- `Error.SameButLines`, `SameEnd`: the same error, or the same end of a run, but for lines.
- `SameEffects`: runs that have printed, waited for and bound the same.
- `run_of_behind`: a program behind lines that do nothing.
- `run_of_same_texts`: programs with the same texts end in the same way.
- `lines_play_no_part`: so do source texts that differ in their layout.
-/

namespace LineScript

/-- The same number for every line. -/
def noLine (_ : Nat) : Nat := 0

/-- Two errors that differ in line numbers only. -/
structure Error.SameButLines (e e' : Error) : Prop where
  cause : e.cause = e'.cause
  line : e.line.isSome = e'.line.isSome
  labels : e.backtrace.map (List.map Call.label) = e'.backtrace.map (List.map Call.label)

/-- Both runs have succeeded, or both have failed with the same error but for line numbers. -/
inductive SameEnd : Except Stop Unit → Except Stop Unit → Prop where
  | success : SameEnd (.ok ()) (.ok ())
  | failure {e e' : Error} (h : e.SameButLines e') :
      SameEnd (.error (.failed e)) (.error (.failed e'))

/-- Both runs have printed, waited for and bound the same, but for the line numbers in the
bodies of functions. All bindings count, also the one of the host object's name, which a
program can change. -/
structure SameEffects (m m' : Interpreter) : Prop where
  sink : m.state.sink.renumber noLine = m'.state.sink.renumber noLine
  waits : m.state.clock.waits = m'.state.clock.waits
  env : m.state.env.renumber noLine = m'.state.env.renumber noLine

/-! ### The same without line numbers -/

theorem Error.SameButLines.of_renumber {e e' : Error}
    (h : e.renumber noLine = e'.renumber noLine) : e.SameButLines e' := by
  have hlabels : ∀ calls : List Call,
      (calls.map (Call.renumber noLine)).map Call.label = calls.map Call.label := by
    intro calls
    rw [List.map_map]
    rfl
  have hcause := congrArg Error.cause h
  have hline := congrArg (fun e => e.line.isSome) h
  have hbacktrace := congrArg (fun e => e.backtrace.map (List.map Call.label)) h
  obtain ⟨cause, line, backtrace⟩ := e
  obtain ⟨cause', line', backtrace'⟩ := e'
  refine ⟨hcause, ?_, ?_⟩
  · simpa [renumber] using hline
  · simp only [renumber, Option.map_map] at hbacktrace
    simpa only [Function.comp_def, hlabels] using hbacktrace

theorem SameEnd.of_renumber {r r' : Except Stop Unit} (hr : r ≠ .error .outOfFuel)
    (h : r.mapError (·.mapError (Error.renumber noLine)) =
      r'.mapError (·.mapError (Error.renumber noLine))) : SameEnd r r' := by
  rcases r with (e | _) | _
  · rcases r' with (e' | _) | _
    · exact .failure (.of_renumber (Stop.failed.inj (Except.error.inj h)))
    · cases h
    · cases h
  · exact absurd rfl hr
  · rcases r' with (e' | _) | _
    · cases h
    · cases h
    · exact .success

/-! ### Programs with the same texts -/

theorem map_renumber_noLine {code code' : List Instruction}
    (h : code.map Instruction.text = code'.map Instruction.text) :
    code.map (Instruction.renumber noLine) = code'.map (Instruction.renumber noLine) := by
  have hmap : ∀ code : List Instruction, code.map (Instruction.renumber noLine) =
      (code.map Instruction.text).map (Instruction.mk · 0) := by
    intro code
    rw [List.map_map]
    rfl
  rw [hmap, hmap, h]

/-- A program without line numbers, behind lines that do nothing. -/
def Variation.behind (ignored : List Instruction) : Variation :=
  ⟨noLine, id, ignored⟩

/-- A program does what another one does, if without line numbers it is the same as the other
one behind lines that do nothing. -/
theorem run_of_behind {ignored : List Instruction} {p p' : Program}
    (hp : (Variation.behind ignored).Suits p)
    (hsame : (Variation.behind ignored).program p = (Variation.renumbering noLine).program p')
    {limit fuel : Nat} {sink : Sink} {r : Except Stop Unit} {m : Interpreter}
    (hrun : (Interpreter.new limit sink []).run fuel p = (r, m)) (hr : r ≠ .error .outOfFuel)
    (hgood : ∀ e, r = .error (.failed e) → ¬ (Variation.behind ignored).Bad e.cause) :
    ∃ fuel' r' m', (Interpreter.new limit sink []).run fuel' p' = (r', m') ∧
      SameEnd r r' ∧ SameEffects m m' := by
  obtain ⟨fuel₁, hrun₁⟩ := Variation.run_varied hp hrun hr hgood
    fun c hc => (within_of_reaches hc).depth_le
  rw [hsame] at hrun₁
  have hr₁ : r.mapError (Variation.behind ignored).stop ≠ .error .outOfFuel := by
    rcases r with (e | _) | _
    · exact nofun
    · exact absurd rfl hr
    · exact nofun
  obtain ⟨fuel', r', m', hrun', -, hr', hm'⟩ := Variation.run_of_renumbered hrun₁ hr₁
  have hstate : (Variation.behind ignored).state m.state =
      (Variation.renumbering noLine).state m'.state := hm'
  exact ⟨fuel', r', m', hrun', .of_renumber hr hr',
    { sink := congrArg State.sink hstate
      waits := congrArg (fun s => s.clock.waits) hstate
      env := congrArg State.env hstate }⟩

/-- A program does what every other one with the same texts does. -/
theorem run_of_same_texts {p p' : Program} (h : p.texts = p'.texts) {limit fuel : Nat}
    {sink : Sink} {r : Except Stop Unit} {m : Interpreter}
    (hrun : (Interpreter.new limit sink []).run fuel p = (r, m)) (hr : r ≠ .error .outOfFuel) :
    ∃ fuel' r' m', (Interpreter.new limit sink []).run fuel' p' = (r', m') ∧
      SameEnd r r' ∧ SameEffects m m' := by
  have hsuits : (Variation.behind []).Suits p := Variation.suits_of_leading rfl p
  exact run_of_behind hsuits (congrArg Program.mk (map_renumber_noLine h)) hrun hr
    fun _ _ => Variation.not_bad (fun _ => rfl) (.inl rfl)

/-! ### Source texts -/

/-- **Line numbers play no part in a run.** Source texts that differ in their layout only have
instructions with the same texts. And source texts whose instructions have the same texts do
the same: if the one comes to an end, then so does the other, with success or with the same
error, and they have printed, waited for and bound the same. Only line numbers differ: in the
error, in its backtrace, and in the bodies of functions. -/
theorem lines_play_no_part :
    (∀ source source', SameButLayout source source' →
      (Program.ofSource source).texts = (Program.ofSource source').texts) ∧
    ∀ source source', (Program.ofSource source).texts = (Program.ofSource source').texts →
      ∀ limit sink fuel r m, (Interpreter.new limit sink []).runSource fuel source = (r, m) →
        r ≠ .error .outOfFuel →
        ∃ fuel' r' m', (Interpreter.new limit sink []).runSource fuel' source' = (r', m') ∧
          SameEnd r r' ∧ SameEffects m m' :=
  ⟨fun _ _ h => h.texts_eq, fun _ _ htexts _ _ _ _ _ hrun hr => run_of_same_texts htexts hrun hr⟩

/-- A source text with a function that calls another one, which is not there. -/
def brokenCall : String := "%-- BEGIN EXECUTION --%\nFUNC f\nCALL g\nEND\nCALL f"

/-- The same with a comment. -/
def commentedCall : String := "%-- BEGIN EXECUTION --%\n// note\nFUNC f\nCALL g\nEND\nCALL f"

/-- With the comment and with carriage returns, `brokenCall` fails in the same way. -/
theorem brokenCall_layout :
    SameButLayout brokenCall (String.ofList (withReturns commentedCall.toList)) ∧
    ∃ m, (Interpreter.new 10 .silent []).runSource 9 brokenCall =
        (.error (.failed ⟨.undefinedFunction "g", some 3, some [⟨"f", some 5⟩]⟩), m) ∧
      ∃ fuel r' m', (Interpreter.new 10 .silent []).runSource fuel
          (String.ofList (withReturns commentedCall.toList)) = (r', m') ∧
        SameEnd (.error (.failed ⟨.undefinedFunction "g", some 3, some [⟨"f", some 5⟩]⟩)) r' ∧
        SameEffects m m' := by
  have hlayout : SameButLayout brokenCall
      (String.ofList (withReturns commentedCall.toList)) := by
    have hparts : sourceParts brokenCall = ["%-- BEGIN EXECUTION --%".toList] ++
        ["FUNC f".toList, "CALL g".toList, "END".toList, "CALL f".toList] := by decide
    have hparts' : sourceParts commentedCall = ["%-- BEGIN EXECUTION --%".toList] ++
        "// note".toList :: ["FUNC f".toList, "CALL g".toList, "END".toList, "CALL f".toList] := by
      decide
    exact .trans (.insert hparts hparts' (by decide)) (.returns commentedCall)
  have hprogram : Program.ofSource brokenCall =
      ⟨[⟨"FUNC f", 2⟩, ⟨"CALL g", 3⟩, ⟨"END", 4⟩, ⟨"CALL f", 5⟩]⟩ := by decide
  obtain ⟨t, hblock⟩ : ∃ t, runBlock standardTable 9
      (.root [⟨"FUNC f", 2⟩, ⟨"CALL g", 3⟩, ⟨"END", 4⟩, ⟨"CALL f", 5⟩] Environment.root) 0
      (Interpreter.initialState 10 .silent) =
        (.error (.failed ⟨.undefinedFunction "g", some 3, some [⟨"f", some 5⟩]⟩), t) :=
    ⟨_, Prod.ext rfl rfl⟩
  have hrun := Interpreter.run_of_block (m := .new 10 .silent [])
    (p := ⟨[⟨"FUNC f", 2⟩, ⟨"CALL g", 3⟩, ⟨"END", 4⟩, ⟨"CALL f", 5⟩]⟩) hblock
  rw [← hprogram] at hrun
  have htexts := lines_play_no_part.1 _ _ hlayout
  obtain ⟨fuel, r', m', hrun', hend, heffects⟩ :=
    lines_play_no_part.2 _ _ htexts _ _ _ _ _ hrun nofun
  exact ⟨hlayout, _, hrun, fuel, r', m', hrun', hend, heffects⟩

end LineScript
