import LineScript.Proofs.Machine.Lines

/-!
# Programs behind lines that do nothing

A jump by an offset goes from line to line, wherever the lines stand. So a program whose
jumps are such ones does the same behind lines that do nothing: in the program itself all
positions go up by the number of these lines, and in the bodies of functions none does.

- `Variation.suits_behind`: the programs that do the same behind other lines.
- `relocated_ends_same`: they end in the same way, and with the same effects.
-/

namespace LineScript

section

variable {ignored code moved : List Instruction}

/-- A program without other jumps than those by an offset does the same behind lines that do
nothing, if there is room for them. -/
theorem Variation.suits_behind (hignored : ∀ i ∈ ignored, i.keyword = "IGNORE")
    (hcode : ∀ i ∈ code, i.Relocatable)
    (hroom : 2 * (code.length + ignored.length : Int) ≤ lastPosition) :
    (Variation.behind ignored).Suits ⟨code⟩ :=
  ⟨hignored, .inr hroom, fun i hi => .inr (hcode i hi)⟩

/-- **Jumps by an offset make a program relocatable.** Let every jump of a program have no
operand or an offset of at most 62 bits. If the program ends otherwise than with an invalid
jump, then the same lines behind lines that do nothing end in the same way: with success or
with the same error, and they have printed, waited for and bound the same, up to the numbers
of the lines. There has to be room for all the lines: every one of them takes up more than one
place in memory, and there are no more places than `lastPosition`. -/
theorem relocated_ends_same (hignored : ∀ i ∈ ignored, i.keyword = "IGNORE")
    (hcode : ∀ i ∈ code, i.Relocatable)
    (hmoved : moved.map Instruction.text = code.map Instruction.text)
    (hroom : 2 * ((ignored ++ moved).length : Int) ≤ lastPosition) {limit fuel : Nat} {sink : Sink}
    {r : Except Stop Unit} {m : Interpreter}
    (hrun : (Interpreter.new limit sink []).run fuel ⟨code⟩ = (r, m))
    (hr : r ≠ .error .outOfFuel)
    (hjump : ∀ e reason, r = .error (.failed e) → e.cause ≠ .invalidJump reason) :
    ∃ fuel' r' m', (Interpreter.new limit sink []).run fuel' ⟨ignored ++ moved⟩ = (r', m') ∧
      SameEnd r r' ∧ SameEffects m m' := by
  -- without numbers the lines in front are the same, and so are those behind them
  have hplain : ∀ i ∈ ignored.map (Instruction.renumber noLine), i.keyword = "IGNORE" := by
    intro i hi
    obtain ⟨j, hj, rfl⟩ := List.mem_map.1 hi
    exact hignored j hj
  have hsame : (Variation.behind (ignored.map (Instruction.renumber noLine))).program ⟨code⟩ =
      (Variation.renumbering noLine).program ⟨ignored ++ moved⟩ := by
    refine congrArg Program.mk ?_
    show ignored.map (Instruction.renumber noLine) ++ code.map (Instruction.renumber noLine) =
      (ignored ++ moved).map (Instruction.renumber noLine)
    rw [List.map_append, map_renumber_noLine hmoved]
  have hlength := congrArg List.length hmoved
  rw [List.length_map, List.length_map] at hlength
  refine run_of_behind (Variation.suits_behind hplain hcode ?_) hsame hrun hr
    fun e he => Variation.not_bad (fun _ => rfl) (.inr fun reason => hjump e reason he)
  rw [List.length_append] at hroom
  rw [List.length_map]
  omega

end

/-- A jump out of a branch, over a line that would fail, to one that prints. -/
def jumpOver : List Instruction :=
  [⟨"IF true", 1⟩, ⟨"JUMP +2", 2⟩, ⟨"END", 3⟩, ⟨"RET", 4⟩, ⟨"STD::OUT", 5⟩]

/-- The same lines, two lines further down. -/
def jumpOverBelow : List Instruction :=
  [⟨"IF true", 3⟩, ⟨"JUMP +2", 4⟩, ⟨"END", 5⟩, ⟨"RET", 6⟩, ⟨"STD::OUT", 7⟩]

/-- Behind two lines that do nothing `jumpOver` still jumps to the line that prints. -/
theorem jumpOver_relocated :
    (∀ i ∈ jumpOver, i.Relocatable) ∧
    ∃ m, (Interpreter.new 10 (.buffer #[]) []).run 20 ⟨jumpOver⟩ = (.ok (), m) ∧
      m.state.sink.lines = [""] ∧
      ∃ fuel' r' m', (Interpreter.new 10 (.buffer #[]) []).run fuel'
          ⟨[⟨"IGNORE", 1⟩, ⟨"IGNORE it", 2⟩] ++ jumpOverBelow⟩ = (r', m') ∧
        SameEnd (.ok ()) r' ∧ SameEffects m m' := by
  obtain ⟨t, hblock, hlines⟩ : ∃ t, runBlock standardTable 20
      (.root jumpOver Environment.root) 0 (Interpreter.initialState 10 (.buffer #[])) =
        (.ok .completed, t) ∧ t.sink.lines = [""] := ⟨_, Prod.ext rfl rfl, rfl⟩
  have hrun := Interpreter.run_of_block (m := .new 10 (.buffer #[]) []) (p := ⟨jumpOver⟩) hblock
  have hignored : ∀ i ∈ [Instruction.mk "IGNORE" 1, ⟨"IGNORE it", 2⟩], i.keyword = "IGNORE" := by
    decide
  have hcode : ∀ i ∈ jumpOver, i.Relocatable := by decide
  have hmoved : jumpOverBelow.map Instruction.text = jumpOver.map Instruction.text := by decide
  obtain ⟨fuel', r', m', hrun', hend, heffects⟩ :=
    relocated_ends_same hignored hcode hmoved (by decide) hrun nofun nofun
  exact ⟨hcode, _, hrun, hlines, fuel', r', m', hrun', hend, heffects⟩

end LineScript
