import LineScript.Proofs.Program.Source

/-!
# Free text before the executable region

What stands before the begin marker is read line by line, but only markers are looked for.
A line that starts with the terminate marker ends the reading there as well, so such a text
makes the program empty; any other text only moves the program down.

- `Program.movedDown`: a program whose lines stand further down.
- `executableLines_zipIdx_add`: the numbers of the lines only count them.
- `executableLines_append`: reading lines among which the region is not opened.
- `Program.ofSource_behind`: the program of a source text behind a text without begin marker.
-/

namespace LineScript

/-- The program whose lines stand `n` lines further down. -/
def Program.movedDown (n : Nat) (p : Program) : Program :=
  ⟨p.instructions.map fun i => { i with line := min (i.line + n) lastLine }⟩

/-! ### The lines of a text behind another one -/

namespace Text

/-- The parts before the last one are lines, whatever the last one holds. -/
theorem linesOfPieces_append (parts : List (List Char)) {rest : List (List Char)}
    (hrest : rest ≠ []) :
    linesOfPieces (parts ++ rest) = parts.map dropReturn ++ linesOfPieces rest := by
  obtain ⟨next, more, rfl⟩ := List.exists_cons_of_ne_nil hrest
  induction parts with
  | nil => rfl
  | cons part parts ih =>
    cases parts with
    | nil => rfl
    | cons second parts =>
      rw [List.cons_append, List.cons_append, linesOfPieces, ← List.cons_append, ih]
      rfl

/-- The lines of a text behind another text and a line feed. -/
theorem lines_append (s t : List Char) :
    lines (s ++ '\n' :: t) = (pieces (· = '\n') s).map dropReturn ++ lines t := by
  rw [lines, pieces_append_cons (by decide), linesOfPieces_append _ (pieces_ne_nil _ t), lines]

end Text

/-! ### Reading numbered lines -/

/-- Lines that stand further down give the same instructions further down. -/
theorem executableLines_zipIdx_add (within : Bool) (lines : List (List Char)) (k n : Nat) :
    executableLines within (lines.zipIdx (k + n)) =
      (executableLines within (lines.zipIdx k)).map
        fun i => { i with line := min (i.line + n) lastLine } := by
  induction lines generalizing within k with
  | nil => rfl
  | cons line lines ih =>
    have hnext : k + n + 1 = k + 1 + n := by omega
    have hline : min (k + n) lastLine = min (min k lastLine + n) lastLine := by omega
    rw [List.zipIdx_cons, List.zipIdx_cons, hnext]
    simp only [executableLines]
    split
    · exact ih _ _
    · split
      · rfl
      · split
        · rw [List.map_cons, ih, hline]
        · exact ih _ _

/-- Lines that do not open the region give no instructions, and end the reading if one of
them starts with the terminate marker. -/
theorem executableLines_append {before : List (List Char)}
    (hbefore : ∀ line ∈ before, startsWith (Text.trim line) beginMarker = false) (k : Nat)
    (after : List (List Char × Nat)) :
    executableLines false (before.zipIdx k ++ after) =
      if before.any (fun line => startsWith (Text.trim line) terminateMarker) then []
      else executableLines false after := by
  induction before generalizing k with
  | nil => rfl
  | cons line before ih =>
    have hline : startsWith (Text.trim line) beginMarker = false :=
      hbefore line List.mem_cons_self
    have hrest := ih (fun next hnext => hbefore next (List.mem_cons_of_mem line hnext)) (k + 1)
    rw [List.zipIdx_cons, List.cons_append, executableLines, hrest, hline, List.any_cons]
    cases startsWith (Text.trim line) terminateMarker <;> rfl

/-! ### A source text behind a prelude -/

/-- A text without begin marker before a source text only moves the program down, unless one
of its lines starts with the terminate marker: then there is no program. -/
theorem Program.ofSource_behind {prelude : String} (source : String)
    (hprelude : ∀ line ∈ sourceParts prelude, startsWith (Text.trim line) beginMarker = false) :
    Program.ofSource (prelude ++ "\n" ++ source) =
      if (sourceParts prelude).any (fun line => startsWith (Text.trim line) terminateMarker) then
        ⟨[]⟩
      else (Program.ofSource source).movedDown (sourceParts prelude).length := by
  let before := (sourceParts prelude).map Text.dropReturn
  have htext : (prelude ++ "\n" ++ source).toList = prelude.toList ++ '\n' :: source.toList := by
    simp
  have hlines : (Text.lines (prelude ++ "\n" ++ source).toList).zipIdx 1 =
      before.zipIdx 1 ++ (Text.lines source.toList).zipIdx (1 + (sourceParts prelude).length) := by
    rw [htext, Text.lines_append, List.zipIdx_append, List.length_map]
    rfl
  -- the carriage returns at the ends of the lines hide no marker
  have hbegin : ∀ line ∈ before, startsWith (Text.trim line) beginMarker = false := by
    intro line hline
    obtain ⟨part, hpart, rfl⟩ := List.mem_map.1 hline
    rw [Text.trim_dropReturn]
    exact hprelude part hpart
  have hend : before.any (fun line => startsWith (Text.trim line) terminateMarker) =
      (sourceParts prelude).any fun line => startsWith (Text.trim line) terminateMarker := by
    rw [List.any_map]
    simp only [Function.comp_def, Text.trim_dropReturn]
  rw [ofSource, hlines, executableLines_append hbegin, executableLines_zipIdx_add, hend]
  split <;> rfl

/-- A title, a line that only mentions the begin marker, and a blank line before a program
move it three lines down. -/
theorem Program.ofSource_behind_title :
    (∀ line ∈ sourceParts "Sums\nsee %-- BEGIN EXECUTION --%\n",
        startsWith (Text.trim line) beginMarker = false) ∧
      Program.ofSource ("Sums\nsee %-- BEGIN EXECUTION --%\n" ++ "\n" ++
          "  %-- BEGIN EXECUTION --%\n // start\n STD::OUT 1") =
        ⟨[⟨"STD::OUT 1", 6⟩]⟩ := by
  have hprelude : ∀ line ∈ sourceParts "Sums\nsee %-- BEGIN EXECUTION --%\n",
      startsWith (Text.trim line) beginMarker = false := by decide
  refine ⟨hprelude, ?_⟩
  rw [Program.ofSource_behind _ hprelude]
  decide

/-- A line of free text that starts with the terminate marker is not ignored, although the
region behind it opens with a begin marker: its instruction is lost. -/
theorem Program.ofSource_behind_terminate :
    (∀ line ∈ sourceParts "%-- TERMINATE EXECUTION --%",
        startsWith (Text.trim line) beginMarker = false) ∧
      (∃ rest, sourceParts "%-- BEGIN EXECUTION --%\nIGNORE" = beginMarker.toList :: rest) ∧
      (Program.ofSource "%-- BEGIN EXECUTION --%\nIGNORE").movedDown 1 = ⟨[⟨"IGNORE", 3⟩]⟩ ∧
      Program.ofSource ("%-- TERMINATE EXECUTION --%" ++ "\n" ++
        "%-- BEGIN EXECUTION --%\nIGNORE") = ⟨[]⟩ := by
  refine ⟨by decide, ⟨["IGNORE".toList], rfl⟩, by decide, by decide⟩

end LineScript
