import LineScript.Program.Source
import LineScript.Proofs.Text.Blank

/-!
# The layout of a source text

The texts of the instructions depend only on the trimmed lines of a source text, and there
only on those that are executable. So the layout of a source text does not matter: blank
lines, comments, the blanks around a line, and how its end is written.

- `executableTexts`: the texts of the instructions among trimmed lines.
- `Program.texts_ofSource`: the instructions of a source text are those of its trimmed parts.
- `SameButLayout`: source texts with the same lines, laid out in another way.
- `SameButLayout.texts_eq`: they have the same instructions, up to the numbers of the lines.
-/

namespace LineScript

/-- The texts of the instructions of a program. -/
def Program.texts (p : Program) : List String :=
  p.instructions.map Instruction.text

/-- The texts of the instructions among trimmed lines. -/
def executableTexts : Bool → List (List Char) → List String
  | _, [] => []
  | within, line :: rest =>
    if startsWith line beginMarker then executableTexts true rest
    else if startsWith line terminateMarker then []
    else if within && isExecutable line then
      String.ofList line :: executableTexts within rest
    else executableTexts within rest

/-- The parts of a source text between its line feeds. -/
def sourceParts (source : String) : List (List Char) :=
  Text.pieces (· = '\n') source.toList

/-! ### The ends of lines -/

namespace Text

theorem trim_concat_blank {c : Char} (hc : isBlank c = true) (t : List Char) :
    trim (t ++ [c]) = trim t := by
  have hend : ∀ u : List Char, trimEnd (u ++ [c]) = trimEnd u := by
    intro u
    rw [trimEnd, List.reverse_append, List.reverse_singleton, List.singleton_append,
      List.dropWhile_cons_of_pos hc, trimEnd]
  rw [trim, trim, trimStart, trimStart, List.dropWhile_append]
  split
  · next hempty =>
    rw [List.dropWhile_cons_of_pos hc, List.isEmpty_iff.1 hempty]
    rfl
  · exact hend _

theorem isBlank_return : isBlank '\r' = true := by decide

theorem trim_dropReturn (line : List Char) : trim (dropReturn line) = trim line := by
  rw [dropReturn]
  split
  · next hlast =>
    obtain ⟨t, rfl⟩ := List.getLast?_eq_some_iff.1 hlast
    rw [List.dropLast_concat, trim_concat_blank isBlank_return]
  · rfl

end Text

/-! ### The texts of a program -/

theorem executableTexts_cons {a b : List (List Char)}
    (h : ∀ within, executableTexts within a = executableTexts within b) (within : Bool)
    (line : List Char) :
    executableTexts within (line :: a) = executableTexts within (line :: b) := by
  simp only [executableTexts, h]

/-- The numbers of the lines play no part in which of them are executable. -/
theorem text_executableLines (within : Bool) (lines : List (List Char)) (number : Nat) :
    (executableLines within (lines.zipIdx number)).map Instruction.text =
      executableTexts within (lines.map Text.trim) := by
  induction lines generalizing within number with
  | nil => rfl
  | cons line lines ih =>
    rw [List.zipIdx_cons, List.map_cons]
    simp only [executableLines, executableTexts]
    split
    · exact ih _ _
    · split
      · rfl
      · split
        · rw [List.map_cons, ih]
        · exact ih _ _

/-- The ends of the lines play no part either. -/
theorem executableTexts_linesOfPieces (within : Bool) (parts : List (List Char)) :
    executableTexts within ((Text.linesOfPieces parts).map Text.trim) =
      executableTexts within (parts.map Text.trim) := by
  induction parts generalizing within with
  | nil => rfl
  | cons part parts ih =>
    cases parts with
    | nil =>
      rw [Text.linesOfPieces]
      split
      · next hempty =>
        -- after the last line feed there is nothing
        rw [List.isEmpty_iff.1 hempty]
        cases within <;> rfl
      · rfl
    | cons next parts =>
      rw [Text.linesOfPieces, List.map_cons, List.map_cons, Text.trim_dropReturn]
      exact executableTexts_cons ih within _

/-- The instructions of a source text are those among its trimmed parts. -/
theorem Program.texts_ofSource (source : String) :
    (Program.ofSource source).texts =
      executableTexts false ((sourceParts source).map Text.trim) := by
  rw [texts, ofSource, text_executableLines, Text.lines, executableTexts_linesOfPieces]
  rfl

/-- A blank line or a comment is no marker. -/
theorem startsWith_of_not_executable {line : List Char} (h : isExecutable line = false) :
    startsWith line beginMarker = false ∧ startsWith line terminateMarker = false := by
  cases line with
  | nil => exact ⟨rfl, rfl⟩
  | cons c rest =>
    have hcomment : startsWith (c :: rest) commentMarker = true := by
      simpa [isExecutable] using h
    obtain rfl : '/' = c := by
      have hfirst : ('/' == c && List.isPrefixOf ['/'] rest) = true := hcomment
      rw [Bool.and_eq_true] at hfirst
      exact eq_of_beq hfirst.1
    exact ⟨rfl, rfl⟩

/-- A blank line or a comment counts for nothing. -/
theorem executableTexts_insert {line : List Char} (h : isExecutable line = false) (within : Bool)
    (before after : List (List Char)) :
    executableTexts within (before ++ line :: after) =
      executableTexts within (before ++ after) := by
  induction before generalizing within with
  | nil =>
    obtain ⟨hbegin, hterminate⟩ := startsWith_of_not_executable h
    simp [executableTexts, hbegin, hterminate, h]
  | cons first before ih => exact executableTexts_cons ih within first

/-! ### Source texts that are laid out in another way -/

/-- The text with a carriage return before every line feed. -/
def withReturns (t : List Char) : List Char :=
  t.flatMap fun c => if c = '\n' then ['\r', '\n'] else [c]

/-- The parts with a carriage return at the end of each but the last. -/
def endWithReturns : List (List Char) → List (List Char)
  | [] => []
  | [last] => [last]
  | part :: next :: rest => (part ++ ['\r']) :: endWithReturns (next :: rest)

theorem pieces_withReturns (t : List Char) :
    Text.pieces (· = '\n') (withReturns t) = endWithReturns (Text.pieces (· = '\n') t) := by
  induction t with
  | nil => rfl
  | cons c t ih =>
    obtain ⟨part, parts, hparts⟩ := List.exists_cons_of_ne_nil (Text.pieces_ne_nil (· = '\n') t)
    rw [hparts] at ih
    rw [withReturns, List.flatMap_cons, ← withReturns]
    by_cases hc : c = '\n'
    · -- a line ends here
      subst hc
      show Text.pieces (· = '\n') ('\r' :: '\n' :: withReturns t) = _
      have hreturn : decide ('\r' = '\n') = false := by decide
      simp only [Text.pieces, decide_true, hreturn, ih, hparts]
      rfl
    · rw [if_neg hc]
      show Text.pieces (· = '\n') (c :: withReturns t) = _
      simp only [Text.pieces, decide_eq_false hc, ih, hparts]
      cases parts <;> rfl

theorem trim_endWithReturns (parts : List (List Char)) :
    (endWithReturns parts).map Text.trim = parts.map Text.trim := by
  induction parts with
  | nil => rfl
  | cons part parts ih =>
    cases parts with
    | nil => rfl
    | cons next parts =>
      rw [endWithReturns, List.map_cons, ih, Text.trim_concat_blank Text.isBlank_return]
      rfl

/-- Source texts that are laid out in another way. -/
inductive SameButLayout : String → String → Prop where
  /-- A blank line or a comment is inserted. -/
  | insert {source source' : String} {before after : List (List Char)} {line : List Char}
      (h : sourceParts source = before ++ after)
      (h' : sourceParts source' = before ++ line :: after)
      (hline : isExecutable (Text.trim line) = false) : SameButLayout source source'
  /-- The blanks around a line are others. -/
  | indent {source source' : String} {before after : List (List Char)} {line line' : List Char}
      (h : sourceParts source = before ++ line :: after)
      (h' : sourceParts source' = before ++ line' :: after)
      (hline : Text.trim line = Text.trim line') : SameButLayout source source'
  /-- The lines end with a carriage return and a line feed. -/
  | returns (source : String) :
      SameButLayout source (String.ofList (withReturns source.toList))
  /-- The change is undone. -/
  | symm {source source' : String} (h : SameButLayout source source') :
      SameButLayout source' source
  /-- There is more than one change. -/
  | trans {source source' source'' : String} (h : SameButLayout source source')
      (h' : SameButLayout source' source'') : SameButLayout source source''

/-- The layout of a source text does not change its instructions. -/
theorem SameButLayout.texts_eq {source source' : String} (h : SameButLayout source source') :
    (Program.ofSource source).texts = (Program.ofSource source').texts := by
  induction h with
  | insert h h' hline =>
    rw [Program.texts_ofSource, Program.texts_ofSource, h, h', List.map_append, List.map_append,
      List.map_cons, executableTexts_insert hline]
  | indent h h' hline =>
    rw [Program.texts_ofSource, Program.texts_ofSource, h, h', List.map_append, List.map_append,
      List.map_cons, List.map_cons, hline]
  | returns source =>
    rw [Program.texts_ofSource, Program.texts_ofSource, sourceParts, sourceParts,
      String.toList_ofList, pieces_withReturns, trim_endWithReturns]
  | symm _ ih => exact ih.symm
  | trans _ _ ih ih' => exact ih.trans ih'

end LineScript
