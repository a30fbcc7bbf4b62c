import LineScript.Proofs.Program.Region
import Mathlib.Data.List.Basic
import Mathlib.Data.String.Basic

/-!
# What is extracted from a source text

The instructions of a source text are exactly the instruction texts of its executable region,
each with the number of its line. They can be put into a source text of their own, which has
the same instructions again.

- `IsInstructionText`, `OpenBehind`: which lines are instructions.
- `mem_executableLines`: the reading of numbered lines keeps exactly those.
- `sublist_executableLines`: their numbers come in the order of the lines.
- `Program.ofSource_withReturns`: how a line's end is written does not matter, also to its
  number.
- `Program.texts_rejoined`: instruction texts behind a begin marker are read again.
- `Program.ofSource_exact`: the extraction as a whole.
-/

namespace LineScript

/-! ### Lines that are instructions -/

/-- A line that opens the executable region. -/
def OpensRegion (line : List Char) : Prop :=
  beginMarker.toList <+: Text.trim line

/-- A line that closes the executable region. -/
def ClosesRegion (line : List Char) : Prop :=
  terminateMarker.toList <+: Text.trim line

/-- A line without blanks around it that is an instruction, if it stands in the executable
region. -/
structure IsInstructionText (text : List Char) : Prop where
  ne_nil : text ≠ []
  no_feed : '\n' ∉ text
  no_comment : ¬ commentMarker.toList <+: text
  no_begin : ¬ beginMarker.toList <+: text
  no_terminate : ¬ terminateMarker.toList <+: text

/-- The executable region is open behind some lines: one of them opens it, and none of them
closes it. -/
structure OpenBehind (before : List (List Char)) : Prop where
  opened : ∃ line ∈ before, OpensRegion line
  not_closed : ∀ line ∈ before, ¬ ClosesRegion line

theorem startsWith_iff {line : List Char} {marker : String} :
    startsWith line marker = true ↔ marker.toList <+: line :=
  List.isPrefixOf_iff_prefix

theorem isExecutable_iff {line : List Char} :
    isExecutable line = true ↔ line ≠ [] ∧ ¬ commentMarker.toList <+: line := by
  rw [isExecutable, Bool.and_eq_true, Bool.not_eq_true', Bool.not_eq_true',
    ← Bool.not_eq_true, ← Bool.not_eq_true, List.isEmpty_iff, startsWith_iff]

/-- No line starts with both markers. -/
theorem OpensRegion.not_closes {line : List Char} (hopens : OpensRegion line) :
    ¬ ClosesRegion line := by
  intro hcloses
  have hmarkers := List.prefix_of_prefix_length_le hopens hcloses (by decide)
  exact absurd hmarkers (by decide)

/-- Trimming adds no characters. -/
theorem Text.mem_of_mem_trim {c : Char} {t : List Char} (h : c ∈ Text.trim t) : c ∈ t := by
  obtain ⟨p, q, -, -, heq⟩ := Text.exists_padding t
  rw [heq]
  exact List.mem_append_left q (List.mem_append_right p h)

theorem isInstructionText_iff {line : List Char} (hfeed : '\n' ∉ line)
    (hopens : ¬ OpensRegion line) (hcloses : ¬ ClosesRegion line) :
    IsInstructionText (Text.trim line) ↔ isExecutable (Text.trim line) = true := by
  rw [isExecutable_iff]
  constructor
  · intro h
    exact ⟨h.ne_nil, h.no_comment⟩
  · rintro ⟨hne, hcomment⟩
    exact ⟨hne, fun hmem => hfeed (Text.mem_of_mem_trim hmem), hcomment, hopens, hcloses⟩

/-! ### Reading numbered lines -/

section

variable {within : Bool} {line : List Char} {n : Nat} {rest : List (List Char × Nat)}

theorem executableLines_of_opens (h : OpensRegion line) :
    executableLines within ((line, n) :: rest) = executableLines true rest := by
  rw [executableLines]
  exact if_pos (startsWith_iff.2 h)

theorem executableLines_of_closes (h : ClosesRegion line) :
    executableLines within ((line, n) :: rest) = [] := by
  have hopens : ¬ OpensRegion line := fun hopens => hopens.not_closes h
  rw [executableLines]
  exact (if_neg (mt startsWith_iff.1 hopens)).trans (if_pos (startsWith_iff.2 h))

theorem executableLines_of_plain (hopens : ¬ OpensRegion line) (hcloses : ¬ ClosesRegion line) :
    executableLines within ((line, n) :: rest) =
      if within && isExecutable (Text.trim line) then
        ⟨String.ofList (Text.trim line), min n lastLine⟩ :: executableLines within rest
      else executableLines within rest := by
  rw [executableLines]
  exact (if_neg (mt startsWith_iff.1 hopens)).trans (if_neg (mt startsWith_iff.1 hcloses))

end

/-- A line of a text is its first line or a later one. -/
theorem exists_line_cons {P : List (List Char) → List Char → Prop} {first : List Char}
    {lines : List (List Char)} :
    (∃ before line after, first :: lines = before ++ line :: after ∧ P before line) ↔
      P [] first ∨
        ∃ before line after, lines = before ++ line :: after ∧ P (first :: before) line := by
  constructor
  · rintro ⟨before, line, after, heq, h⟩
    cases before with
    | nil =>
      cases heq
      exact .inl h
    | cons _ before =>
      cases heq
      exact .inr ⟨before, line, after, rfl, h⟩
  · rintro (h | ⟨before, line, after, rfl, h⟩)
    · exact ⟨[], first, lines, rfl, h⟩
    · exact ⟨first :: before, line, after, rfl, h⟩

/-- The reading keeps exactly the instruction texts in the region, each with its number. -/
theorem mem_executableLines {within : Bool} {lines : List (List Char)} {n : Nat}
    (hfeed : ∀ line ∈ lines, '\n' ∉ line) {i : Instruction} :
    i ∈ executableLines within (lines.zipIdx n) ↔
      ∃ before line after, lines = before ++ line :: after ∧
        i = ⟨String.ofList (Text.trim line), min (n + before.length) lastLine⟩ ∧
        IsInstructionText (Text.trim line) ∧ (within = true ∨ ∃ line ∈ before, OpensRegion line) ∧
        ∀ line ∈ before, ¬ ClosesRegion line := by
  -- the first line decides how the others are read
  induction lines generalizing within n with
  | nil => simp [executableLines]
  | cons first lines ih =>
    have hrest := fun line hline => hfeed line (List.mem_cons_of_mem first hline)
    have hnumber (before : List (List Char)) :
        n + (first :: before).length = n + 1 + before.length := by
      rw [List.length_cons]
      omega
    rw [List.zipIdx_cons, exists_line_cons]
    simp only [List.forall_mem_cons, List.exists_mem_cons_iff, hnumber]
    by_cases hopens : OpensRegion first
    · have hfirst : ¬ IsInstructionText (Text.trim first) := fun h => h.no_begin hopens
      rw [executableLines_of_opens hopens, ih hrest]
      simp [hfirst, hopens, hopens.not_closes]
    by_cases hcloses : ClosesRegion first
    · have hfirst : ¬ IsInstructionText (Text.trim first) := fun h => h.no_terminate hcloses
      rw [executableLines_of_closes hcloses]
      simp [hfirst, hcloses]
    have hfirst := isInstructionText_iff (hfeed first List.mem_cons_self) hopens hcloses
    rw [executableLines_of_plain hopens hcloses]
    split
    · next hkept =>
      rw [Bool.and_eq_true, ← hfirst] at hkept
      rw [List.mem_cons, ih hrest]
      simp [hkept, hopens, hcloses]
    · next hkept =>
      rw [Bool.and_eq_true, ← hfirst] at hkept
      rw [ih hrest, or_iff_right fun hhere => hkept ⟨?_, hhere.2.1⟩]
      · simp [hopens, hcloses]
      · simpa using hhere.2.2.1

/-- The numbers of the instructions are among those of the lines, in their order. -/
theorem sublist_executableLines (within : Bool) (lines : List (List Char)) (n : Nat) :
    ((executableLines within (lines.zipIdx n)).map Instruction.line).Sublist
      ((List.range' n lines.length).map (min · lastLine)) := by
  induction lines generalizing within n with
  | nil => exact List.Sublist.slnil
  | cons line lines ih =>
    rw [List.zipIdx_cons, List.length_cons, List.range'_succ, List.map_cons]
    by_cases hopens : OpensRegion line
    · rw [executableLines_of_opens hopens]
      exact (ih true (n + 1)).cons _
    by_cases hcloses : ClosesRegion line
    · rw [executableLines_of_closes hcloses]
      exact List.nil_sublist _
    rw [executableLines_of_plain hopens hcloses]
    split
    · exact (ih within (n + 1)).cons_cons _
    · exact (ih within (n + 1)).cons _

/-- Numbers that fit are not cut off, so the numbers of the instructions increase. -/
theorem pairwise_executableLines (within : Bool) {lines : List (List Char)} {n : Nat}
    (hn : n + lines.length ≤ lastLine + 1) :
    ((executableLines within (lines.zipIdx n)).map Instruction.line).Pairwise (· < ·) := by
  refine List.Pairwise.sublist (sublist_executableLines within lines n) ?_
  have hfit : (List.range' n lines.length).map (min · lastLine) = List.range' n lines.length := by
    refine (List.map_congr_left fun k hk => ?_).trans (List.map_id _)
    rw [List.mem_range'_1] at hk
    exact min_eq_left (by omega)
  rw [hfit]
  exact List.pairwise_lt_range'

/-- Only the trimmed lines matter to the instructions and their numbers. -/
theorem executableLines_congr {lines lines' : List (List Char)}
    (h : lines.map Text.trim = lines'.map Text.trim) (within : Bool) (n : Nat) :
    executableLines within (lines.zipIdx n) = executableLines within (lines'.zipIdx n) := by
  induction lines generalizing lines' within n with
  | nil =>
    obtain rfl : lines' = [] := List.map_eq_nil_iff.1 h.symm
    rfl
  | cons line lines ih =>
    obtain ⟨line', lines', rfl, hline, hlines⟩ := List.map_eq_cons_iff.1 h.symm
    rw [List.zipIdx_cons, List.zipIdx_cons]
    simp only [executableLines, hline, ih hlines.symm]

/-! ### The lines of a text -/

/-- A line holds no line feed. -/
theorem Text.no_feed_of_mem_lines {t line : List Char} (h : line ∈ Text.lines t) :
    '\n' ∉ line := by
  have hparts : ∀ parts : List (List Char), ∀ line ∈ Text.linesOfPieces parts,
      ∃ part ∈ parts, line ⊆ part := by
    intro parts
    induction parts with
    | nil => exact fun _ hline => absurd hline List.not_mem_nil
    | cons part parts ih =>
      intro line hline
      cases parts with
      | nil =>
        rw [Text.linesOfPieces] at hline
        split at hline
        · exact absurd hline List.not_mem_nil
        · obtain rfl := List.mem_singleton.1 hline
          exact ⟨line, List.mem_cons_self, List.Subset.refl line⟩
      | cons next parts =>
        rw [Text.linesOfPieces, List.mem_cons] at hline
        obtain rfl | hline := hline
        · refine ⟨part, List.mem_cons_self, ?_⟩
          rw [Text.dropReturn]
          split
          · exact List.dropLast_subset part
          · exact List.Subset.refl part
        · obtain ⟨part', hpart', hsub⟩ := ih line hline
          exact ⟨part', List.mem_cons_of_mem part hpart', hsub⟩
  obtain ⟨part, hpart, hsub⟩ := hparts _ line h
  intro hfeed
  simpa using Text.not_sep_of_mem_pieces hpart '\n' (hsub hfeed)

/-- Carriage returns at the ends of the lines are trimmed away. -/
theorem Text.trim_linesOfPieces_endWithReturns (parts : List (List Char)) :
    (Text.linesOfPieces (endWithReturns parts)).map Text.trim =
      (Text.linesOfPieces parts).map Text.trim := by
  induction parts with
  | nil => rfl
  | cons part parts ih =>
    cases parts with
    | nil => rfl
    | cons next parts =>
      have hends : endWithReturns (next :: parts) ≠ [] := by
        cases parts <;> simp [endWithReturns]
      obtain ⟨next', parts', hparts'⟩ := List.exists_cons_of_ne_nil hends
      rw [endWithReturns, hparts', Text.linesOfPieces, ← hparts', Text.linesOfPieces,
        List.map_cons, List.map_cons, ih, Text.trim_dropReturn, Text.trim_dropReturn,
        Text.trim_concat_blank Text.isBlank_return]

/-- How the ends of the lines are written does not matter to the instructions and their
numbers. -/
theorem Program.ofSource_withReturns (source : String) :
    ofSource (String.ofList (withReturns source.toList)) = ofSource source := by
  have hlines : (Text.lines (withReturns source.toList)).map Text.trim =
      (Text.lines source.toList).map Text.trim := by
    rw [Text.lines, pieces_withReturns, Text.trim_linesOfPieces_endWithReturns, Text.lines]
  rw [ofSource, ofSource, String.toList_ofList, executableLines_congr hlines]

/-! ### Instruction texts in a source text of their own -/

/-- The parts of joined lines are the lines. -/
theorem Text.pieces_intercalate {parts : List (List Char)} (hne : parts ≠ [])
    (h : ∀ part ∈ parts, '\n' ∉ part) :
    Text.pieces (· = '\n') (['\n'].intercalate parts) = parts := by
  induction parts with
  | nil => exact absurd rfl hne
  | cons part parts ih =>
    have hpart : Text.pieces (· = '\n') part = [part] := by
      refine Text.pieces_of_forall fun c hc => decide_eq_false ?_
      rintro rfl
      exact h part List.mem_cons_self hc
    cases parts with
    | nil => rw [List.intercalate_singleton, hpart]
    | cons next parts =>
      rw [List.intercalate_cons_cons, List.append_assoc, List.singleton_append,
        Text.pieces_append_cons (by decide), hpart,
        ih (List.cons_ne_nil _ _) fun line hline => h line (List.mem_cons_of_mem part hline)]
      rfl

/-- Instruction texts are read as they are, once the region is open. -/
theorem executableTexts_of_forall {texts : List (List Char)}
    (h : ∀ text ∈ texts, IsInstructionText text) :
    executableTexts true texts = texts.map String.ofList := by
  induction texts with
  | nil => rfl
  | cons text texts ih =>
    have htext := h text List.mem_cons_self
    have hexecutable := isExecutable_iff.2 ⟨htext.ne_nil, htext.no_comment⟩
    rw [executableTexts, if_neg (mt startsWith_iff.1 htext.no_begin),
      if_neg (mt startsWith_iff.1 htext.no_terminate), hexecutable,
      ih fun line hline => h line (List.mem_cons_of_mem text hline)]
    rfl

/-- Instruction texts without blanks around them, joined behind a begin marker, are read
again. -/
theorem Program.texts_rejoined {texts : List String}
    (h : ∀ text ∈ texts, IsInstructionText text.toList ∧ Text.trim text.toList = text.toList) :
    (ofSource (String.intercalate "\n" (beginMarker :: texts))).texts = texts := by
  have hparts : sourceParts (String.intercalate "\n" (beginMarker :: texts)) =
      beginMarker.toList :: texts.map String.toList := by
    rw [sourceParts, String.toList_intercalate]
    refine Text.pieces_intercalate (List.cons_ne_nil _ _) fun part hpart => ?_
    rw [List.map_cons, List.mem_cons, List.mem_map] at hpart
    obtain rfl | ⟨text, htext, rfl⟩ := hpart
    · decide
    · exact (h text htext).1.no_feed
  have htrim : (texts.map String.toList).map Text.trim = texts.map String.toList := by
    rw [List.map_map]
    exact List.map_congr_left fun text htext => (h text htext).2
  have hbegin : startsWith (Text.trim beginMarker.toList) beginMarker = true := by decide
  have hall : ∀ text ∈ texts.map String.toList, IsInstructionText text := by
    intro text htext
    obtain ⟨text, hmem, rfl⟩ := List.mem_map.1 htext
    exact (h text hmem).1
  rw [texts_ofSource, hparts, List.map_cons, executableTexts, if_pos hbegin, htrim,
    executableTexts_of_forall hall, List.map_map]
  exact (List.map_congr_left fun text _ => String.ofList_toList).trans (List.map_id _)

/-! ### The extraction as a whole -/

/-- The instructions of a source text are the instruction texts of its executable region, with
the numbers of their lines. -/
theorem Program.mem_ofSource {source : String}
    (hlines : (Text.lines source.toList).length < 2 ^ 32) {i : Instruction} :
    i ∈ (ofSource source).instructions ↔
      ∃ before line after, Text.lines source.toList = before ++ line :: after ∧
        i = ⟨String.ofList (Text.trim line), before.length + 1⟩ ∧
        IsInstructionText (Text.trim line) ∧ OpenBehind before := by
  rw [ofSource, mem_executableLines fun line => Text.no_feed_of_mem_lines]
  have hnumber {before after : List (List Char)} {line : List Char}
      (h : Text.lines source.toList = before ++ line :: after) :
      min (1 + before.length) lastLine = before.length + 1 := by
    rw [h, List.length_append, List.length_cons] at hlines
    rw [lastLine]
    omega
  constructor
  · rintro ⟨before, line, after, heq, rfl, htext, hopened, hclosed⟩
    rw [hnumber heq]
    exact ⟨before, line, after, heq, rfl, htext, hopened.resolve_left (by decide), hclosed⟩
  · rintro ⟨before, line, after, heq, rfl, htext, hregion⟩
    rw [← hnumber heq]
    exact ⟨before, line, after, heq, rfl, htext, .inr hregion.opened, hregion.not_closed⟩

/-- **The extraction is exact, and it can be repeated.** For a source text with less than 2^32
lines, the numbers of the instructions increase; the instructions are exactly the instruction
texts of the executable region, each with the number of its line; joined behind a begin
marker they are read again; and line ends with a carriage return change nothing. -/
theorem Program.ofSource_exact (source : String)
    (hlines : (Text.lines source.toList).length < 2 ^ 32) :
    ((ofSource source).instructions.map Instruction.line).Pairwise (· < ·) ∧
      (∀ i, i ∈ (ofSource source).instructions ↔
        ∃ before line after, Text.lines source.toList = before ++ line :: after ∧
          i = ⟨String.ofList (Text.trim line), before.length + 1⟩ ∧
          IsInstructionText (Text.trim line) ∧ OpenBehind before) ∧
      (ofSource (String.intercalate "\n" (beginMarker :: (ofSource source).texts))).texts =
        (ofSource source).texts ∧
      ofSource (String.ofList (withReturns source.toList)) = ofSource source := by
  refine ⟨?_, fun i => mem_ofSource hlines, ?_, ofSource_withReturns source⟩
  · refine pairwise_executableLines false ?_
    rw [lastLine]
    omega
  · refine texts_rejoined fun text htext => ?_
    rw [texts, List.mem_map] at htext
    obtain ⟨i, hi, rfl⟩ := htext
    obtain ⟨before, line, after, -, rfl, hline, -⟩ := (mem_ofSource hlines).1 hi
    rw [String.toList_ofList]
    exact ⟨hline, Text.trim_trim line⟩

/-- A source text with a title, a begin marker with a remark behind it, a comment, a blank
line, and text behind the terminate marker. -/
def decoratedSource : String :=
  "Sums\n\t%-- BEGIN EXECUTION --% (once)\n// start\n  DECLARE x = 1\r\n\n STD::OUT x \n" ++
    "%-- TERMINATE EXECUTION --%\nSTD::OUT 2"

/-- Its two instructions are read again, and so they are with other line ends. -/
theorem Program.decoratedSource_exact :
    (Text.lines decoratedSource.toList).length < 2 ^ 32 ∧
      (ofSource decoratedSource).instructions = [⟨"DECLARE x = 1", 4⟩, ⟨"STD::OUT x", 6⟩] ∧
      (ofSource (String.intercalate "\n"
        (beginMarker :: (ofSource decoratedSource).texts))).texts =
          ["DECLARE x = 1", "STD::OUT x"] ∧
      ofSource (String.ofList (withReturns decoratedSource.toList)) =
        ofSource decoratedSource := by
  have hlines : (Text.lines decoratedSource.toList).length < 2 ^ 32 := by decide +kernel
  obtain ⟨-, -, hrejoined, hreturns⟩ := Program.ofSource_exact decoratedSource hlines
  refine ⟨hlines, by decide +kernel, ?_, hreturns⟩
  rw [hrejoined]
  decide +kernel

end LineScript
