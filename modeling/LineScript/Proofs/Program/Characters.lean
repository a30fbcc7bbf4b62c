import LineScript.Machine.Operand
import LineScript.Expr.Evaluate
import LineScript.Program.Source
import LineScript.Proofs.Text.Blank
import Mathlib.Data.List.Basic

/-!
# The characters of a line

What a line is cut into has no characters but those of the line, and no line has a line
feed.

- `Text.trim_subset`, `cutAt_subset`, `arguments_subset`: parts of a text.
- `Instruction.operand_subset`, `stripKeyword?_subset`, `splitDeclaration_subset`,
  `splitAssignment_subset`: parts of a line.
- `Text.not_feed_of_mem_lines`, `Program.not_feed_of_ofSource`: lines have no line feed.
- `Text.pieces_ended`: lines that are ended by line feeds are found again.
-/

namespace LineScript

/-! ### Parts of a text -/

namespace Text

theorem trim_subset (t : List Char) : trim t ⊆ t := by
  obtain ⟨p, q, -, -, ht⟩ := exists_padding t
  intro c hc
  rw [ht]
  exact List.mem_append_left _ (List.mem_append_right _ hc)

theorem trimStart_subset (t : List Char) : trimStart t ⊆ t :=
  (List.dropWhile_sublist _).subset

theorem cutAt_subset {p : Char → Bool} {t s u : List Char} (h : cutAt p t = some (s, u)) :
    u ⊆ t := by
  rw [cutAt] at h
  split at h
  · cases h
  · next c rest hrest =>
    obtain ⟨-, rfl⟩ := Prod.mk.inj (Option.some.inj h)
    have hsub : c :: rest ⊆ t := hrest ▸ (List.dropWhile_sublist _).subset
    exact List.subset_of_cons_subset hsub

/-- A word has no blank. -/
theorem not_blank_of_mem_words {t w : List Char} (h : w ∈ words t) : ∀ c ∈ w, isBlank c = false :=
  not_sep_of_mem_pieces (List.mem_filter.1 h).1

theorem mem_finished {current arg : List Char} (h : arg ∈ finished current) :
    arg = current.reverse := by
  rw [finished] at h
  split at h
  · cases h
  · exact List.mem_singleton.1 h

/-- While arguments are read, they are made of the characters read before and those that
are left. -/
theorem argumentsFrom_subset {depth : Nat} {current : List Char} {t : List (Char × Bool)}
    {args : List (List Char)} (h : argumentsFrom depth current t = .ok args) :
    ∀ arg ∈ args, ∀ c ∈ arg, c ∈ current ∨ c ∈ t.map Prod.fst := by
  induction t generalizing depth current args with
  | nil =>
    rw [argumentsFrom] at h
    split at h
    · cases h
    · obtain rfl := Except.ok.inj h
      intro arg harg c hc
      rw [mem_finished harg] at hc
      exact .inl (List.mem_reverse.1 hc)
  | cons m t ih =>
    obtain ⟨d, outside⟩ := m
    -- the character joins the argument that is read
    have hjoin : ∀ {depth}, argumentsFrom depth (d :: current) t = .ok args →
        ∀ arg ∈ args, ∀ c ∈ arg, c ∈ current ∨ c ∈ d :: t.map Prod.fst := by
      intro depth h arg harg c hc
      rcases ih h arg harg c hc with hc | hc
      · rcases List.mem_cons.1 hc with rfl | hc
        · exact .inr List.mem_cons_self
        · exact .inl hc
      · exact .inr (List.mem_cons_of_mem d hc)
    rw [argumentsFrom] at h
    split at h
    · exact hjoin h
    · split at h
      · split at h
        · cases h
        · exact hjoin h
      · split at h
        · -- a blank ends the argument
          cases hrest : argumentsFrom 0 [] t with
          | error e =>
            rw [hrest] at h
            cases h
          | ok rest =>
            rw [hrest] at h
            obtain rfl := Except.ok.inj h
            intro arg harg c hc
            rcases List.mem_append.1 harg with harg | harg
            · rw [mem_finished harg] at hc
              exact .inl (List.mem_reverse.1 hc)
            · rcases ih hrest arg harg c hc with hc | hc
              · cases hc
              · exact .inr (List.mem_cons_of_mem d hc)
        · exact hjoin h

/-- An argument has the characters of the text only. -/
theorem arguments_subset {t : List Char} {args : List (List Char)} (h : arguments t = .ok args) :
    ∀ arg ∈ args, arg ⊆ t := by
  intro arg harg c hc
  rcases argumentsFrom_subset h arg harg c hc with hc | hc
  · cases hc
  · rwa [Quoted.map_fst_mark] at hc

end Text

theorem Expr.splitArguments_subset {t : List Char} {args : List (List Char)}
    (h : splitArguments t = .ok args) : ∀ arg ∈ args, arg ⊆ t := by
  rw [splitArguments] at h
  cases harguments : Text.arguments t with
  | error e =>
    rw [harguments] at h
    cases h
  | ok args' =>
    rw [harguments] at h
    obtain rfl := Except.ok.inj h
    exact Text.arguments_subset harguments

/-! ### Parts of a line -/

theorem Instruction.operand_subset (i : Instruction) : i.operand.toList ⊆ i.text.toList := by
  rw [operand, String.toList_ofList, operandChars]
  exact List.Subset.trans (Text.trim_subset _) (List.dropWhile_sublist _).subset

theorem stripKeyword?_subset {t rest : List Char} {keyword : String}
    (h : stripKeyword? t keyword = some rest) : rest ⊆ t := by
  rw [stripKeyword?] at h
  split at h
  · cases h
  · next after hafter =>
    split at h
    · obtain rfl := Option.some.inj h
      refine List.Subset.trans (Text.trim_subset _) ?_
      rw [← List.isPrefixOf?_eq_some_iff_append_eq.1 hafter]
      exact List.subset_append_right _ _
    · cases h

theorem splitDeclaration_subset (operand : List Char) : (splitDeclaration operand).2 ⊆ operand := by
  rw [splitDeclaration]
  split
  · next target value hcut => exact List.Subset.trans (Text.trim_subset _) (Text.cutAt_subset hcut)
  · exact List.nil_subset _

theorem splitAssignment_subset (operand : List Char) : (splitAssignment operand).2 ⊆ operand := by
  rw [splitAssignment]
  split
  · exact List.nil_subset _
  · next target rest hcut =>
    have hrest := List.Subset.trans (Text.trimStart_subset rest) (Text.cutAt_subset hcut)
    split
    · next value hvalue =>
      rw [hvalue] at hrest
      dsimp only
      split
      · exact List.Subset.trans (Text.trimStart_subset _) (List.subset_of_cons_subset hrest)
      · exact hrest
    · exact hrest

/-! ### Lines and line feeds -/

namespace Text

theorem not_feed_of_mem_linesOfPieces {parts : List (List Char)}
    (h : ∀ part ∈ parts, '\n' ∉ part) : ∀ line ∈ linesOfPieces parts, '\n' ∉ line := by
  induction parts with
  | nil => exact nofun
  | cons part parts ih =>
    cases parts with
    | nil =>
      rw [linesOfPieces]
      split
      · exact nofun
      · exact h
    | cons next rest =>
      rw [linesOfPieces]
      intro line hline
      rcases List.mem_cons.1 hline with rfl | hline
      · have hpart : dropReturn part ⊆ part := by
          rw [dropReturn]
          split
          · exact List.dropLast_subset part
          · exact List.Subset.refl part
        exact fun hfeed => h part List.mem_cons_self (hpart hfeed)
      · exact ih (fun p hp => h p (List.mem_cons_of_mem _ hp)) line hline

/-- A line of a text has no line feed. -/
theorem not_feed_of_mem_lines {t line : List Char} (h : line ∈ lines t) : '\n' ∉ line := by
  refine not_feed_of_mem_linesOfPieces (fun part hpart hfeed => ?_) line h
  exact absurd (not_sep_of_mem_pieces hpart _ hfeed) (by decide)

/-- Texts without a line feed that are each ended by one are the parts between the line
feeds, and nothing comes after the last one. -/
theorem pieces_ended {parts : List (List Char)} (h : ∀ part ∈ parts, '\n' ∉ part) :
    pieces (· = '\n') (parts.flatMap (· ++ ['\n'])) = parts ++ [[]] := by
  have hpart : ∀ part : List Char, '\n' ∉ part → ∀ rest : List Char,
      pieces (· = '\n') (part ++ '\n' :: rest) = part :: pieces (· = '\n') rest := by
    intro part hpart rest
    induction part with
    | nil => simp [pieces]
    | cons c part ih =>
      rw [List.mem_cons, not_or] at hpart
      rw [List.cons_append, pieces, ih hpart.2]
      simp [Ne.symm hpart.1]
  induction parts with
  | nil => rfl
  | cons part parts ih =>
    rw [List.flatMap_cons, List.append_assoc, List.singleton_append,
      hpart part (h part List.mem_cons_self), ih fun p hp => h p (List.mem_cons_of_mem _ hp)]
    rfl

end Text

/-- No instruction of a program has a line feed. -/
theorem not_feed_of_executableLines {within : Bool} {lines : List (List Char × Nat)}
    (h : ∀ line ∈ lines, '\n' ∉ line.1) :
    ∀ i ∈ executableLines within lines, '\n' ∉ i.text.toList := by
  induction lines generalizing within with
  | nil => exact nofun
  | cons line lines ih =>
    obtain ⟨raw, number⟩ := line
    have hrest := fun within => @ih within fun line hline => h line (List.mem_cons_of_mem _ hline)
    rw [executableLines]
    split
    · exact hrest true
    · split
      · exact nofun
      · split
        · intro i hi
          rcases List.mem_cons.1 hi with rfl | hi
          · rw [String.toList_ofList]
            exact fun hfeed => h (raw, number) List.mem_cons_self (Text.trim_subset raw hfeed)
          · exact hrest within i hi
        · exact hrest within

theorem Program.not_feed_of_ofSource (source : String) :
    ∀ i ∈ (Program.ofSource source).instructions, '\n' ∉ i.text.toList := by
  refine not_feed_of_executableLines fun line hline => ?_
  exact Text.not_feed_of_mem_lines (List.fst_mem_of_mem_zipIdx hline)

end LineScript
