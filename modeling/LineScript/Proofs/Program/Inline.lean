import LineScript.Proofs.Program.Structured
import LineScript.Proofs.Text.Blank

/-!
# Functions defined where they are called

Two readers decide whether a line calls a function that it defines itself. The
scan for blocks looks at the parentheses at the start of the operand, and the call
at the first argument. They see the same as long as the first argument is one
group in the eyes of the scan. A parenthesis in a literal and text right behind
the group make them differ.

- `Instruction.callsInline`: what the call does with a line.
- `definesInline_eq_callsInline`: when the two agree.
- `definesInline_ne_callsInline`: two lines on which they do not.
-/

namespace LineScript

/-- Whether the call that a line makes takes its first argument for the
definition of the function. -/
def Instruction.callsInline (i : Instruction) : Bool :=
  match i.callOperand?.map Expr.splitArguments with
  | some (.ok (callee :: _)) => (inlineHeader? callee).isSome
  | _ => false

section

variable {i : Instruction} {operand callee : List Char} {args : List (List Char)}

theorem Instruction.callsInline_of_arguments (hcall : i.callOperand? = some operand)
    (hargs : Expr.splitArguments operand = .ok (callee :: args)) :
    i.callsInline = (inlineHeader? callee).isSome := by
  simp [callsInline, hcall, hargs]

/-- The operand of a call starts with no blank. -/
theorem Instruction.startsBlank_callOperand? (h : i.callOperand? = some operand) :
    Text.startsBlank operand = false := by
  rw [callOperand?] at h
  split at h
  · exact Option.some.inj h ▸ Text.startsBlank_trim _
  · split at h
    · split at h
      · rw [stripKeyword?] at h
        split at h
        · cases h
        · split at h
          · exact Option.some.inj h ▸ Text.startsBlank_trim _
          · cases h
      · cases h
    · cases h

end

/-! ### The first argument -/

namespace Text

/-- An argument that has begun goes on with the next characters. -/
theorem head?_argumentsFrom {marked : List (Char × Bool)} {depth : Nat} {current : List Char}
    {args : List (List Char)} (hcurrent : current ≠ [])
    (h : argumentsFrom depth current marked = .ok args) :
    ∃ first, first <+: marked.map Prod.fst ∧ args.head? = some (current.reverse ++ first) := by
  have hfinished : ∀ more : List (List Char),
      (finished current ++ more).head? = some (current.reverse ++ []) := by
    intro more
    simp [finished, hcurrent]
  induction marked generalizing depth current args with
  | nil =>
    rw [argumentsFrom] at h
    split at h
    · cases h
    · obtain rfl := Except.ok.inj h
      exact ⟨[], List.prefix_refl _, by simpa using hfinished []⟩
  | cons m marked ih =>
    obtain ⟨c, outside⟩ := m
    -- a character of the argument
    have hmore : ∀ {depth}, argumentsFrom depth (c :: current) marked = .ok args →
        ∃ first, first <+: ((c, outside) :: marked).map Prod.fst ∧
          args.head? = some (current.reverse ++ first) := by
      intro depth h
      obtain ⟨first, hfirst, hhead⟩ := ih (List.cons_ne_nil c current) h (by simp [finished])
      exact ⟨c :: first, by simpa using hfirst, by simpa using hhead⟩
    rw [argumentsFrom] at h
    split at h
    · exact hmore h
    · split at h
      · split at h
        · cases h
        · exact hmore h
      · split at h
        · cases hrest : argumentsFrom 0 [] marked with
          | error e =>
            rw [hrest] at h
            cases h
          | ok more =>
            rw [hrest] at h
            obtain rfl := Except.ok.inj h
            exact ⟨[], List.nil_prefix, hfinished more⟩
        · exact hmore h

/-- A text that starts with no blank starts with its first argument. -/
theorem prefix_of_arguments {t first : List Char} {args : List (List Char)}
    (ht : startsBlank t = false) (h : arguments t = .ok (first :: args)) :
    first <+: t ∧ first.head? = t.head? := by
  cases t with
  | nil => cases h
  | cons c t =>
    have hbegun : ∀ {depth}, argumentsFrom depth [c] (Quoted.mark (Quoted.State.outside.next c) t) =
        .ok (first :: args) → first <+: c :: t ∧ first.head? = (c :: t).head? := by
      intro depth h
      obtain ⟨more, hmore, hhead⟩ := head?_argumentsFrom (List.cons_ne_nil c []) h
      obtain rfl := Option.some.inj hhead
      rw [Quoted.map_fst_mark] at hmore
      exact ⟨by simpa using hmore, rfl⟩
    rw [startsBlank] at ht
    rw [arguments, Quoted.mark, argumentsFrom] at h
    split at h
    · exact hbegun h
    · split at h
      · cases h
      · split at h
        · next hblank => simp [ht] at hblank
        · exact hbegun h

end Text

/-! ### The leading group -/

/-- The group that a text starts with is there with any text behind it. -/
theorem closingGroup?_append {t group : List Char} {depth : Nat}
    (h : closingGroup? depth t = some group) (rest : List Char) :
    closingGroup? depth (t ++ rest) = some group := by
  induction t generalizing depth group with
  | nil => cases h
  | cons c t ih =>
    rw [closingGroup?] at h
    rw [List.cons_append, closingGroup?]
    split at h
    · next hopen =>
      obtain ⟨more, hmore, rfl⟩ := Option.map_eq_some_iff.1 h
      rw [if_pos hopen, ih hmore]
      rfl
    · next hopen =>
      rw [if_neg hopen]
      split at h
      · next hclose =>
        rw [if_pos hclose]
        split at h
        · next hlast => rwa [if_pos hlast]
        · next hlast =>
          obtain ⟨more, hmore, rfl⟩ := Option.map_eq_some_iff.1 h
          rw [if_neg hlast, ih hmore]
          rfl
      · next hclose =>
        obtain ⟨more, hmore, rfl⟩ := Option.map_eq_some_iff.1 h
        rw [if_neg hclose, ih hmore]
        rfl

theorem leadingGroup?_append {t group : List Char} (h : leadingGroup? t = some group)
    (rest : List Char) : leadingGroup? (t ++ rest) = some group := by
  rw [leadingGroup?.eq_def] at h
  split at h
  · obtain ⟨more, hmore, rfl⟩ := Option.map_eq_some_iff.1 h
    rw [List.cons_append, leadingGroup?, closingGroup?_append hmore]
    rfl
  · cases h

/-! ### The two readers -/

/-- The scan for blocks and the call agree about a line whose first argument is
not in parentheses, or is one group that the scan sees end where the argument
ends. -/
theorem definesInline_eq_callsInline {i : Instruction} {operand callee : List Char}
    {args : List (List Char)} (hcall : i.callOperand? = some operand)
    (hargs : Expr.splitArguments operand = .ok (callee :: args))
    (hgroup : callee.head? = some '(' → leadingGroup? callee = some callee) :
    i.definesInline = i.callsInline := by
  have harguments : Text.arguments operand = .ok (callee :: args) := by
    rw [Expr.splitArguments] at hargs
    cases h : Text.arguments operand with
    | error e =>
      rw [h] at hargs
      cases hargs
    | ok as =>
      rw [h] at hargs
      exact congrArg _ (Except.ok.inj hargs)
  obtain ⟨⟨rest, rfl⟩, hhead⟩ :=
    Text.prefix_of_arguments (Instruction.startsBlank_callOperand? hcall) harguments
  rw [Instruction.callsInline_of_arguments hcall hargs, Instruction.definesInline, hcall,
    Option.bind_some]
  by_cases hopen : callee.head? = some '('
  · rw [leadingGroup?_append (hgroup hopen), Option.bind_some]
  · -- neither the operand nor the argument starts with a parenthesis
    have hnone : ∀ {t : List Char}, t.head? ≠ some '(' →
        leadingGroup? t = none ∧ inlineHeader? t = none := by
      intro t ht
      cases t with
      | nil => exact ⟨rfl, rfl⟩
      | cons c t =>
        have hc : c ≠ '(' := fun h => ht (congrArg some h)
        exact ⟨leadingGroup?.eq_2 _ (fun _ h => hc (List.cons.inj h).1),
          inlineHeader?.eq_2 _ (fun _ h => hc (List.cons.inj h).1)⟩
    rw [(hnone (hhead ▸ hopen)).1, (hnone hopen).2]
    rfl

/-- A call of a function that the line defines, with blanks and parentheses in
its arguments. -/
theorem definesInline_eq_callsInline_twice :
    (Instruction.mk "DECLARE r = CALL (FUNC twice n) (1 + 2)" 1).callOperand? =
        some "(FUNC twice n) (1 + 2)".toList ∧
    Expr.splitArguments "(FUNC twice n) (1 + 2)".toList =
        .ok ["(FUNC twice n)".toList, "(1 + 2)".toList] ∧
    leadingGroup? "(FUNC twice n)".toList = some "(FUNC twice n)".toList ∧
    (Instruction.mk "DECLARE r = CALL (FUNC twice n) (1 + 2)" 1).definesInline =
      (Instruction.mk "DECLARE r = CALL (FUNC twice n) (1 + 2)" 1).callsInline :=
  ⟨rfl, rfl, rfl, definesInline_eq_callsInline rfl rfl fun _ => rfl⟩

/-- The scan for blocks and the call do not agree about all lines. The scan counts
a parenthesis in a literal, and so misses a definition that the call sees; and it
stops at the end of the group, and so sees a definition where the call sees a
name. -/
theorem definesInline_ne_callsInline :
    Expr.splitArguments "(FUNC _ \"(\") 1".toList = .ok ["(FUNC _ \"(\")".toList, ['1']] ∧
    (Instruction.mk "CALL (FUNC _ \"(\") 1" 1).definesInline = false ∧
    (Instruction.mk "CALL (FUNC _ \"(\") 1" 1).callsInline = true ∧
    Expr.splitArguments "(FUNC _ a)b".toList = .ok ["(FUNC _ a)b".toList] ∧
    (Instruction.mk "CALL (FUNC _ a)b" 1).definesInline = true ∧
    (Instruction.mk "CALL (FUNC _ a)b" 1).callsInline = false :=
  ⟨rfl, rfl, rfl, rfl, rfl, rfl⟩

end LineScript
