import LineScript.Proofs.Text.Blank
import LineScript.Proofs.Text.Parentheses
import LineScript.Text.Arguments

/-!
# Reading arguments

- `argumentsFrom_cons`, `argumentsFrom_closing`, `argumentsFrom_blank`: what one character does.
- `argumentsFrom_inside`: blanks inside parentheses separate nothing.
- `Argument`: a text that is read as one argument: a word (`Argument.word`), or a
  whole text in parentheses (`Argument.group`).
- `arguments_single`, `arguments_argument`: an argument is read before the end of the text and
  before a blank.
- `arguments_separated`: arguments with spaces between them are read as they were
  written.
-/

namespace LineScript

namespace Text

/-! ### One more character -/

/-- A character that does not separate belongs to the argument. -/
theorem argumentsFrom_cons {depth d : Nat} {m : Char × Bool} (hnext : nextOpen? depth m = some d)
    (hjoins : (m.2 && isBlank m.1 && depth = 0) = false) (current : List Char)
    (rest : List (Char × Bool)) :
    argumentsFrom depth current (m :: rest) = argumentsFrom d (m.1 :: current) rest := by
  rw [argumentsFrom]
  -- the character opens a parenthesis, closes one, or does neither
  rw [nextOpen?] at hnext
  split at hnext
  · next hopen =>
    obtain rfl := Option.some.inj hnext
    rw [if_pos hopen]
  · next hopen =>
    rw [if_neg hopen]
    split at hnext
    · next hclose =>
      split at hnext
      · cases hnext
      · next hpositive =>
        obtain rfl := Option.some.inj hnext
        rw [if_pos hclose, if_neg hpositive]
    · next hclose =>
      obtain rfl := Option.some.inj hnext
      rw [if_neg hclose, if_neg (by simpa using hjoins)]

/-- A closing parenthesis without a partner ends the reading. -/
theorem argumentsFrom_closing {depth : Nat} {m : Char × Bool} (hnext : nextOpen? depth m = none)
    (current : List Char) (rest : List (Char × Bool)) :
    argumentsFrom depth current (m :: rest) = .error .closing := by
  rw [argumentsFrom]
  rw [nextOpen?] at hnext
  split at hnext
  · cases hnext
  · next hopen =>
    rw [if_neg hopen]
    split at hnext
    · next hclose =>
      split at hnext
      · next hzero => rw [if_pos hclose, if_pos hzero]
      · cases hnext
    · cases hnext

/-- A blank outside parentheses and literals ends the argument. -/
theorem argumentsFrom_blank {c : Char} (hc : isBlank c = true) (current : List Char)
    (rest : List (Char × Bool)) :
    argumentsFrom 0 current ((c, true) :: rest) =
      (argumentsFrom 0 [] rest).map (finished current ++ ·) := by
  obtain ⟨hopen, hclose⟩ := ne_parenthesis_of_blank hc
  rw [argumentsFrom, if_neg (by simpa using hopen), if_neg (by simpa using hclose),
    if_pos (by simpa using hc)]

/-- Inside a parenthesis every character belongs to the argument. -/
theorem argumentsFrom_inside {depth d : Nat} {t : List (Char × Bool)}
    (h : openAfter? depth t = some d) (current : List Char) (rest : List (Char × Bool)) :
    argumentsFrom (depth + 1) current (t ++ rest) =
      argumentsFrom (d + 1) ((t.map Prod.fst).reverse ++ current) rest := by
  induction t generalizing depth current with
  | nil =>
    obtain rfl := Option.some.inj h
    rfl
  | cons m t ih =>
    rw [openAfter?_cons] at h
    obtain ⟨next, hnext, hrest⟩ := Option.bind_eq_some_iff.1 h
    rw [List.cons_append, argumentsFrom_cons (nextOpen?_add hnext 1) (by simp), ih hrest]
    simp

/-! ### Single arguments -/

/-- A text in parentheses. -/
def grouped (t : List Char) : List Char :=
  '(' :: t ++ [')']

/-- A text that is read as one argument, or as the end of one. -/
structure Argument (t : List Char) : Prop where
  tight : Tight t
  closed : Quoted.run .outside t = .outside
  read : ∀ (current : List Char) (rest : List (Char × Bool)),
    argumentsFrom 0 current (Quoted.mark .outside t ++ rest) =
      argumentsFrom 0 (t.reverse ++ current) rest

namespace Argument

/-- A character of a word: no blank, no quote and no parenthesis. -/
def IsWordChar (c : Char) : Prop :=
  isBlank c = false ∧ Quoted.isQuote c = false ∧ c ≠ '(' ∧ c ≠ ')'

instance (c : Char) : Decidable (IsWordChar c) :=
  inferInstanceAs (Decidable (_ ∧ _ ∧ _ ∧ _))

variable {t : List Char}

theorem word (hne : t ≠ []) (h : ∀ c ∈ t, IsWordChar c) : Argument t where
  tight := .of_forall hne fun c hc => (h c hc).1
  closed := Quoted.run_plain fun c hc => (h c hc).2.1
  read current rest := by
    rw [Quoted.mark_plain fun c hc => (h c hc).2.1]
    clear hne
    induction t generalizing current with
    | nil => rfl
    | cons c t ih =>
      obtain ⟨hblank, -, hopen, hclose⟩ := h c List.mem_cons_self
      have hnext : nextOpen? 0 (c, true) = some 0 := by simp [nextOpen?, hopen, hclose]
      rw [List.map_cons, List.cons_append, argumentsFrom_cons hnext (by simp [hblank]),
        ih fun d hd => h d (List.mem_cons_of_mem c hd)]
      simp

theorem group (h : Whole t) : Argument (grouped t) where
  tight := by
    have hopen : Tight ['('] := .singleton (by decide)
    exact hopen.append (.singleton (by decide)) t
  closed := h.group.closed
  read current rest := by
    have hmark : Quoted.mark .outside (grouped t) ++ rest =
        ('(', true) :: (Quoted.mark .outside t ++ (')', true) :: rest) := by
      rw [grouped, List.cons_append, Quoted.mark_cons_plain (by decide),
        Quoted.mark_append_of_outside h.closed, List.cons_append, List.append_assoc]
      rfl
    rw [hmark, argumentsFrom, if_pos (by rfl), argumentsFrom_inside h.balanced,
      Quoted.map_fst_mark]
    simp [argumentsFrom, grouped]

end Argument

/-! ### Several arguments -/

/-- After an argument a blank separates it from the rest. -/
theorem arguments_argument {a : List Char} (ha : Argument a) (hc : isBlank c = true)
    (t : List Char) :
    arguments (a ++ c :: t) = (arguments t).map (a :: ·) := by
  rw [arguments, Quoted.mark_append_of_outside ha.closed, ha.read,
    Quoted.mark_cons_plain (not_quote_of_blank hc), argumentsFrom_blank hc, ← arguments]
  simp [finished, ha.tight.ne_nil]

/-- An argument at the end of a text. -/
theorem arguments_single {a : List Char} (ha : Argument a) :
    arguments a = .ok [a] := by
  have hread := ha.read [] []
  rw [List.append_nil, List.append_nil] at hread
  rw [arguments, hread, argumentsFrom, if_neg (by simp), finished]
  simp [ha.tight.ne_nil]

/-- Texts with spaces between them. -/
def separated (first : List Char) (rest : List (List Char)) : List Char :=
  first ++ rest.flatMap (' ' :: ·)

theorem separated_cons (first second : List Char) (rest : List (List Char)) :
    separated first (second :: rest) = first ++ ' ' :: separated second rest := by
  simp [separated]

theorem tight_separated {first : List Char} {rest : List (List Char)} (hfirst : Tight first)
    (hrest : ∀ t ∈ rest, Tight t) : Tight (separated first rest) := by
  induction rest generalizing first with
  | nil => simpa [separated] using hfirst
  | cons second rest ih =>
    obtain ⟨hsecond, hrest⟩ := List.forall_mem_cons.1 hrest
    have happend := hfirst.append (ih hsecond hrest) [' ']
    rwa [separated_cons, ← List.singleton_append, ← List.append_assoc]

/-- Arguments with spaces between them are read as they were written. -/
theorem arguments_separated {first : List Char} {rest : List (List Char)}
    (hfirst : Argument first) (hrest : ∀ t ∈ rest, Argument t) :
    arguments (separated first rest) = .ok (first :: rest) := by
  induction rest generalizing first with
  | nil =>
    rw [separated, List.flatMap_nil, List.append_nil]
    exact arguments_single hfirst
  | cons second rest ih =>
    obtain ⟨hsecond, hrest⟩ := List.forall_mem_cons.1 hrest
    rw [separated_cons, arguments_argument hfirst isBlank_space, ih hsecond hrest]
    rfl

end Text

end LineScript
