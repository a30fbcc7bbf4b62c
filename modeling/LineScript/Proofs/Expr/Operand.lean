import LineScript.Proofs.Expr.Chain
import LineScript.Proofs.Expr.Formula
import LineScript.Proofs.Number.Literal
import LineScript.Proofs.Text.Blank

/-!
# One operand

- `Solid`: a text that is one word, or one literal, and no operator.
- `Atom.solid`, `solid_placeholder`: the texts of atoms and the placeholders of
  groups are solid.
- `IsOperand`, `isOperand_of_solid`: negations before a solid text make one operand
  of a chain, unless they make the operator `!=` of it.
-/

namespace LineScript

/-! ### Tokens -/

theorem Operator.mem_of_ofToken? {s : String} {op : Operator} (h : ofToken? s = some op) :
    (s, op) ∈ tokens := by
  obtain ⟨before, after, htokens, -⟩ := List.lookup_eq_some_iff.1 h
  rw [htokens]
  simp

namespace Expr

open Quoted (mark run)

variable {t core : List Char}

theorem isPlain_of_token {op : Operator} (h : Operator.ofToken? (String.ofList t) = some op) :
    ∀ c ∈ t, isPlain c = true := by
  have hall : ∀ p ∈ Operator.tokens, p.1.toList.all isPlain = true := by decide
  simpa using hall _ (Operator.mem_of_ofToken? h)

theorem literalTrimmed?_of_token {op : Operator}
    (h : Operator.ofToken? (String.ofList t) = some op) : Number.literalTrimmed? t = none := by
  have hall : ∀ p ∈ Operator.tokens, (Number.literalTrimmed? p.1.toList).isNone = true := by decide
  simpa using hall _ (Operator.mem_of_ofToken? h)

theorem slotMark_not_mem_token {op : Operator}
    (h : Operator.ofToken? (String.ofList t) = some op) : slotMark ∉ t := by
  have hall : ∀ p ∈ Operator.tokens, slotMark ∉ p.1.toList := by decide
  simpa using hall _ (Operator.mem_of_ofToken? h)

/-- Two tokens start with a negation. -/
theorem token_of_negation {op : Operator}
    (h : Operator.ofToken? (String.ofList ('!' :: t)) = some op) : t = ['='] ∨ t = ['=', '='] := by
  have hall : ∀ p ∈ Operator.tokens, p.1.toList.head? = some '!' →
      p.1.toList.tail = ['='] ∨ p.1.toList.tail = ['=', '='] := by decide
  simpa using hall _ (Operator.mem_of_ofToken? h)

/-! ### Plain texts -/

theorem isPlain_iff {c : Char} :
    isPlain c = true ↔
      Text.isBlank c = false ∧ Quoted.isQuote c = false ∧ c ≠ '(' ∧ c ≠ ')' := by
  simp [isPlain, and_assoc]

/-- Whether a character is a parenthesis outside all literals. -/
def Marked.groups (m : Marked) : Bool :=
  m.2 && (m.1 = '(' || m.1 = ')')

section

variable (h : ∀ c ∈ t, isPlain c = true)

include h

theorem run_of_plain : run .outside t = .outside :=
  Quoted.run_plain fun c hc => (isPlain_iff.1 (h c hc)).2.1

theorem mark_of_plain : mark .outside t = t.map fun c => (c, true) :=
  Quoted.mark_plain fun c hc => (isPlain_iff.1 (h c hc)).2.1

theorem unsplit_of_plain : ∀ m ∈ mark .outside t, Marked.separates m = false := by
  intro m hm
  rw [mark_of_plain h] at hm
  obtain ⟨c, hc, rfl⟩ := List.mem_map.1 hm
  exact (isPlain_iff.1 (h c hc)).1

theorem ungrouped_of_plain : ∀ m ∈ mark .outside t, Marked.groups m = false := by
  intro m hm
  rw [mark_of_plain h] at hm
  obtain ⟨c, hc, rfl⟩ := List.mem_map.1 hm
  have hplain := isPlain_iff.1 (h c hc)
  simp [Marked.groups, hplain]

/-- A plain word is an operator exactly if it is a token. -/
theorem operator?_of_plain :
    operator? (mark .outside t) = Operator.ofToken? (String.ofList t) := by
  have hunquoted : (mark .outside t).any Marked.isQuoted = false := by
    rw [mark_of_plain h, List.any_eq_false]
    intro m hm
    obtain ⟨c, hc, rfl⟩ := List.mem_map.1 hm
    simp [Marked.isQuoted, (isPlain_iff.1 (h c hc)).2.1]
  rw [operator?, hunquoted, plain, Quoted.map_fst_mark]
  rfl

end

/-! ### Solid texts -/

/-- A text that is one word, or one literal, and no operator. -/
structure Solid (t : List Char) : Prop where
  tight : Text.Tight t
  outside : run .outside t = .outside
  unsplit : ∀ m ∈ mark .outside t, Marked.separates m = false
  ungrouped : ∀ m ∈ mark .outside t, Marked.groups m = false
  noOperator : operator? (mark .outside t) = none
  head : t.head? ≠ some '!'

theorem Solid.of_plain (hne : t ≠ []) (hplain : ∀ c ∈ t, isPlain c = true)
    (hop : Operator.ofToken? (String.ofList t) = none) (hhead : t.head? ≠ some '!') : Solid t where
  tight := Text.Tight.of_forall hne fun c hc => (isPlain_iff.1 (hplain c hc)).1
  outside := run_of_plain hplain
  unsplit := unsplit_of_plain hplain
  ungrouped := ungrouped_of_plain hplain
  noOperator := by rw [operator?_of_plain hplain, hop]
  head := hhead

theorem Solid.of_literal {q : Char} {s : List Char} (hq : Quoted.isQuote q = true)
    (hs : Quoted.Closed q s) : Solid (q :: s ++ [q]) := by
  -- only the opening quote lies outside, and it is no blank or parenthesis
  have hblank : Text.isBlank q = false := by
    by_contra hblank
    rw [Text.not_quote_of_blank (by simpa using hblank)] at hq
    exact absurd hq (by decide)
  have hmark := Quoted.mark_literal hq hs
  have hlast : Text.startsBlank (q :: s ++ [q]).reverse = false := by
    rw [List.reverse_append]
    exact hblank
  refine ⟨⟨by simp, hblank, hlast⟩, Quoted.run_literal hq hs, ?_, ?_, ?_, ?_⟩
  · intro m hm
    rw [hmark] at hm
    rcases List.mem_cons.1 hm with rfl | hm
    · exact hblank
    · obtain ⟨c, -, rfl⟩ := List.mem_map.1 hm
      rfl
  · intro m hm
    rw [hmark] at hm
    rcases List.mem_cons.1 hm with rfl | hm
    · simp only [Quoted.isQuote, Bool.or_eq_true, decide_eq_true_eq] at hq
      rcases hq with (rfl | rfl) | rfl <;> rfl
    · obtain ⟨c, -, rfl⟩ := List.mem_map.1 hm
      rfl
  · rw [hmark, operator?]
    simp [Marked.isQuoted, hq]
  · rw [List.cons_append, List.head?_cons]
    rintro ⟨⟩
    exact absurd hq (by decide)

/-! ### Atoms are solid -/

theorem isPlain_of_isNumeral {c : Char} (h : Number.isNumeral c = true) :
    isPlain c = true ∧ c ≠ '!' ∧ c ≠ slotMark := by
  -- the code points of numerals are few enough to go through
  have hall : ∀ n < 123, Number.isNumeral (Char.ofNat n) = true →
      isPlain (Char.ofNat n) = true ∧ Char.ofNat n ≠ '!' ∧ Char.ofNat n ≠ slotMark := by decide
  have hlt : c.toNat < 123 := by
    rcases Number.isNumeral_iff.1 h with h | h | h | rfl | rfl | rfl
    · omega
    · omega
    · omega
    · decide
    · decide
    · decide
  have hc := hall c.toNat hlt
  rw [Char.ofNat_toNat] at hc
  exact hc h

/-- The words that are constants. -/
def constantWords : List (List Char) :=
  ["true".toList, "false".toList, "undefined".toList, "NaN".toList]

theorem mem_constantWords {v : Value} (h : constant? t = some v) : t ∈ constantWords := by
  rw [constant?] at h
  split at h
  · next ht => simp [constantWords, ht]
  · split at h
    · next ht => simp [constantWords, ht]
    · split at h
      · next ht => simp [constantWords, ht]
      · split at h
        · next ht => simp [constantWords, ht]
        · cases h

theorem Solid.of_wordy (h : Wordy t) (hop : Operator.ofToken? (String.ofList t) = none) :
    Solid t :=
  .of_plain h.ne_nil h.plain hop fun hhead => h.noNegation (List.mem_of_mem_head? hhead)

theorem wordy_of_number {x : Float} (h : Number.literalTrimmed? t = some x) : Wordy t := by
  have hchars : ∀ c ∈ t, isPlain c = true ∧ c ≠ '!' ∧ c ≠ slotMark :=
    fun c hc => isPlain_of_isNumeral (Number.numeral_of_literal h c hc)
  refine ⟨?_, fun c hc => (hchars c hc).1, fun hc => (hchars _ hc).2.1 rfl,
    fun hc => (hchars _ hc).2.2 rfl⟩
  rintro rfl
  exact absurd h (by simp [Number.literalTrimmed?, Number.splitSign, Number.radix?,
    Number.decimal?, Number.spanDigits])

theorem wordy_of_constant {v : Value} (h : constant? t = some v) : Wordy t := by
  have hall : ∀ t ∈ constantWords,
      t ≠ [] ∧ t.all isPlain = true ∧ '!' ∉ t ∧ slotMark ∉ t := by decide
  obtain ⟨hne, hplain, hnegation, hmark⟩ := hall t (mem_constantWords h)
  exact ⟨hne, List.all_eq_true.1 hplain, hnegation, hmark⟩

theorem ofToken?_of_number {x : Float} (h : Number.literalTrimmed? t = some x) :
    Operator.ofToken? (String.ofList t) = none := by
  cases hop : Operator.ofToken? (String.ofList t) with
  | none => rfl
  | some op => rw [literalTrimmed?_of_token hop] at h; cases h

theorem ofToken?_of_constant {v : Value} (h : constant? t = some v) :
    Operator.ofToken? (String.ofList t) = none := by
  have hall : ∀ t ∈ constantWords, Operator.ofToken? (String.ofList t) = none := by decide
  exact hall t (mem_constantWords h)

theorem Atom.solid : ∀ a : Atom, Solid a.text
  | .string _ _ hquote hclosed => .of_literal hquote hclosed
  | .number _ _ h => .of_wordy (wordy_of_number h) (ofToken?_of_number h)
  | .constant _ _ h => .of_wordy (wordy_of_constant h) (ofToken?_of_constant h)
  | .name _ h => .of_wordy h.toWordy h.noOperator

/-! ### Placeholders are solid -/

theorem isPlain_of_mem_placeholder (sign : Option Sign) (k : Nat) :
    ∀ c ∈ Sign.text sign ++ placeholder k, isPlain c = true ∧ c ≠ '!' := by
  intro c hc
  simp only [placeholder, List.mem_append, List.mem_cons, List.not_mem_nil, or_false] at hc
  rcases hc with hc | (rfl | hc) | rfl
  · cases sign with
    | none => cases hc
    | some sign =>
      cases sign <;> obtain rfl := List.mem_singleton.1 hc <;> decide
  · decide
  · have hdigit := Number.isNumeral_of_isDigit (Number.isDigit_of_mem_digits hc)
    exact ⟨(isPlain_of_isNumeral hdigit).1, (isPlain_of_isNumeral hdigit).2.1⟩
  · decide

theorem slotMark_mem_placeholder (sign : Option Sign) (k : Nat) :
    slotMark ∈ Sign.text sign ++ placeholder k := by
  simp [placeholder]

/-- A placeholder with or without a sign before it is one word. -/
theorem solid_placeholder (sign : Option Sign) (k : Nat) :
    Solid (Sign.text sign ++ placeholder k) := by
  have hchars := isPlain_of_mem_placeholder sign k
  refine .of_plain (by simp [placeholder]) (fun c hc => (hchars c hc).1) ?_ ?_
  · cases hop : Operator.ofToken? (String.ofList (Sign.text sign ++ placeholder k)) with
    | none => rfl
    | some op => exact absurd (slotMark_mem_placeholder sign k) (slotMark_not_mem_token hop)
  · intro hhead
    exact (hchars '!' (List.mem_of_mem_head? hhead)).2 rfl

/-! ### Negations before a solid text -/

theorem Negations.mem_text {n : Negations} {c : Char} (h : c ∈ n.text) :
    c = '!' ∨ Text.isBlank c = true := by
  cases n with
  | none => exact absurd h (by simp [text])
  | run more gap =>
    rcases List.mem_append.1 h with h | h
    · exact .inl (List.eq_of_mem_replicate h)
    · exact .inr (gap.blank c h)

theorem not_groups_of_blank {c : Char} (h : Text.isBlank c = true) :
    Marked.groups (c, true) = false := by
  obtain ⟨hopen, hclose⟩ := Text.ne_parenthesis_of_blank h
  simp [Marked.groups, hopen, hclose]

theorem Negations.isQuote_text {n : Negations} {c : Char} (h : c ∈ n.text) :
    Quoted.isQuote c = false := by
  rcases mem_text h with rfl | hblank
  · decide
  · exact Text.not_quote_of_blank hblank

theorem Negations.mark_text (n : Negations) (t : List Char) :
    mark .outside (n.text ++ t) = (n.text.map fun c => (c, true)) ++ mark .outside t := by
  rw [Quoted.mark_append, Quoted.mark_plain fun _ => isQuote_text,
    Quoted.run_plain fun _ => isQuote_text]

theorem Negations.run_text (n : Negations) (t : List Char) :
    Quoted.run .outside (n.text ++ t) = Quoted.run .outside t := by
  rw [Quoted.run_append, Quoted.run_plain fun _ => isQuote_text]

/-- Negations alone are no operator. -/
theorem operator?_negations (more : Nat) :
    operator? ((List.replicate (more + 1) '!').map fun c => (c, true)) = none := by
  have hplain : ∀ c ∈ List.replicate (more + 1) '!', isPlain c = true := by
    intro c hc
    rw [List.eq_of_mem_replicate hc]
    decide
  rw [← mark_of_plain hplain, operator?_of_plain hplain]
  cases hop : Operator.ofToken? (String.ofList (List.replicate (more + 1) '!')) with
  | none => rfl
  | some op =>
    rcases token_of_negation hop with h | h
    · have hmem : '=' ∈ List.replicate more '!' := by rw [h]; simp
      exact absurd (List.eq_of_mem_replicate hmem) (by decide)
    · have hmem : '=' ∈ List.replicate more '!' := by rw [h]; simp
      exact absurd (List.eq_of_mem_replicate hmem) (by decide)

/-- Negations directly before a solid text make no operator of it, with the one
exception of `!=`. -/
theorem operator?_negated (more : Nat) (hcore : Solid core)
    (hlegible : List.replicate (more + 1) '!' ++ core ≠ ['!', '=']) :
    operator? (((List.replicate (more + 1) '!').map fun c => (c, true)) ++ mark .outside core) =
      none := by
  rw [operator?]
  split
  · rfl
  · next hquoted =>
    -- without a quote the whole is a token exactly if it is spelled like one
    have hcoreQuoted : (mark .outside core).any Marked.isQuoted = false := by
      simp only [List.any_append, Bool.or_eq_true, not_or, Bool.not_eq_true] at hquoted
      exact hquoted.2
    have hcoreToken : Operator.ofToken? (String.ofList core) = none := by
      have hop := hcore.noOperator
      rw [operator?, hcoreQuoted, plain, Quoted.map_fst_mark] at hop
      simpa using hop
    have hplain : plain (((List.replicate (more + 1) '!').map fun c => (c, true)) ++
        mark .outside core) = '!' :: (List.replicate more '!' ++ core) := by
      simp [plain, Quoted.map_fst_mark, List.replicate_succ]
    rw [hplain]
    cases hop : Operator.ofToken? (String.ofList ('!' :: (List.replicate more '!' ++ core))) with
    | none => rfl
    | some op =>
      -- with two negations the second one would have to be an equality sign
      cases more with
      | succ more =>
        rcases token_of_negation hop with h | h
        · exact absurd (List.cons.inj h).1 (by decide)
        · exact absurd (List.cons.inj h).1 (by decide)
      | zero =>
        rcases token_of_negation hop with h | h
        · obtain rfl : core = ['='] := h
          exact absurd rfl hlegible
        · obtain rfl : core = ['=', '='] := h
          exact absurd hcoreToken (by decide)

/-- A text that is one operand of a chain and is read without a group. -/
structure IsOperand (t : List Char) : Prop where
  tight : Text.Tight t
  outside : run .outside t = .outside
  ungrouped : ∀ m ∈ mark .outside t, Marked.groups m = false
  inert : Inert (mark .outside t)

theorem separates_of_blank {gap : List Char} (h : ∀ c ∈ gap, Text.isBlank c = true) :
    ∀ m ∈ gap.map fun c => (c, true), Marked.separates m = true := by
  intro m hm
  obtain ⟨c, hc, rfl⟩ := List.mem_map.1 hm
  exact h c hc

theorem inert_operand (n : Negations) (hcore : Solid core)
    (hlegible : n.text ++ core ≠ ['!', '=']) : Inert (mark .outside (n.text ++ core)) := by
  have hword : Inert (mark .outside core) := .of_word hcore.unsplit hcore.noOperator
  cases n with
  | none => exact hword
  | run more gap =>
    have hbangs : ∀ m ∈ (List.replicate (more + 1) '!').map fun c => (c, true),
        Marked.separates m = false := by
      intro m hm
      obtain ⟨c, hc, rfl⟩ := List.mem_map.1 hm
      rw [List.eq_of_mem_replicate hc]
      rfl
    rw [Negations.mark_text, Negations.text, List.map_append, List.append_assoc]
    -- without a blank the negations and what they stand before are one word
    cases hgap : gap.text with
    | nil =>
      refine .of_word ?_ (operator?_negated more hcore ?_)
      · intro m hm
        rcases List.mem_append.1 hm with hm | hm
        · exact hbangs m hm
        · exact hcore.unsplit m hm
      · simpa [Negations.text, hgap] using hlegible
    | cons c rest =>
      have hblank := gap.blank
      rw [hgap] at hblank
      have hrest : Inert ((rest.map fun c => (c, true)) ++ mark .outside core) :=
        .padStart (separates_of_blank fun d hd => hblank d (by simp [hd])) hword
      exact .append (.of_word hbangs (operator?_negations more)) (hblank c (by simp)) hrest

/-- Negations before a text leave no blank at its ends. -/
theorem Negations.tight_text (n : Negations) (h : Text.Tight t) : Text.Tight (n.text ++ t) := by
  cases n with
  | none => exact h
  | run more gap =>
    have hbang : Text.Tight ['!'] := .singleton (by decide)
    simpa [text, List.replicate_succ] using
      hbang.append h (List.replicate more '!' ++ gap.text)

theorem Sign.tight_text (sign : Option Sign) (h : Text.Tight t) :
    Text.Tight (Sign.text sign ++ t) := by
  cases sign with
  | none => exact h
  | some sign =>
    have hsign : Text.Tight (Sign.text (some sign)) := by
      cases sign <;> exact .singleton (by decide)
    simpa using hsign.append h []

theorem isOperand_of_solid (n : Negations) (hcore : Solid core)
    (hlegible : n.text ++ core ≠ ['!', '=']) : IsOperand (n.text ++ core) where
  tight := n.tight_text hcore.tight
  outside := by rw [Negations.run_text, hcore.outside]
  ungrouped := by
    intro m hm
    rw [Negations.mark_text] at hm
    rcases List.mem_append.1 hm with hm | hm
    · obtain ⟨c, hc, rfl⟩ := List.mem_map.1 hm
      rcases Negations.mem_text hc with rfl | hblank
      · decide
      · exact not_groups_of_blank hblank
    · exact hcore.ungrouped m hm
  inert := inert_operand n hcore hlegible

end Expr

end LineScript
