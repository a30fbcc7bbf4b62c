import LineScript.Text.Blank
import LineScript.Text.Quoted

/-!
# Trimming

- `Tight`: a text that is not empty and has no blank at either end.
- `Tight.trim_padded`: trimming takes off exactly the blanks around a tight text.
- `trim_trim`: trimming twice is trimming once.
- `exists_padding`: trimming takes off blanks only.
-/

namespace LineScript

namespace Text

/-! ### The ends of a trimmed text -/

theorem startsBlank_append {s : List Char} (hs : s ≠ []) (t : List Char) :
    startsBlank (s ++ t) = startsBlank s := by
  cases s with
  | nil => exact absurd rfl hs
  | cons c s => rfl

theorem trimStart_padded {p : List Char} (hp : ∀ c ∈ p, isBlank c = true) {t : List Char}
    (ht : startsBlank t = false) : trimStart (p ++ t) = t := by
  induction p with
  | nil => exact trimStart_of_head ht
  | cons c p ih =>
    have hc : isBlank c = true := hp c (by simp)
    rw [List.cons_append, trimStart, List.dropWhile_cons_of_pos hc]
    exact ih fun d hd => hp d (by simp [hd])

theorem startsBlank_trimStart (t : List Char) : startsBlank (trimStart t) = false := by
  induction t with
  | nil => rfl
  | cons c t ih =>
    rw [trimStart]
    by_cases hc : isBlank c = true
    · rw [List.dropWhile_cons_of_pos hc]
      exact ih
    · rw [List.dropWhile_cons_of_neg hc]
      simpa [startsBlank] using hc

theorem trimEnd_eq (t : List Char) : trimEnd t = (trimStart t.reverse).reverse := rfl

/-- What is left of a text keeps its first character. -/
theorem startsBlank_trimEnd {t : List Char} (ht : startsBlank t = false) :
    startsBlank (trimEnd t) = false := by
  cases t with
  | nil => rfl
  | cons c t =>
    have hc : ¬isBlank c = true := by simpa [startsBlank] using ht
    have htrim : trimEnd (c :: t) = c :: trimEnd t := by
      -- read from the end, the first character is where the blanks stop at the latest
      have hdrop : ∀ s : List Char, (s ++ [c]).dropWhile isBlank = s.dropWhile isBlank ++ [c] := by
        intro s
        induction s with
        | nil => exact List.dropWhile_cons_of_neg hc
        | cons d s ih =>
          by_cases hd : isBlank d = true
          · simpa [List.dropWhile_cons_of_pos hd] using ih
          · simp [List.dropWhile_cons_of_neg hd]
      simp [trimEnd, hdrop]
    rw [htrim]
    exact ht

theorem startsBlank_trim (t : List Char) : startsBlank (trim t) = false :=
  startsBlank_trimEnd (startsBlank_trimStart t)

/-- A text that has no blank at either end is kept as it is. -/
theorem trim_of_ends {t : List Char} (hfirst : startsBlank t = false)
    (hlast : startsBlank t.reverse = false) : trim t = t := by
  rw [trim, trimStart_of_head hfirst, trimEnd_eq, trimStart_of_head hlast, List.reverse_reverse]

/-- Trimming twice is trimming once. -/
theorem trim_trim (t : List Char) : trim (trim t) = trim t := by
  apply trim_of_ends
  · exact startsBlank_trim t
  · rw [trim, trimEnd_eq, List.reverse_reverse]
    exact startsBlank_trimStart _

/-- A text is its trimmed form with blanks before and after it. -/
theorem exists_padding (t : List Char) :
    ∃ p q, (∀ c ∈ p, isBlank c = true) ∧ (∀ c ∈ q, isBlank c = true) ∧ t = p ++ trim t ++ q := by
  have hblank : ∀ u : List Char, ∀ c ∈ u.takeWhile isBlank, isBlank c = true :=
    fun u => List.all_eq_true.1 List.all_takeWhile
  let u := (trimStart t).reverse
  refine ⟨t.takeWhile isBlank, (u.takeWhile isBlank).reverse, hblank t, ?_, ?_⟩
  · simpa using hblank u
  · have hend : trim t ++ (u.takeWhile isBlank).reverse = trimStart t := by
      rw [trim, trimEnd, ← List.reverse_append, List.takeWhile_append_dropWhile,
        List.reverse_reverse]
    rw [List.append_assoc, hend, trimStart, List.takeWhile_append_dropWhile]

/-! ### Separators -/

/-- A blank is no quote. -/
theorem not_quote_of_blank {c : Char} (h : isBlank c = true) : Quoted.isQuote c = false := by
  cases hquote : Quoted.isQuote c with
  | false => rfl
  | true =>
    simp only [Quoted.isQuote, Bool.or_eq_true, decide_eq_true_eq] at hquote
    rcases hquote with (rfl | rfl) | rfl <;> exact absurd h (by decide)

/-- A blank is no parenthesis. -/
theorem ne_parenthesis_of_blank {c : Char} (h : isBlank c = true) : c ≠ '(' ∧ c ≠ ')' := by
  constructor
  · rintro rfl
    exact absurd h (by decide)
  · rintro rfl
    exact absurd h (by decide)

/-- The parts between separators have none. -/
theorem not_sep_of_mem_pieces {p : Char → Bool} {t w : List Char} (hw : w ∈ pieces p t) :
    ∀ c ∈ w, p c = false := by
  induction t generalizing w with
  | nil => simp_all [pieces]
  | cons d t ih =>
    rw [pieces] at hw
    split at hw
    · rcases List.mem_cons.1 hw with rfl | hw
      · simp
      · exact ih hw
    · next hd hnil => exact absurd hnil (pieces_ne_nil p t)
    · next first rest hd hpieces =>
      rw [hpieces] at ih
      rcases List.mem_cons.1 hw with rfl | hw
      · exact List.forall_mem_cons.2 ⟨hd, ih List.mem_cons_self⟩
      · exact ih (List.mem_cons_of_mem _ hw)

theorem pieces_of_forall {p : Char → Bool} {t : List Char} (h : ∀ c ∈ t, p c = false) :
    pieces p t = [t] := by
  induction t with
  | nil => rfl
  | cons c t ih =>
    rw [pieces, h c (by simp), ih fun d hd => h d (by simp [hd])]

/-- A separator between two texts separates the parts of the first from those of the second. -/
theorem pieces_append_cons {p : Char → Bool} {c : Char} (hc : p c = true) (s t : List Char) :
    pieces p (s ++ c :: t) = pieces p s ++ pieces p t := by
  induction s with
  | nil => simp [pieces, hc]
  | cons d s ih =>
    obtain ⟨w, ws, hs⟩ := List.exists_cons_of_ne_nil (pieces_ne_nil p s)
    rw [List.cons_append, pieces, pieces, ih, hs]
    cases p d <;> rfl

/-! ### Tight texts -/

/-- A text that is not empty and has no blank at either end. -/
structure Tight (t : List Char) : Prop where
  ne_nil : t ≠ []
  first : startsBlank t = false
  last : startsBlank t.reverse = false

namespace Tight

variable {s t : List Char}

/-- A text without any blank is tight. -/
theorem of_forall (hne : t ≠ []) (h : ∀ c ∈ t, isBlank c = false) : Tight t := by
  have hhead : ∀ u : List Char, (∀ c ∈ u, isBlank c = false) → startsBlank u = false := by
    intro u hu
    cases u with
    | nil => rfl
    | cons c u => exact hu c (by simp)
  exact ⟨hne, hhead t h, hhead t.reverse (by simpa using h)⟩

theorem singleton {c : Char} (h : isBlank c = false) : Tight [c] :=
  ⟨by simp, h, h⟩

/-- Whatever stands between two tight texts, the whole is tight. -/
theorem append (hs : Tight s) (ht : Tight t) (between : List Char) :
    Tight (s ++ between ++ t) := by
  refine ⟨by simp [hs.ne_nil], ?_, ?_⟩
  · rw [List.append_assoc, startsBlank_append hs.ne_nil]
    exact hs.first
  · rw [List.reverse_append, startsBlank_append (by simpa using ht.ne_nil)]
    exact ht.last

theorem trim (h : Tight t) : trim t = t :=
  trim_of_ends h.first h.last

/-- A trimmed text is tight unless it is empty. -/
theorem of_trim (h : Text.trim t ≠ []) : Tight (Text.trim t) := by
  refine ⟨h, startsBlank_trim t, ?_⟩
  rw [Text.trim, trimEnd_eq, List.reverse_reverse]
  exact startsBlank_trimStart _

/-- Trimming takes off exactly the blanks around a tight text. -/
theorem trim_padded (h : Tight t) {p q : List Char} (hp : ∀ c ∈ p, isBlank c = true)
    (hq : ∀ c ∈ q, isBlank c = true) : Text.trim (p ++ t ++ q) = t := by
  have hstart : startsBlank (t ++ q) = false := by
    rw [startsBlank_append h.ne_nil]
    exact h.first
  rw [Text.trim, List.append_assoc, trimStart_padded hp hstart, trimEnd_eq, List.reverse_append,
    trimStart_padded (by simpa using hq) h.last, List.reverse_reverse]

end Tight

end Text

end LineScript
