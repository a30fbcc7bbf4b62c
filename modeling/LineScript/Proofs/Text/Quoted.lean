import LineScript.Text.Quoted
import Mathlib.Data.List.TakeWhile

/-!
# Marking a text

- `run`, `mark_append`: a scan of two texts is a scan of the first, and a scan of
  the second from the state in which the first one ends.
- `mark_cut`: a scan is cut in two at a character outside all literals.
- `run_outside_of_append`: a text without quotes ends no literal.
- `Closed`: the contents of a literal: no quote that ends it, and no backslash
  that would escape the quote after it.
- `literal?_eq_some_iff`: the texts that are one literal from end to end.
- `mark_plain`, `mark_literal`: the marks of a text without quotes and of a
  literal.
- `Bare`: a character that a text has outside all literals only; so no literal
  that the text is has it (`Bare.not_mem_of_literal`).
-/

namespace LineScript

namespace Quoted

/-- The state after a text. -/
def run (st : State) (t : List Char) : State :=
  t.foldl State.next st

@[simp] theorem run_nil (st : State) : run st [] = st := rfl

@[simp] theorem run_cons (st : State) (c : Char) (t : List Char) :
    run st (c :: t) = run (st.next c) t := rfl

@[simp] theorem run_append (st : State) (s t : List Char) :
    run st (s ++ t) = run (run st s) t :=
  List.foldl_append

theorem mark_append (st : State) (s t : List Char) :
    mark st (s ++ t) = mark st s ++ mark (run st s) t := by
  induction s generalizing st with
  | nil => rfl
  | cons c s ih => simp [mark, ih]

theorem mark_append_of_outside {s : List Char} (h : run .outside s = .outside) (t : List Char) :
    mark .outside (s ++ t) = mark .outside s ++ mark .outside t := by
  rw [mark_append, h]

theorem State.eq_outside {st : State} (h : st.isOutside = true) : st = .outside := by
  cases st with
  | outside => rfl
  | inside q escaped => cases h

/-- At a character outside all literals that is no quote a scan can be cut in two. -/
theorem mark_cut {st : State} {t : List Char} {word rest : List (Char × Bool)} {c : Char}
    (hc : isQuote c = false) (hmark : mark st t = word ++ (c, true) :: rest) :
    ∃ s u, t = s ++ c :: u ∧ mark st s = word ∧ run st s = .outside ∧ mark .outside u = rest := by
  have ht : t = word.map Prod.fst ++ c :: rest.map Prod.fst := by
    rw [← map_fst_mark st t, hmark, List.map_append, List.map_cons]
  rw [ht, mark_append, mark] at hmark
  obtain ⟨hword, hmore⟩ := List.append_inj hmark (by simp [length_mark])
  obtain ⟨houtside, hrest⟩ := List.cons.inj hmore
  have hrun := State.eq_outside (congrArg Prod.snd houtside)
  rw [hrun, State.next, if_neg (by simp [hc])] at hrest
  exact ⟨_, _, ht, hword, hrun, hrest⟩

theorem subset_of_mark_subset {st st' : State} {s t : List Char} (h : mark st s ⊆ mark st' t) :
    s ⊆ t := by
  have hfst := List.map_subset Prod.fst h
  rwa [map_fst_mark, map_fst_mark] at hfst

/-! ### Literals that are left open -/

/-- A literal is opened by a quote. -/
theorem isQuote_of_run {st : State} {t : List Char} {q : Char} {escaped : Bool}
    (hst : ∀ q escaped, st = .inside q escaped → isQuote q = true)
    (h : run st t = .inside q escaped) : isQuote q = true := by
  induction t generalizing st with
  | nil => exact hst q escaped h
  | cons c t ih =>
    refine ih (fun q' escaped' hnext => ?_) h
    cases st with
    | outside =>
      rw [State.next] at hnext
      split at hnext
      · next hc =>
        cases hnext
        exact hc
      · cases hnext
    | inside q₀ escaped₀ =>
      obtain rfl : q₀ = q' := by
        cases escaped₀ <;> simp only [State.next] at hnext <;> grind
      exact hst q₀ escaped₀ rfl

/-- Without its quote an open literal does not end. -/
theorem run_inside_ne_outside {q : Char} {t : List Char} (hq : q ∉ t) (escaped : Bool) :
    run (.inside q escaped) t ≠ .outside := by
  induction t generalizing escaped with
  | nil => exact nofun
  | cons c t ih =>
    have hrest : q ∉ t := fun h => hq (List.mem_cons_of_mem c h)
    have hc : c ≠ q := by
      rintro rfl
      exact hq List.mem_cons_self
    rw [run_cons]
    cases escaped with
    | true => exact ih hrest false
    | false =>
      rw [State.next]
      by_cases hslash : c = '\\'
      · rw [if_pos hslash]
        exact ih hrest true
      · rw [if_neg hslash, if_neg hc]
        exact ih hrest false

/-- A text without quotes ends no literal that is left open before it. -/
theorem run_outside_of_append {s t : List Char} (ht : ∀ c ∈ t, isQuote c = false)
    (h : run .outside (s ++ t) = .outside) : run .outside s = .outside := by
  cases hs : run .outside s with
  | outside => rfl
  | inside q escaped =>
    have hq : isQuote q = true := isQuote_of_run (by rintro _ _ ⟨⟩) hs
    have hmem : q ∉ t := by
      intro hmem
      rw [ht q hmem] at hq
      cases hq
    rw [run_append, hs] at h
    exact absurd h (run_inside_ne_outside hmem escaped)

/-! ### Texts without quotes -/

theorem next_plain {c : Char} (h : isQuote c = false) : State.outside.next c = .outside := by
  simp [State.next, h]

theorem mark_cons_plain {c : Char} (h : isQuote c = false) (t : List Char) :
    mark .outside (c :: t) = (c, true) :: mark .outside t := by
  rw [mark, next_plain h]
  rfl

theorem run_plain {t : List Char} (h : ∀ c ∈ t, isQuote c = false) :
    run .outside t = .outside := by
  induction t with
  | nil => rfl
  | cons c t ih =>
    rw [run_cons, next_plain (h c (by simp))]
    exact ih fun d hd => h d (by simp [hd])

/-- Every character of a text without quotes lies outside all literals. -/
theorem mark_plain {t : List Char} (h : ∀ c ∈ t, isQuote c = false) :
    mark .outside t = t.map fun c => (c, true) := by
  induction t with
  | nil => rfl
  | cons c t ih =>
    rw [mark_cons_plain (h c (by simp)), ih fun d hd => h d (by simp [hd])]
    rfl

/-! ### Literals -/

/-- The contents of a literal between two quotes `q`: no `q` that no backslash
escapes, and no backslash at the end that escapes nothing. -/
inductive Closed (q : Char) : List Char → Prop where
  | nil : Closed q []
  | plain {c : Char} {t : List Char} (hq : c ≠ q) (hslash : c ≠ '\\') (ht : Closed q t) :
      Closed q (c :: t)
  | escaped (c : Char) {t : List Char} (ht : Closed q t) : Closed q ('\\' :: c :: t)

/-- Contents are scanned inside the literal, and leave the scan there. -/
theorem Closed.run {q : Char} {t : List Char} (h : Closed q t) :
    run (.inside q false) t = .inside q false := by
  induction h with
  | nil => rfl
  | plain hq hslash _ ih => simpa [State.next, hq, hslash] using ih
  | escaped c _ ih => simpa [State.next] using ih

/-- Every character of the contents lies inside the literal. -/
theorem Closed.mark {q : Char} {t : List Char} (h : Closed q t) :
    mark (.inside q false) t = t.map fun c => (c, false) := by
  induction h with
  | nil => rfl
  | plain hq hslash _ ih => simpa [Quoted.mark, State.next, State.isOutside, hq, hslash] using ih
  | escaped c _ ih => simpa [Quoted.mark, State.next, State.isOutside] using ih

section

variable {q : Char} (hq : isQuote q = true)

include hq

theorem ne_backslash : q ≠ '\\' := by
  rintro rfl
  exact absurd hq (by decide)

theorem contents?_of_closed {s : List Char} (h : Closed q s) :
    contents? q false (s ++ [q]) = some s := by
  induction h with
  | nil => simp [contents?, ne_backslash hq]
  | plain hne hslash _ ih => simp [contents?, hne, hslash, ih]
  | escaped c _ ih => simp [contents?, ih]

omit hq in
/-- What is found up to the end of a literal is contents: read from inside the
literal, with a backslash in front if one has just been read. -/
theorem closed_of_contents? {escaped : Bool} {s t : List Char}
    (h : contents? q escaped t = some s) :
    t = s ++ [q] ∧ (if escaped then Closed q ('\\' :: s) else Closed q s) := by
  -- the cases are those of the search for the end: escaped, a backslash, the quote, other
  induction t generalizing escaped s with
  | nil => cases escaped <;> simp [contents?] at h
  | cons c t ih =>
    cases escaped with
    | true =>
      obtain ⟨s', hs', rfl⟩ := Option.map_eq_some_iff.1 h
      obtain ⟨rfl, hclosed⟩ := ih hs'
      exact ⟨rfl, .escaped c hclosed⟩
    | false =>
      rw [contents?] at h
      split at h
      · next hslash =>
        obtain ⟨s', hs', rfl⟩ := Option.map_eq_some_iff.1 h
        obtain ⟨rfl, hclosed⟩ := ih hs'
        exact ⟨rfl, by rw [hslash]; exact hclosed⟩
      · next hslash =>
        split at h
        · next hend =>
          split at h
          · next hempty =>
            obtain rfl : t = [] := List.isEmpty_iff.1 hempty
            cases h
            exact ⟨by rw [hend]; rfl, .nil⟩
          · cases h
        · next hne =>
          obtain ⟨s', hs', rfl⟩ := Option.map_eq_some_iff.1 h
          obtain ⟨rfl, hclosed⟩ := ih hs'
          exact ⟨rfl, .plain hne hslash hclosed⟩

theorem literal?_of_closed {s : List Char} (h : Closed q s) :
    literal? (q :: s ++ [q]) = some s := by
  rw [List.cons_append, literal?, if_pos hq]
  exact contents?_of_closed hq h

theorem run_literal {s : List Char} (h : Closed q s) :
    run .outside (q :: s ++ [q]) = .outside := by
  simp [State.next, hq, h.run, ne_backslash hq]

/-- Of a literal only the opening quote lies outside. -/
theorem mark_literal {s : List Char} (h : Closed q s) :
    mark .outside (q :: s ++ [q]) = (q, true) :: (s ++ [q]).map fun c => (c, false) := by
  rw [List.cons_append, mark, mark_append]
  simp [State.next, State.isOutside, mark, hq, h.run, h.mark]

end

/-- The texts that are one literal from end to end. -/
theorem literal?_eq_some_iff {t s : List Char} :
    literal? t = some s ↔ ∃ q, isQuote q = true ∧ Closed q s ∧ t = q :: s ++ [q] := by
  constructor
  · intro h
    cases t with
    | nil => cases h
    | cons q t =>
      rw [literal?] at h
      split at h
      · next hq =>
        obtain ⟨rfl, hclosed⟩ := closed_of_contents? h
        exact ⟨q, hq, hclosed, rfl⟩
      · cases h
  · rintro ⟨q, hq, hclosed, rfl⟩
    exact literal?_of_closed hq hclosed

/-- A text that starts with no quote is no literal. -/
theorem literal?_of_head {c : Char} {t : List Char} (h : isQuote c = false) :
    literal? (c :: t) = none := by
  simp [literal?, h]

/-! ### Characters outside all literals -/

/-- The marks of what is left of a text without the characters at its start, none
of which is a quote. -/
theorem mark_dropWhile_subset {p : Char → Bool} (hp : ∀ c, p c = true → isQuote c = false)
    (t : List Char) : mark .outside (t.dropWhile p) ⊆ mark .outside t := by
  have hstart : run .outside (t.takeWhile p) = .outside :=
    run_plain fun c hc => hp c (List.mem_takeWhile_imp hc)
  have hmark : mark .outside t =
      mark .outside (t.takeWhile p) ++ mark .outside (t.dropWhile p) := by
    rw [← mark_append_of_outside hstart, List.takeWhile_append_dropWhile]
  rw [hmark]
  exact List.subset_append_right _ _

/-- Wherever the text has the character, it lies outside all literals. -/
def Bare (c : Char) (t : List Char) : Prop :=
  (c, false) ∉ mark .outside t

namespace Bare

variable {c : Char} {s t : List Char}

theorem of_not_mem (h : c ∉ t) : Bare c t := by
  intro hmem
  rw [← map_fst_mark .outside t] at h
  exact h (List.mem_map_of_mem hmem)

theorem of_subset (h : Bare c t) (hs : mark .outside s ⊆ mark .outside t) : Bare c s :=
  fun hmem => h (hs hmem)

/-- A text without quotes has no literal for the character to lie in. -/
theorem of_plain (h : ∀ d ∈ t, isQuote d = false) : Bare c t := by
  rw [Bare, mark_plain h]
  simp

theorem append (hs : Bare c s) (hrun : run .outside s = .outside) (ht : Bare c t) :
    Bare c (s ++ t) := by
  rw [Bare, mark_append_of_outside hrun, List.mem_append]
  exact not_or.2 ⟨hs, ht⟩

/-- If the text is one literal, the literal does not have the character. -/
theorem not_mem_of_literal (h : Bare c t) (hs : literal? t = some s) : c ∉ s := by
  intro hmem
  obtain ⟨q, hq, hclosed, rfl⟩ := literal?_eq_some_iff.1 hs
  refine h ?_
  rw [mark_literal hq hclosed]
  simp [hmem]

end Bare

end Quoted

end LineScript
