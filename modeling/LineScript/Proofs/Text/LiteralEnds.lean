import LineScript.Proofs.Text.Quoted
import Mathlib.Data.List.TakeDrop

/-!
# Where a literal ends

A literal is recognised in two ways: as a text that is one literal from end to end, and by a
scan that marks which characters of a longer text lie in literals. Both end it at the same
quote, whatever escapes and other quotes stand before.

- `Returns`: a scan that is inside a literal after the character `i` is outside for the first
  time after `j` characters.
- `getElem?_mark`, `returns_extract`: a scan from a place outside all literals is a scan of
  what stands there.
- `isSome_contents?_iff`: the end of a literal is the first return to the outside.
- `literal?_iff_returns`: the two ways agree.
-/

namespace LineScript

namespace Quoted

variable {t : List Char} {i j : Nat}

/-- The scan of a text is outside all literals after `j` characters, and was not after any
number of characters between `i` and `j`. -/
structure Returns (t : List Char) (i j : Nat) : Prop where
  after : i < j
  within : j ≤ t.length
  outside : run .outside (t.take j) = .outside
  first : ∀ k, i < k → k < j → run .outside (t.take k) ≠ .outside

/-- A scan returns to the outside for the first time only once. -/
theorem Returns.unique {j' : Nat} (h : Returns t i j) (h' : Returns t i j') : j = j' := by
  rcases Nat.lt_trichotomy j j' with hlt | heq | hgt
  · exact absurd h.outside (h'.first j h.after hlt)
  · exact heq
  · exact absurd h'.outside (h.first j' h'.after hgt)

/-! ### Scans of a part -/

/-- A character is marked by the state in which the text before it leaves the scan. -/
theorem getElem?_mark (st : State) (t : List Char) (i : Nat) :
    (mark st t)[i]? = t[i]?.map fun c => (c, (run st (t.take i)).isOutside) := by
  induction t generalizing st i with
  | nil => rfl
  | cons c t ih =>
    cases i with
    | zero => rfl
    | succ i => exact ih (st.next c) i

/-- From a place outside all literals a scan goes as it would from the start of a text. -/
theorem run_take_extract (hi : run .outside (t.take i) = .outside) {k : Nat} (hik : i ≤ k)
    (hkj : k ≤ j) :
    run .outside ((t.extract i j).take (k - i)) = run .outside (t.take k) := by
  have hpart : (t.extract i j).take (k - i) = (t.drop i).take (k - i) := by
    rw [List.extract_eq_take_drop, List.take_take, min_eq_left (by omega)]
  have hsplit : t.take k = t.take i ++ (t.drop i).take (k - i) := by
    rw [← List.take_add]
    congr 1
    omega
  rw [hpart, hsplit, run_append, hi]

/-- What a scan returns from is a part of the text that it returns from at the end. -/
theorem returns_extract (hi : run .outside (t.take i) = .outside) (hij : i ≤ j)
    (hj : j ≤ t.length) :
    Returns (t.extract i j) 0 (t.extract i j).length ↔ Returns t i j := by
  have hlength : (t.extract i j).length = j - i := by
    rw [List.extract_eq_take_drop, List.length_take, List.length_drop]
    omega
  rw [hlength]
  constructor
  · intro h
    have hlt := h.after
    refine ⟨by omega, hj, ?_, ?_⟩
    · rw [← run_take_extract hi hij le_rfl]
      exact h.outside
    · intro k hik hkj
      rw [← run_take_extract hi hik.le hkj.le]
      exact h.first (k - i) (by omega) (by omega)
  · intro h
    have hlt := h.after
    refine ⟨by omega, hlength.ge, ?_, ?_⟩
    · rw [run_take_extract hi hij le_rfl]
      exact h.outside
    · intro k hk hkj
      have hback : k = i + k - i := by omega
      rw [hback, run_take_extract hi (by omega) (by omega)]
      exact h.first (i + k) (by omega) (by omega)

/-! ### The end of a literal -/

/-- Contents end with the text where a scan from inside the literal comes outside for the
first time. -/
theorem isSome_contents?_iff (q : Char) (escaped : Bool) (t : List Char) :
    (contents? q escaped t).isSome = true ↔
      run (.inside q escaped) t = .outside ∧
        ∀ k < t.length, run (.inside q escaped) (t.take k) ≠ .outside := by
  induction t generalizing escaped with
  | nil =>
    constructor
    · intro h
      cases escaped <;> cases h
    · rintro ⟨⟨⟩, -⟩
  | cons c t ih =>
    -- after a character that does not end the literal the rest decides
    have hstays : ∀ escaped', (State.inside q escaped).next c = .inside q escaped' →
        contents? q escaped (c :: t) = (contents? q escaped' t).map (c :: ·) →
        ((contents? q escaped (c :: t)).isSome = true ↔
          run (.inside q escaped) (c :: t) = .outside ∧
            ∀ k < (c :: t).length, run (.inside q escaped) ((c :: t).take k) ≠ .outside) := by
      intro escaped' hnext hcontents
      rw [hcontents, Option.isSome_map, ih, run_cons, hnext]
      refine and_congr_right fun _ => ?_
      constructor
      · intro h k hk
        cases k with
        | zero => rintro ⟨⟩
        | succ k =>
          rw [List.take_succ_cons, run_cons, hnext]
          exact h k (by simpa using hk)
      · intro h k hk
        have hlater := h (k + 1) (by simpa using hk)
        rwa [List.take_succ_cons, run_cons, hnext] at hlater
    cases escaped with
    | true => exact hstays false rfl rfl
    | false =>
      by_cases hslash : c = '\\'
      · exact hstays true (by rw [State.next, if_pos hslash]) (by rw [contents?, if_pos hslash])
      · by_cases hend : c = q
        · -- the quote ends the literal, so nothing may follow it
          have hnext : (State.inside q false).next c = .outside := by
            rw [State.next, if_neg hslash, if_pos hend]
          rw [contents?, if_neg hslash, if_pos hend]
          cases t with
          | nil =>
            refine iff_of_true rfl ⟨hnext, fun k hk => ?_⟩
            obtain rfl : k = 0 := by simpa using hk
            rintro ⟨⟩
          | cons d t =>
            refine iff_of_false (by simp) fun h => ?_
            exact h.2 1 (by simp) hnext
        · exact hstays false (by rw [State.next, if_neg hslash, if_neg hend])
            (by rw [contents?, if_neg hslash, if_neg hend])

/-- A text is one literal when it starts with a quote and a scan of it returns to the outside
at its end. -/
theorem isSome_literal?_iff (t : List Char) :
    (literal? t).isSome = true ↔
      (∃ q, t.head? = some q ∧ isQuote q = true) ∧ Returns t 0 t.length := by
  cases t with
  | nil =>
    refine iff_of_false (by simp [literal?]) fun h => ?_
    exact absurd h.2.after (by simp)
  | cons q t =>
    rw [literal?]
    by_cases hq : isQuote q = true
    · have hopen : State.outside.next q = .inside q false := by rw [State.next, if_pos hq]
      rw [if_pos hq, isSome_contents?_iff]
      constructor
      · rintro ⟨hend, hfirst⟩
        refine ⟨⟨q, rfl, hq⟩, by simp, le_rfl, ?_, ?_⟩
        · rw [List.take_length, run_cons, hopen]
          exact hend
        · intro k hk hlt
          obtain ⟨k, rfl⟩ := Nat.exists_eq_add_one_of_ne_zero hk.ne'
          rw [List.take_succ_cons, run_cons, hopen]
          exact hfirst k (by simpa using hlt)
      · rintro ⟨-, hreturns⟩
        refine ⟨?_, ?_⟩
        · have hend := hreturns.outside
          rwa [List.take_length, run_cons, hopen] at hend
        · intro k hk
          have hinside := hreturns.first (k + 1) (by omega) (by simpa using hk)
          rwa [List.take_succ_cons, run_cons, hopen] at hinside
    · rw [if_neg hq]
      refine iff_of_false (by simp) fun h => ?_
      obtain ⟨q', hhead, hq'⟩ := h.1
      obtain rfl := Option.some.inj hhead
      exact hq hq'

/-- Of the parts of a text that start at an opening quote, the one that ends where the scan
leaves the literal is a literal. -/
theorem isSome_literal?_extract {q : Char} (hmark : (mark .outside t)[i]? = some (q, true))
    (hq : isQuote q = true) (hj : j ≤ t.length) :
    (literal? (t.extract i j)).isSome = true ↔ Returns t i j := by
  rw [getElem?_mark] at hmark
  obtain ⟨c, hc, hmarked⟩ := Option.map_eq_some_iff.1 hmark
  obtain ⟨rfl, houtside⟩ := Prod.mk.inj hmarked
  have hi := State.eq_outside houtside
  rw [isSome_literal?_iff]
  by_cases hij : i < j
  · rw [returns_extract hi hij.le hj]
    refine and_iff_right ⟨c, ?_, hq⟩
    rw [List.extract_eq_take_drop, List.head?_take, if_neg (by omega), List.head?_drop, hc]
  · -- a part that ends before the quote is empty
    refine iff_of_false ?_ fun h => hij h.after
    rintro ⟨⟨d, hd, -⟩, -⟩
    rw [List.extract_eq_take_drop, Nat.sub_eq_zero_of_le (not_lt.1 hij)] at hd
    cases hd

/-- **The two scanners of literals agree.** A text is one literal exactly when it starts with a
quote and the scan of it returns to the outside at its last character, and then its contents
stand between two of these quotes. Of the parts of a text that start at an opening quote, the
one that ends where the scan leaves the literal is a literal, and no other. -/
theorem literal?_iff_returns (t : List Char) :
    ((literal? t).isSome = true ↔
        (∃ q, t.head? = some q ∧ isQuote q = true) ∧ Returns t 0 t.length) ∧
      (∀ s, literal? t = some s → ∃ q, isQuote q = true ∧ t = q :: s ++ [q]) ∧
      ∀ i q, (mark .outside t)[i]? = some (q, true) → isQuote q = true →
        (∀ j ≤ t.length, (literal? (t.extract i j)).isSome = true ↔ Returns t i j) ∧
          ∀ j ≤ t.length, ∀ j' ≤ t.length, (literal? (t.extract i j)).isSome = true →
            (literal? (t.extract i j')).isSome = true → j = j' := by
  refine ⟨isSome_literal?_iff t, ?_, ?_⟩
  · intro s hs
    obtain ⟨q, hq, -, ht⟩ := literal?_eq_some_iff.1 hs
    exact ⟨q, hq, ht⟩
  · intro i q hmark hq
    have hparts : ∀ j ≤ t.length, (literal? (t.extract i j)).isSome = true ↔ Returns t i j :=
      fun j hj => isSome_literal?_extract hmark hq hj
    refine ⟨hparts, ?_⟩
    intro j hj j' hj' h h'
    exact ((hparts j hj).1 h).unique ((hparts j' hj').1 h')

/-- A literal with another quote and an escaped quote in it, between two words. -/
def quotedWord : List Char :=
  "x 'a\x22\\' ' y".toList

/-- The literal does not end at its escaped quote. -/
theorem literal?_iff_returns_quotedWord :
    (mark .outside quotedWord)[2]? = some ('\x27', true) ∧ Returns quotedWord 2 9 ∧
      literal? (quotedWord.extract 2 7) = none := by
  have hmark : (mark .outside quotedWord)[2]? = some ('\x27', true) := by decide
  have hparts := ((literal?_iff_returns quotedWord).2.2 2 _ hmark (by decide)).1
  exact ⟨hmark, (hparts 9 (by decide)).1 (by decide), by decide⟩

end Quoted

end LineScript
