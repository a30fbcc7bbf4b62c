import LineScript.Number.Format
import LineScript.Number.Literal
import Mathlib.Data.List.TakeDrop
import Mathlib.Data.List.TakeWhile

/-!
# The characters of numbers

- `isNumeral`, `numeral_of_literal`: a numeric literal is made of digits, Latin
  letters, signs and points.
- `digitsValue_digits`: the digits of a number denote it.
- `numeral_of_format`: the text of a number is made of the same characters.
-/

namespace LineScript

namespace Number

/-- The characters that numeric literals are made of. -/
def isNumeral (c : Char) : Bool :=
  let n := c.toNat
  (48 ≤ n && n ≤ 57) || (65 ≤ n && n ≤ 90) || (97 ≤ n && n ≤ 122) ||
    c = '+' || c = '-' || c = '.'

theorem isNumeral_iff {c : Char} :
    isNumeral c = true ↔
      (48 ≤ c.toNat ∧ c.toNat ≤ 57) ∨ (65 ≤ c.toNat ∧ c.toNat ≤ 90) ∨
        (97 ≤ c.toNat ∧ c.toNat ≤ 122) ∨ c = '+' ∨ c = '-' ∨ c = '.' := by
  simp [isNumeral, or_assoc]

theorem isNumeral_of_isDigit {c : Char} (h : c.isDigit = true) : isNumeral c = true := by
  have hrange : 48 ≤ c.toNat ∧ c.toNat ≤ 57 := by
    simpa [Char.isDigit, UInt32.le_iff_toNat_le] using h
  exact isNumeral_iff.2 (.inl hrange)

/-! ### Parts of a decimal -/

theorem spanDigits_eq (t : List Char) :
    spanDigits t = (t.takeWhile Char.isDigit, t.dropWhile Char.isDigit) :=
  List.span_eq_takeWhile_dropWhile _ t

/-- The digits at the start of a text are numerals, so the text is made of
numerals when what follows them is. -/
theorem numeral_of_spanDigits {t : List Char} (h : ∀ c ∈ (spanDigits t).2, isNumeral c = true) :
    ∀ c ∈ t, isNumeral c = true := by
  intro c hc
  rw [spanDigits_eq] at h
  rw [← List.takeWhile_append_dropWhile (p := Char.isDigit) (l := t)] at hc
  rcases List.mem_append.1 hc with hc | hc
  · exact isNumeral_of_isDigit (List.mem_takeWhile_imp hc)
  · exact h c hc

theorem numeral_of_splitSign {t : List Char} (h : ∀ c ∈ (splitSign t).2, isNumeral c = true) :
    ∀ c ∈ t, isNumeral c = true := by
  intro c hc
  rw [splitSign.eq_def] at h
  split at h
  · rcases List.mem_cons.1 hc with rfl | hc
    · decide
    · exact h c hc
  · rcases List.mem_cons.1 hc with rfl | hc
    · decide
    · exact h c hc
  · exact h c hc

theorem numeral_of_exponent {t : List Char} {e : Int} (h : exponent? t = some e) :
    ∀ c ∈ t, isNumeral c = true := by
  cases t with
  | nil => exact fun c hc => absurd hc (by simp)
  | cons d t =>
    simp only [exponent?] at h
    split at h
    · next hd =>
      split at h
      · cases h
      · next hend =>
        have hrest : (spanDigits (splitSign t).2).2 = [] := by
          simp only [Bool.or_eq_true, not_or, Bool.not_eq_true', Bool.not_eq_false] at hend
          simpa using hend.2
        have htail : ∀ c ∈ t, isNumeral c = true := by
          apply numeral_of_splitSign
          apply numeral_of_spanDigits
          rw [hrest]
          exact fun c hc => absurd hc (by simp)
        intro c hc
        rcases List.mem_cons.1 hc with rfl | hc
        · simp only [Bool.or_eq_true, decide_eq_true_eq] at hd
          rcases hd with rfl | rfl <;> decide
        · exact htail c hc
    · cases h

theorem numeral_of_decimal {t : List Char} {d : Decimal} (h : decimal? t = some d) :
    ∀ c ∈ t, isNumeral c = true := by
  apply numeral_of_spanDigits
  simp only [decimal?] at h
  split at h
  · next rest hpoint =>
    split at h
    · cases h
    · obtain ⟨e, he, -⟩ := Option.map_eq_some_iff.1 h
      rw [hpoint]
      intro c hc
      rcases List.mem_cons.1 hc with rfl | hc
      · decide
      · exact numeral_of_spanDigits (numeral_of_exponent he) c hc
  · split at h
    · cases h
    · obtain ⟨e, he, -⟩ := Option.map_eq_some_iff.1 h
      exact numeral_of_exponent he

/-! ### Digits in other bases -/

theorem isNumeral_of_digitValue {c : Char} {d : Nat} (h : digitValue? c = some d) :
    isNumeral c = true := by
  have hbounds : '0'.toNat = 48 ∧ '9'.toNat = 57 ∧ 'a'.toNat = 97 ∧ 'f'.toNat = 102 ∧
      'A'.toNat = 65 ∧ 'F'.toNat = 70 := by decide
  rw [isNumeral_iff]
  simp only [digitValue?] at h
  split at h
  · omega
  · split at h
    · omega
    · split at h
      · omega
      · cases h

theorem numeral_of_radixValue {radix : Nat} {ds : List Char} {n : Nat}
    (h : radixValue? radix ds = some n) : ∀ c ∈ ds, isNumeral c = true := by
  suffices hfold : ∀ (ds : List Char) (start n : Nat),
      ds.foldlM (fun n c => (digitValue? c).bind fun d =>
        if d < radix then some (radix * n + d) else none) start = some n →
      ∀ c ∈ ds, isNumeral c = true from hfold ds 0 n h
  -- the value read so far does not matter
  intro ds
  induction ds with
  | nil => exact fun _ _ _ c hc => absurd hc (by simp)
  | cons d ds ih =>
    intro start n h c hc
    rw [List.foldlM_cons] at h
    obtain ⟨next, hstep, hrest⟩ := Option.bind_eq_some_iff.1 h
    obtain ⟨v, hv, -⟩ := Option.bind_eq_some_iff.1 hstep
    rcases List.mem_cons.1 hc with rfl | hc
    · exact isNumeral_of_digitValue hv
    · exact ih next n hrest c hc

theorem numeral_of_radix {t ds : List Char} {radix : Nat} (h : radix? t = some (radix, ds))
    (hds : ∀ c ∈ ds, isNumeral c = true) : ∀ c ∈ t, isNumeral c = true := by
  have hletters : ∀ c ∈ ['0', 'x', 'X', 'o', 'O', 'b', 'B'], isNumeral c = true :=
    List.all_eq_true.1 (by decide)
  rw [radix?.eq_def] at h
  split at h
  · next d rest =>
    have hfound : rest = ds ∧ d ∈ ['x', 'X', 'o', 'O', 'b', 'B'] := by
      simp only [Bool.or_eq_true, decide_eq_true_eq] at h
      grind
    obtain ⟨rfl, hd⟩ := hfound
    intro c hc
    rcases List.mem_cons.1 hc with rfl | hc
    · decide
    · rcases List.mem_cons.1 hc with rfl | hc
      · exact hletters _ (List.mem_cons_of_mem _ hd)
      · exact hds c hc
  · cases h

/-- A numeric literal is made of digits, Latin letters, signs and points. -/
theorem numeral_of_literal {t : List Char} {x : Float} (h : literalTrimmed? t = some x) :
    ∀ c ∈ t, isNumeral c = true := by
  simp only [literalTrimmed?] at h
  split at h
  · next hinfinity =>
    apply numeral_of_splitSign
    rw [hinfinity]
    exact List.all_eq_true.1 (by decide)
  · split at h
    · next radix ds hradix =>
      split at h
      · cases h
      · obtain ⟨n, hn, -⟩ := Option.bind_eq_some_iff.1 h
        exact numeral_of_radix hradix (numeral_of_radixValue hn)
    · obtain ⟨d, hd, -⟩ := Option.map_eq_some_iff.1 h
      exact numeral_of_splitSign (numeral_of_decimal hd)

/-! ### Digits and back -/

theorem digits_ne_nil (n : Nat) : digits n ≠ [] :=
  Nat.toDigits_ne_nil

theorem isDigit_of_mem_digits {n : Nat} {c : Char} (h : c ∈ digits n) : c.isDigit = true :=
  Nat.isDigit_of_mem_toDigits (by decide) (by decide) h

/-- The digits of a number denote it. -/
theorem digitsValue_digits (n : Nat) : digitsValue (digits n) = n :=
  Nat.ofDigitChars_ten_toDigits

/-! ### The text of a number -/

theorem numeral_of_digits (n : Nat) : ∀ c ∈ digits n, isNumeral c = true :=
  fun _ hc => isNumeral_of_isDigit (isDigit_of_mem_digits hc)

theorem numeral_of_positional {ds : List Char} (h : ∀ c ∈ ds, isNumeral c = true) (point : Int) :
    ∀ c ∈ positional ds point, isNumeral c = true := by
  have hzeros : ∀ n, ∀ c ∈ List.replicate n '0', isNumeral c = true := by
    intro n c hc
    rw [List.eq_of_mem_replicate hc]
    decide
  have hpoint : ∀ c ∈ ['.'], isNumeral c = true := List.all_eq_true.1 (by decide)
  simp only [positional]
  split
  · have hzero : ∀ c ∈ ['0', '.'], isNumeral c = true := List.all_eq_true.1 (by decide)
    exact List.forall_mem_append.2 ⟨List.forall_mem_append.2 ⟨hzero, hzeros _⟩, h⟩
  · split
    · exact List.forall_mem_append.2 ⟨h, hzeros _⟩
    · refine List.forall_mem_append.2 ⟨List.forall_mem_append.2 ⟨?_, hpoint⟩, ?_⟩
      · exact fun c hc => h c (List.mem_of_mem_take hc)
      · exact fun c hc => h c (List.mem_of_mem_drop hc)

theorem numeral_of_scientific {ds : List Char} (h : ∀ c ∈ ds, isNumeral c = true)
    (exponent : Int) : ∀ c ∈ scientific ds exponent, isNumeral c = true := by
  have hfraction : ∀ c ∈ ds.drop 1, isNumeral c = true :=
    fun c hc => h c (List.mem_of_mem_drop hc)
  rw [scientific]
  refine List.forall_mem_append.2 ⟨List.forall_mem_append.2 ⟨List.forall_mem_append.2
    ⟨fun c hc => h c (List.mem_of_mem_take hc), ?_⟩, ?_⟩, numeral_of_digits _⟩
  · split
    · simp
    · exact List.forall_mem_cons.2 ⟨by decide, hfraction⟩
  · split <;> exact List.all_eq_true.1 (by decide)

/-- The text of a number is made of the characters of numeric literals. -/
theorem numeral_of_format (x : Float) : ∀ c ∈ (format x).toList, isNumeral c = true := by
  have hsize : ∀ (x : Float) (mantissa : Nat) (exponent : Int),
      ∀ c ∈ formatPositive x mantissa exponent, isNumeral c = true := by
    intro x mantissa exponent
    simp only [formatPositive]
    split
    · exact numeral_of_scientific (numeral_of_digits _) _
    · exact numeral_of_positional (numeral_of_digits _) _
  rw [format]
  split
  · exact List.all_eq_true.1 (by decide)
  · split
    · split <;> exact List.all_eq_true.1 (by decide)
    · split
      · exact List.all_eq_true.1 (by decide)
      · simp only [String.toList_ofList]
        split
        · exact List.forall_mem_cons.2 ⟨by decide, hsize _ _ _⟩
        · exact hsize _ _ _

end Number

end LineScript
