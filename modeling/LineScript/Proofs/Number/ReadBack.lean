import LineScript.Proofs.Number.Decimal
import LineScript.Proofs.Number.Literal

/-!
# Reading the text of a number

- `decimal?_positional`, `decimal?_scientific`: both notations are read as the number that the
  digits and the place of the point denote.
- `literalTrimmed?_of_decimal`: a decimal is a literal, also with a minus sign.
- `literalTrimmed?_format`: the text of a double denotes the double.
-/

namespace LineScript

namespace Number

/-! ### Digits -/

theorem spanDigits_append {ds rest : List Char} (hds : ∀ c ∈ ds, c.isDigit = true)
    (hrest : ∀ c, rest.head? = some c → c.isDigit = false) :
    spanDigits (ds ++ rest) = (ds, rest) := by
  have hstop : rest.takeWhile Char.isDigit = [] ∧ rest.dropWhile Char.isDigit = rest := by
    cases rest with
    | nil => exact ⟨rfl, rfl⟩
    | cons c rest =>
      have hc : ¬c.isDigit = true := by simp [hrest c rfl]
      exact ⟨List.takeWhile_cons_of_neg hc, List.dropWhile_cons_of_neg hc⟩
  rw [spanDigits_eq, List.takeWhile_append_of_pos hds, List.dropWhile_append_of_pos hds, hstop.1,
    hstop.2, List.append_nil]

theorem digitsValue_append (s t : List Char) :
    digitsValue (s ++ t) = digitsValue s * 10 ^ t.length + digitsValue t := by
  have hfold : ∀ (t : List Char) (n : ℕ),
      t.foldl (fun n c => 10 * n + (c.toNat - '0'.toNat)) n =
        n * 10 ^ t.length + digitsValue t := by
    intro t
    induction t with
    | nil => simp [digitsValue]
    | cons c t ih =>
      intro n
      rw [digitsValue, List.foldl_cons, List.foldl_cons, ih, ih, List.length_cons, pow_succ]
      ring
  rw [digitsValue, List.foldl_append]
  exact hfold t _

theorem digitsValue_zeros (n : ℕ) : digitsValue (List.replicate n '0') = 0 := by
  induction n with
  | zero => rfl
  | succ n ih =>
    rw [List.replicate_succ', digitsValue_append, ih]
    rfl

theorem digitsValue_zeros_append (n : ℕ) (ds : List Char) :
    digitsValue (List.replicate n '0' ++ ds) = digitsValue ds := by
  rw [digitsValue_append, digitsValue_zeros, Nat.zero_mul, Nat.zero_add]

/-! ### The two notations -/

section

variable {ds rest : List Char} {e : ℤ} (hds : ∀ c ∈ ds, c.isDigit = true)
  (hexponent : exponent? rest = some e)

include hds hexponent

/-- Digits, a point and digits again. -/
theorem decimal?_point {whole : List Char} (hwhole : ∀ c ∈ whole, c.isDigit = true)
    (hne : whole ≠ []) (hstop : ∀ c, rest.head? = some c → c.isDigit = false) :
    decimal? (whole ++ '.' :: (ds ++ rest)) =
      some ⟨digitsValue (whole ++ ds), e - ds.length⟩ := by
  have hpoint : ∀ c, ('.' :: (ds ++ rest)).head? = some c → c.isDigit = false := by
    rintro c ⟨⟩
    decide
  have hwholeSpan := spanDigits_append hwhole hpoint
  have hfraction := spanDigits_append hds hstop
  simp [decimal?, hwholeSpan, hfraction, hexponent, hne]

/-- Digits without a point. -/
theorem decimal?_noPoint (hne : ds ≠ [])
    (hstop : ∀ c, rest.head? = some c → c.isDigit = false ∧ c ≠ '.') :
    decimal? (ds ++ rest) = some ⟨digitsValue ds, e⟩ := by
  have hspan := spanDigits_append hds fun c hc => (hstop c hc).1
  rw [decimal?, hspan]
  dsimp only
  split
  · next fraction => exact absurd rfl (hstop '.' rfl).2
  · simp [hne, hexponent]

end

section

variable {ds : List Char} (hds : ∀ c ∈ ds, c.isDigit = true) (hne : ds ≠ [])

include hds hne

/-- Digits with a point after the first `point` of them denote what the digits and the place
of the point say. -/
theorem decimal?_positional (point : ℤ) :
    ∃ d, decimal? (positional ds point) = some d ∧
      d.value = digitsValue ds * 10 ^ (point - ds.length) := by
  have hexponent : exponent? [] = some 0 := rfl
  have hzeros : ∀ n, ∀ c ∈ List.replicate n '0', c.isDigit = true := by
    intro n c hc
    rw [List.eq_of_mem_replicate hc]
    decide
  rw [positional]
  split
  · next hpoint =>
    let zeros := List.replicate (-point).toNat '0'
    have hread : decimal? (['0'] ++ '.' :: ((zeros ++ ds) ++ [])) =
        some ⟨digitsValue (['0'] ++ (zeros ++ ds)), 0 - (zeros ++ ds).length⟩ :=
      decimal?_point (List.forall_mem_append.2 ⟨hzeros _, hds⟩) hexponent
        (List.all_eq_true.1 (by decide)) (List.cons_ne_nil _ _) (by simp)
    have hvalue : digitsValue (['0'] ++ (zeros ++ ds)) = digitsValue ds :=
      digitsValue_zeros_append ((-point).toNat + 1) ds
    have hplace : (0 : ℤ) - (zeros ++ ds).length = point - ds.length := by
      simp only [zeros, List.length_append, List.length_replicate]
      omega
    rw [List.append_nil, hvalue, hplace] at hread
    exact ⟨_, hread, rfl⟩
  · next hpoint =>
    dsimp only
    split
    · next hlength =>
      let zeros := List.replicate (point.toNat - ds.length) '0'
      have hread : decimal? ((ds ++ zeros) ++ []) = some ⟨digitsValue (ds ++ zeros), 0⟩ :=
        decimal?_noPoint (List.forall_mem_append.2 ⟨hds, hzeros _⟩) hexponent (by simp [hne])
          (by simp)
      have hplace : ((point.toNat - ds.length : ℕ) : ℤ) = point - ds.length := by omega
      rw [List.append_nil] at hread
      refine ⟨_, hread, ?_⟩
      rw [Decimal.value, digitsValue_append, digitsValue_zeros, List.length_replicate, ← hplace,
        zpow_natCast, zpow_zero]
      push_cast
      ring
    · next hlength =>
      let whole := ds.take point.toNat
      let fraction := ds.drop point.toNat
      have hwholeNe : whole ≠ [] := by
        simp only [whole, ne_eq, List.take_eq_nil_iff, hne, or_false]
        omega
      have hread : decimal? (whole ++ '.' :: (fraction ++ [])) =
          some ⟨digitsValue (whole ++ fraction), 0 - fraction.length⟩ :=
        decimal?_point (fun c hc => hds c (List.mem_of_mem_drop hc)) hexponent
          (fun c hc => hds c (List.mem_of_mem_take hc)) hwholeNe (by simp)
      have hplace : (0 : ℤ) - fraction.length = point - ds.length := by
        simp only [fraction, List.length_drop]
        omega
      rw [List.append_nil, List.take_append_drop, hplace] at hread
      have htext : whole ++ ['.'] ++ fraction = whole ++ '.' :: fraction := by simp
      exact ⟨_, (congrArg decimal? htext).trans hread, rfl⟩

omit hds hne in
/-- An exponent with its sign. -/
theorem exponent?_sign (e : ℤ) :
    exponent? ('e' :: (if e < 0 then '-' else '+') :: digits e.natAbs) = some e := by
  have hspan : spanDigits (digits e.natAbs) = (digits e.natAbs, []) := by
    have hspan := @spanDigits_append (digits e.natAbs) [] (fun _ => isDigit_of_mem_digits)
      (by simp)
    rwa [List.append_nil] at hspan
  split
  · next he =>
    simp [exponent?, splitSign, hspan, digitsValue_digits, digits_ne_nil, abs_of_neg he]
  · next he =>
    simp [exponent?, splitSign, hspan, digitsValue_digits, digits_ne_nil,
      abs_of_nonneg (not_lt.1 he)]

/-- Digits with a point after the first one, and an exponent. -/
theorem decimal?_scientific (e : ℤ) :
    decimal? (scientific ds e) = some ⟨digitsValue ds, e - (ds.length - 1)⟩ := by
  let rest := 'e' :: (if e < 0 then '-' else '+') :: digits e.natAbs
  have hexponent : exponent? rest = some e := exponent?_sign e
  have hstop : ∀ c, rest.head? = some c → c.isDigit = false ∧ c ≠ '.' := by
    rintro c ⟨⟩
    decide
  obtain ⟨c, fraction, rfl⟩ := List.exists_cons_of_ne_nil hne
  obtain ⟨hc, hfraction⟩ := List.forall_mem_cons.1 hds
  have hwhole : ∀ d ∈ [c], d.isDigit = true := List.forall_mem_singleton.2 hc
  rw [scientific]
  split
  · next hempty =>
    obtain rfl : fraction = [] := List.isEmpty_iff.1 hempty
    have hread := decimal?_noPoint hds hexponent hne hstop
    simpa [rest] using hread
  · next hempty =>
    have hread := decimal?_point hfraction hexponent hwhole (List.cons_ne_nil _ _)
      fun c hc => (hstop c hc).1
    simpa [rest] using hread

end

/-! ### Decimals as literals -/

section

variable {t : List Char} {d : Decimal} (h : decimal? t = some d)

include h

/-- A decimal starts with a digit or a point. -/
theorem head_of_decimal : ∃ c rest, t = c :: rest ∧ (c.isDigit = true ∨ c = '.') := by
  cases t with
  | nil => cases h
  | cons c rest =>
    refine ⟨c, rest, rfl, or_iff_not_imp_left.2 fun hdigit => ?_⟩
    have hspan : spanDigits (c :: rest) = ([], c :: rest) := by
      rw [spanDigits_eq, List.takeWhile_cons_of_neg hdigit, List.dropWhile_cons_of_neg hdigit]
    rw [decimal?, hspan] at h
    dsimp only at h
    split at h
    · next hpoint => exact (List.cons.inj hpoint).1
    · cases h

/-- A decimal names no base. -/
theorem radix?_of_decimal : radix? t = none := by
  rw [radix?.eq_def]
  split
  · next c rest =>
    -- a letter of a base is no digit, no point and no exponent
    have hletter : ∀ l ∈ ['x', 'X', 'o', 'O', 'b', 'B'],
        l.isDigit = false ∧ l ≠ '.' ∧ l ≠ 'e' ∧ l ≠ 'E' := by simp
    have hnoLetter : c ∉ ['x', 'X', 'o', 'O', 'b', 'B'] := by
      intro hc
      obtain ⟨hdigit, hpoint, hlower, hupper⟩ := hletter c hc
      have hspan : spanDigits ('0' :: c :: rest) = (['0'], c :: rest) :=
        @spanDigits_append ['0'] (c :: rest) (List.all_eq_true.1 (by decide)) (by simp [hdigit])
      simp [decimal?, hspan, exponent?, hpoint, hlower, hupper] at h
    simp only [List.mem_cons, List.not_mem_nil, or_false, not_or] at hnoLetter
    simp [hnoLetter]
  · rfl

theorem ne_infinity_of_decimal : t ≠ "Infinity".toList := by
  rintro rfl
  obtain ⟨c, rest, heq, hc⟩ := head_of_decimal h
  obtain rfl : 'I' = c := (List.cons.inj heq).1
  exact absurd hc (by decide)

/-- A decimal is a literal, also with a minus sign. -/
theorem literalTrimmed?_of_decimal :
    literalTrimmed? t = some d.toFloat ∧ literalTrimmed? ('-' :: t) = some (-d.toFloat) := by
  have hinfinity := ne_infinity_of_decimal h
  obtain ⟨c, rest, rfl, hc⟩ := head_of_decimal h
  have hsign : splitSign (c :: rest) = (false, c :: rest) := by
    rw [splitSign.eq_def]
    split
    · next heq =>
      obtain rfl : c = '+' := (List.cons.inj heq).1
      exact absurd hc (by decide)
    · next heq =>
      obtain rfl : c = '-' := (List.cons.inj heq).1
      exact absurd hc (by decide)
    · rfl
  have hminus : splitSign ('-' :: c :: rest) = (true, c :: rest) := rfl
  have hnoRadix : radix? ('-' :: c :: rest) = none := rfl
  constructor
  · rw [literalTrimmed?, hsign]
    dsimp only
    rw [if_neg hinfinity, radix?_of_decimal h, h]
    rfl
  · rw [literalTrimmed?, hminus]
    dsimp only
    rw [if_neg hinfinity, hnoRadix, h]
    rfl

end

/-! ### The text of a double -/

open Float.Model.UnpackedFloat

/-- The text of a positive double is a decimal of it. -/
theorem decimal?_formatPositive {x : Float} {m : ℕ} {e : ℤ} {h : 0 < m}
    (hx : x.toModel.unpack = .finite .positive m e h) :
    ∃ d, decimal? (formatPositive x m e) = some d ∧ d.toFloat = x := by
  let d := Decimal.shortest x m e
  let ds := digits d.mantissa
  have hds : ∀ c ∈ ds, c.isDigit = true := fun _ => isDigit_of_mem_digits
  have hread : ∃ d', decimal? (formatPositive x m e) = some d' ∧
      d'.value = d.mantissa * 10 ^ d.exponent := by
    rw [formatPositive]
    split
    · refine ⟨_, decimal?_scientific hds (digits_ne_nil _) _, ?_⟩
      have hplace : ds.length + d.exponent - 1 - (ds.length - 1) = d.exponent := by ring
      rw [Decimal.value, hplace, digitsValue_digits]
    · obtain ⟨d', hd', hvalue⟩ :=
        decimal?_positional hds (digits_ne_nil _) (ds.length + d.exponent)
      refine ⟨d', hd', ?_⟩
      rw [hvalue, add_sub_cancel_left, digitsValue_digits]
  obtain ⟨d', hd', hvalue⟩ := hread
  exact ⟨d', hd', (Decimal.toFloat_congr hvalue).trans (Decimal.toFloat_shortest hx)⟩

theorem neg_neg_float (x : Float) : - -x = x := by
  apply ext_unpack
  rw [unpack_neg, unpack_neg]
  cases x.toModel.unpack with
  | notANumber => rfl
  | infinity s => cases s <;> rfl
  | zero s => cases s <;> rfl
  | finite s m e h => cases s <;> rfl

/-- The text of a double that is not NaN denotes the double, and the negative zero reads back
as zero. -/
theorem literalTrimmed?_format {x : Float} (hx : x.isNaN = false) :
    literalTrimmed? (format x).toList = some (if x = -0.0 then 0.0 else x) := by
  cases hunpack : x.toModel.unpack with
  | notANumber =>
    have hnan : x.isNaN = x.toModel.unpack.isNaN := rfl
    rw [hunpack] at hnan
    exact absurd (hnan.symm.trans hx) (by decide)
  | infinity s =>
    cases s with
    | positive =>
      obtain rfl : x = 1.0 / 0.0 := ext_unpack hunpack
      rfl
    | negative =>
      obtain rfl : x = -(1.0 / 0.0) := ext_unpack hunpack
      rfl
  | zero s =>
    cases s with
    | positive =>
      obtain rfl : x = 0.0 := ext_unpack hunpack
      rfl
    | negative =>
      obtain rfl : x = -0.0 := ext_unpack hunpack
      rfl
  | finite s m e h =>
    have hzero : x ≠ -0.0 := by
      rintro rfl
      cases hunpack
    rw [format, hx, Binary.ofFloat?_eq, hunpack, if_neg hzero]
    cases s with
    | positive =>
      obtain ⟨d, hd, hfloat⟩ := decimal?_formatPositive hunpack
      have hread := (literalTrimmed?_of_decimal hd).1
      rw [hfloat] at hread
      simpa [h.ne'] using hread
    | negative =>
      have hneg : (-x).toModel.unpack = .finite .positive m e h := by
        rw [unpack_neg, hunpack]
        rfl
      obtain ⟨d, hd, hfloat⟩ := decimal?_formatPositive hneg
      have hread := (literalTrimmed?_of_decimal hd).2
      rw [hfloat, neg_neg_float] at hread
      simpa [h.ne'] using hread

end Number

end LineScript
