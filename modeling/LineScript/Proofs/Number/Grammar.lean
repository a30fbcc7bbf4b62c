import LineScript.Proofs.Number.Closest
import LineScript.Proofs.Number.ReadBack
import Mathlib.Data.Nat.Digits.Defs

/-!
# The grammar of numeric literals

- `IsDecimal`, `IsInfinity`, `IsRadixNumeral`: the three kinds of numeric literals.
- `isSome_decimal?_iff`: a text is read as a decimal exactly if it has the parts of one.
- `radixValue?_eq_some_iff`: digits in a base are read as the number that they denote.
- `ReadsDecimals`, `literalBy?_eq`: a reader of doubles that knows other texts besides decimals
  does for the decimals, if it is asked for texts of their characters only.
- `literal?_grammar`: the texts that are numbers, and which infinities and nearest doubles they
  denote.
-/

namespace LineScript

namespace Number

/-! ### The grammar -/

/-- At least one digit, and only digits. -/
structure IsDigits (ds : List Char) : Prop where
  ne_nil : ds ≠ []
  digits : ∀ c ∈ ds, c.isDigit = true

/-- An optional sign. The answer says whether it is a minus. -/
inductive IsSign : Bool → List Char → Prop where
  | none : IsSign false []
  | plus : IsSign false ['+']
  | minus : IsSign true ['-']

/-- Digits, digits with a point and perhaps a fraction after them, or a fraction alone. -/
inductive IsSignificand : List Char → Prop where
  | whole {ds : List Char} (h : IsDigits ds) : IsSignificand ds
  | point {ds fraction : List Char} (h : IsDigits ds)
      (hfraction : ∀ c ∈ fraction, c.isDigit = true) : IsSignificand (ds ++ '.' :: fraction)
  | fraction {ds : List Char} (h : IsDigits ds) : IsSignificand ('.' :: ds)

/-- An optional exponent, with an optional sign. -/
inductive IsExponent : List Char → Prop where
  | absent : IsExponent []
  | present {letter : Char} {negative : Bool} {sign ds : List Char}
      (hletter : letter = 'e' ∨ letter = 'E') (hsign : IsSign negative sign) (hds : IsDigits ds) :
      IsExponent (letter :: (sign ++ ds))

/-- A decimal without a sign. -/
inductive IsUnsigned : List Char → Prop where
  | mk {significand exponent : List Char} (hsignificand : IsSignificand significand)
      (hexponent : IsExponent exponent) : IsUnsigned (significand ++ exponent)

/-- A decimal with an optional sign. -/
inductive IsDecimal : List Char → Prop where
  | mk {negative : Bool} {sign t : List Char} (hsign : IsSign negative sign) (ht : IsUnsigned t) :
      IsDecimal (sign ++ t)

/-- An infinity with an optional sign. -/
inductive IsInfinity (negative : Bool) : List Char → Prop where
  | mk {sign : List Char} (hsign : IsSign negative sign) :
      IsInfinity negative (sign ++ "Infinity".toList)

/-- The letters of the bases. -/
inductive IsBase : Char → ℕ → Prop where
  | lowerHex : IsBase 'x' 16
  | upperHex : IsBase 'X' 16
  | lowerOctal : IsBase 'o' 8
  | upperOctal : IsBase 'O' 8
  | lowerBinary : IsBase 'b' 2
  | upperBinary : IsBase 'B' 2

/-- The character is the digit of a value, in lower or upper case. -/
def IsDigitOf (c : Char) (d : ℕ) : Prop :=
  "0123456789abcdef".toList[d]? = some c ∨ "0123456789ABCDEF".toList[d]? = some c

/-- The digits of a base and their values. -/
def DigitsOf (radix : ℕ) : List Char → List ℕ → Prop :=
  List.Forall₂ fun c d => IsDigitOf c d ∧ d < radix

/-- A whole number in a base: the prefix of the base, and at least one digit below it. -/
inductive IsRadixNumeral : List Char → ℕ → Prop where
  | mk {letter : Char} {radix : ℕ} {ds : List Char} {values : List ℕ} (hbase : IsBase letter radix)
      (hne : ds ≠ []) (hds : DigitsOf radix ds values) :
      IsRadixNumeral ('0' :: letter :: ds) (Nat.ofDigits radix values.reverse)

/-! ### Signs -/

variable {t : List Char}

/-- A sign is split off. -/
theorem exists_sign (t : List Char) :
    ∃ sign, IsSign (splitSign t).1 sign ∧ t = sign ++ (splitSign t).2 := by
  rw [splitSign.eq_def]
  split
  · exact ⟨_, .plus, rfl⟩
  · exact ⟨_, .minus, rfl⟩
  · exact ⟨_, .none, rfl⟩

theorem splitSign_append {negative : Bool} {sign : List Char} (hsign : IsSign negative sign)
    (ht : ∀ c, t.head? = some c → c ≠ '+' ∧ c ≠ '-') : splitSign (sign ++ t) = (negative, t) := by
  cases hsign with
  | none =>
    rw [List.nil_append, splitSign.eq_def]
    split
    · exact absurd rfl (ht _ rfl).1
    · exact absurd rfl (ht _ rfl).2
    · rfl
  | plus => rfl
  | minus => rfl

theorem IsDigits.head {ds : List Char} (h : IsDigits ds) (rest : List Char) {c : Char}
    (hc : (ds ++ rest).head? = some c) : c.isDigit = true := by
  obtain ⟨d, ds, rfl⟩ := List.exists_cons_of_ne_nil h.ne_nil
  obtain rfl := Option.some.inj hc
  exact h.digits d List.mem_cons_self

theorem ne_sign_of_isDigit {c : Char} (h : c.isDigit = true) : c ≠ '+' ∧ c ≠ '-' := by
  constructor <;>
  · rintro rfl
    exact absurd h (by decide)

theorem ne_sign_of_decimal {d : Decimal} (h : decimal? t = some d) {c : Char}
    (hc : t.head? = some c) : c ≠ '+' ∧ c ≠ '-' := by
  obtain ⟨c', rest, rfl, hdigit | rfl⟩ := head_of_decimal h
  · obtain rfl := Option.some.inj hc
    exact ne_sign_of_isDigit hdigit
  · obtain rfl := Option.some.inj hc
    decide

/-! ### Decimals -/

theorem isSome_exponent?_iff : (exponent? t).isSome = true ↔ IsExponent t := by
  constructor
  · intro h
    cases t with
    | nil => exact .absent
    | cons c t =>
      simp only [exponent?, spanDigits_eq] at h
      split at h
      · next hletter =>
        split at h
        · cases h
        · next hend =>
          simp only [Bool.or_eq_true, not_or, Bool.not_eq_true', Bool.not_eq_false,
            List.isEmpty_iff, List.dropWhile_eq_nil_iff, decide_eq_true_eq] at hend hletter
          obtain ⟨hne, hdigits⟩ := hend
          obtain ⟨sign, hsign, ht⟩ := exists_sign t
          have hds : IsDigits (splitSign t).2 := by
            refine ⟨fun hnil => hne ?_, hdigits⟩
            rw [hnil]
            rfl
          rw [ht]
          exact .present hletter hsign hds
      · cases h
  · rintro (_ | ⟨hletter, hsign, hds⟩)
    · rfl
    · next letter negative sign ds =>
      have hsplit := splitSign_append hsign fun c hc =>
        ne_sign_of_isDigit (hds.head [] (by rwa [List.append_nil]))
      have hspan := @spanDigits_append ds [] hds.digits (by simp)
      rw [List.append_nil] at hspan
      have hletter : (decide (letter = 'e') || decide (letter = 'E')) = true := by
        simpa using hletter
      simp [exponent?, hletter, hsplit, hspan, hds.ne_nil]

/-- An exponent starts with no digit and with no point. -/
theorem IsExponent.head (h : IsExponent t) {c : Char} (hc : t.head? = some c) :
    c.isDigit = false ∧ c ≠ '.' := by
  cases h with
  | absent => cases hc
  | present hletter =>
    obtain rfl := Option.some.inj hc
    rcases hletter with rfl | rfl <;> decide

theorem isSome_decimal?_iff : (decimal? t).isSome = true ↔ IsUnsigned t := by
  constructor
  · intro h
    have ht := List.takeWhile_append_dropWhile (p := Char.isDigit) (l := t)
    have hwhole : ∀ c ∈ t.takeWhile Char.isDigit, c.isDigit = true :=
      fun c hc => List.mem_takeWhile_imp hc
    simp only [decimal?, spanDigits_eq] at h
    split at h
    · next rest hrest =>
      -- a point, and the digits after it
      have hsplit := List.takeWhile_append_dropWhile (p := Char.isDigit) (l := rest)
      have hfraction : ∀ c ∈ rest.takeWhile Char.isDigit, c.isDigit = true :=
        fun c hc => List.mem_takeWhile_imp hc
      split at h
      · cases h
      · next hne =>
        rw [Option.isSome_map, isSome_exponent?_iff] at h
        have htext : t = (t.takeWhile Char.isDigit ++ '.' :: rest.takeWhile Char.isDigit) ++
            rest.dropWhile Char.isDigit := by
          rw [List.append_assoc, List.cons_append, hsplit, ← hrest, ht]
        rw [htext]
        refine .mk ?_ h
        by_cases hnil : t.takeWhile Char.isDigit = []
        · have hfractionNe : rest.takeWhile Char.isDigit ≠ [] := by
            intro hfractionNil
            simp [hnil, hfractionNil] at hne
          rw [hnil]
          exact .fraction ⟨hfractionNe, hfraction⟩
        · exact .point ⟨hnil, hwhole⟩ hfraction
    · split at h
      · cases h
      · next hne =>
        rw [Option.isSome_map, isSome_exponent?_iff] at h
        rw [← ht]
        refine .mk (.whole ⟨fun hnil => ?_, hwhole⟩) h
        simp [hnil] at hne
  · rintro ⟨hsignificand, hexponent⟩
    next significand exponent =>
    obtain ⟨e, he⟩ := Option.isSome_iff_exists.1 (isSome_exponent?_iff.2 hexponent)
    have hstop : ∀ c, exponent.head? = some c → c.isDigit = false ∧ c ≠ '.' :=
      fun c hc => hexponent.head hc
    cases hsignificand with
    | whole hds =>
      rw [decimal?_noPoint hds.digits he hds.ne_nil hstop]
      rfl
    | point hds hfraction =>
      rw [List.append_assoc, List.cons_append,
        decimal?_point hfraction he hds.digits hds.ne_nil fun c hc => (hstop c hc).1]
      rfl
    | @fraction ds hds =>
      have hwhole : spanDigits ('.' :: (ds ++ exponent)) = ([], '.' :: (ds ++ exponent)) := by
        rw [spanDigits_eq]
        rfl
      have hspan := spanDigits_append hds.digits fun c hc => (hstop c hc).1
      simp [decimal?, hwhole, hspan, hds.ne_nil, he]

/-! ### Digits in a base -/

theorem digitValue?_eq_some_iff {c : Char} {d : ℕ} : digitValue? c = some d ↔ IsDigitOf c d := by
  constructor
  · intro h
    have hc : c = Char.ofNat c.toNat := (Char.ofNat_toNat c).symm
    have hbounds : '0'.toNat = 48 ∧ '9'.toNat = 57 ∧ 'a'.toNat = 97 ∧ 'f'.toNat = 102 ∧
        'A'.toNat = 65 ∧ 'F'.toNat = 70 := by decide
    simp only [digitValue?, hbounds] at h
    generalize c.toNat = n at h hc
    subst hc
    split at h
    · next hn =>
      obtain ⟨hlow, hhigh⟩ := hn
      obtain rfl := Option.some.inj h
      interval_cases n <;> exact .inl rfl
    · split at h
      · next hn =>
        obtain ⟨hlow, hhigh⟩ := hn
        obtain rfl := Option.some.inj h
        interval_cases n <;> exact .inl rfl
      · split at h
        · next hn =>
          obtain ⟨hlow, hhigh⟩ := hn
          obtain rfl := Option.some.inj h
          interval_cases n <;> exact .inr rfl
        · cases h
  · have htable : ∀ d < 16, ∀ c, (IsDigitOf c d) → digitValue? c = some d := by
      intro d hd c hc
      interval_cases d <;> rcases hc with hc | hc <;> obtain rfl := Option.some.inj hc <;> rfl
    intro h
    refine htable d ?_ c h
    rcases h with h | h
    · exact (List.getElem?_eq_some_iff.1 h).1
    · exact (List.getElem?_eq_some_iff.1 h).1

/-- Digits are read as the number that they denote, after the ones read before. -/
theorem foldlM_digits_iff {radix start n : ℕ} {ds : List Char} :
    ds.foldlM (fun n c => (digitValue? c).bind fun d =>
        if d < radix then some (radix * n + d) else none) start = some n ↔
      ∃ values, DigitsOf radix ds values ∧
        n = start * radix ^ ds.length + Nat.ofDigits radix values.reverse := by
  induction ds generalizing start with
  | nil =>
    constructor
    · intro h
      obtain rfl := Option.some.inj h
      exact ⟨[], .nil, by simp⟩
    · rintro ⟨values, ⟨⟩, rfl⟩
      simp
  | cons c ds ih =>
    have hvalue : ∀ (d : ℕ) (values : List ℕ), values.length = ds.length →
        (radix * start + d) * radix ^ ds.length + Nat.ofDigits radix values.reverse =
          start * radix ^ (c :: ds).length + Nat.ofDigits radix (d :: values).reverse := by
      intro d values hlength
      rw [List.reverse_cons, Nat.ofDigits_append, Nat.ofDigits_singleton, List.length_reverse,
        hlength, List.length_cons, pow_succ]
      ring
    rw [List.foldlM_cons]
    constructor
    · intro h
      obtain ⟨next, hstep, hrest⟩ := Option.bind_eq_some_iff.1 h
      obtain ⟨d, hd, hnext⟩ := Option.bind_eq_some_iff.1 hstep
      split at hnext
      · next hlt =>
        obtain rfl := Option.some.inj hnext
        obtain ⟨values, hvalues, rfl⟩ := ih.1 hrest
        exact ⟨d :: values, .cons ⟨digitValue?_eq_some_iff.1 hd, hlt⟩ hvalues,
          hvalue d values hvalues.length_eq.symm⟩
      · cases hnext
    · rintro ⟨_, hvalues, rfl⟩
      cases hvalues with
      | @cons _ d _ values hd hvalues =>
        obtain ⟨hdigit, hlt⟩ := hd
        have hstep : ((digitValue? c).bind fun d =>
            if d < radix then some (radix * start + d) else none) = some (radix * start + d) := by
          rw [digitValue?_eq_some_iff.2 hdigit, Option.bind_some, if_pos hlt]
        rw [hstep]
        exact ih.2 ⟨values, hvalues, (hvalue d values hvalues.length_eq.symm).symm⟩

theorem radixValue?_eq_some_iff {radix n : ℕ} {ds : List Char} :
    radixValue? radix ds = some n ↔
      ∃ values, DigitsOf radix ds values ∧ n = Nat.ofDigits radix values.reverse := by
  rw [radixValue?, foldlM_digits_iff]
  simp only [Nat.zero_mul, Nat.zero_add]

theorem radix?_eq_some_iff {radix : ℕ} {ds : List Char} :
    radix? t = some (radix, ds) ↔ ∃ letter, IsBase letter radix ∧ t = '0' :: letter :: ds := by
  constructor
  · intro h
    rw [radix?.eq_def] at h
    split at h
    · next letter rest =>
      simp only [Bool.or_eq_true, decide_eq_true_eq] at h
      split at h
      · next hletter =>
        obtain ⟨rfl, rfl⟩ := Prod.mk.inj (Option.some.inj h)
        rcases hletter with rfl | rfl
        · exact ⟨_, .lowerHex, rfl⟩
        · exact ⟨_, .upperHex, rfl⟩
      · split at h
        · next hletter =>
          obtain ⟨rfl, rfl⟩ := Prod.mk.inj (Option.some.inj h)
          rcases hletter with rfl | rfl
          · exact ⟨_, .lowerOctal, rfl⟩
          · exact ⟨_, .upperOctal, rfl⟩
        · split at h
          · next hletter =>
            obtain ⟨rfl, rfl⟩ := Prod.mk.inj (Option.some.inj h)
            rcases hletter with rfl | rfl
            · exact ⟨_, .lowerBinary, rfl⟩
            · exact ⟨_, .upperBinary, rfl⟩
          · cases h
    · cases h
  · rintro ⟨letter, hbase, rfl⟩
    cases hbase <;> rfl

/-! ### Literals -/

theorem isDecimal_iff : IsDecimal t ↔ (decimal? (splitSign t).2).isSome = true := by
  rw [isSome_decimal?_iff]
  constructor
  · rintro ⟨hsign, ht⟩
    obtain ⟨d, hd⟩ := Option.isSome_iff_exists.1 (isSome_decimal?_iff.2 ht)
    rwa [splitSign_append hsign fun c hc => ne_sign_of_decimal hd hc]
  · intro h
    obtain ⟨sign, hsign, ht⟩ := exists_sign t
    rw [ht]
    exact .mk hsign h

/-- A decimal is a literal with any sign. -/
theorem literalTrimmed?_decimal {negative : Bool} {sign : List Char} {d : Decimal}
    (hsign : IsSign negative sign) (hd : decimal? t = some d) :
    literalTrimmed? (sign ++ t) = some (signed negative d.toFloat) := by
  obtain ⟨hplain, hminus⟩ := literalTrimmed?_of_decimal hd
  cases hsign with
  | none => exact hplain
  | minus => exact hminus
  | plus =>
    have hsplit : splitSign ('+' :: t) = (false, t) := rfl
    have hnoRadix : radix? ('+' :: t) = none := rfl
    show literalTrimmed? ('+' :: t) = _
    rw [literalTrimmed?, hsplit]
    dsimp only
    rw [if_neg (ne_infinity_of_decimal hd), hnoRadix, hd]
    rfl

theorem literalTrimmed?_infinity {negative : Bool} (h : IsInfinity negative t) :
    literalTrimmed? t = some (signed negative (1.0 / 0.0)) := by
  obtain ⟨hsign⟩ := h
  cases hsign <;> rfl

/-- A whole number in a base is a literal if it has at most 64 bits. -/
theorem literalTrimmed?_radix {n : ℕ} (h : IsRadixNumeral t n) :
    literalTrimmed? t = if n < 2 ^ 64 then some (Float.ofNat n) else none := by
  obtain ⟨hbase, hne, hds⟩ := h
  next letter radix ds values =>
  have hsplit : splitSign ('0' :: letter :: ds) = (false, '0' :: letter :: ds) := rfl
  have hinfinity : '0' :: letter :: ds ≠ "Infinity".toList := by
    intro heq
    exact absurd (List.cons.inj heq).1 (by decide)
  have hradix : radix? ('0' :: letter :: ds) = some (radix, ds) :=
    radix?_eq_some_iff.2 ⟨letter, hbase, rfl⟩
  have hvalue := radixValue?_eq_some_iff.2 ⟨values, hds, rfl⟩
  rw [literalTrimmed?, hsplit]
  dsimp only
  rw [if_neg hinfinity, hradix]
  dsimp only
  rw [if_neg (by simpa using hne), hvalue]
  rfl

theorem isSome_literalTrimmed?_iff :
    (literalTrimmed? t).isSome = true ↔
      IsDecimal t ∨ (∃ negative, IsInfinity negative t) ∨ ∃ n, IsRadixNumeral t n ∧ n < 2 ^ 64 := by
  constructor
  · intro h
    simp only [literalTrimmed?] at h
    split at h
    · next hinfinity =>
      obtain ⟨sign, hsign, ht⟩ := exists_sign t
      rw [hinfinity] at ht
      rw [ht]
      exact .inr (.inl ⟨_, .mk hsign⟩)
    · split at h
      · next radix ds hradix =>
        split at h
        · cases h
        · next hne =>
          obtain ⟨x, hx⟩ := Option.isSome_iff_exists.1 h
          obtain ⟨n, hn, hbits⟩ := Option.bind_eq_some_iff.1 hx
          obtain ⟨letter, hbase, rfl⟩ := radix?_eq_some_iff.1 hradix
          obtain ⟨values, hds, rfl⟩ := radixValue?_eq_some_iff.1 hn
          refine .inr (.inr ⟨_, .mk hbase (by simpa using hne) hds, ?_⟩)
          by_contra hlarge
          simp only [Nat.pow_eq, if_neg hlarge] at hbits
          cases hbits
      · rw [Option.isSome_map] at h
        exact .inl (isDecimal_iff.2 h)
  · rintro (h | ⟨negative, h⟩ | ⟨n, h, hn⟩)
    · obtain ⟨sign, hsign, ht⟩ := exists_sign t
      obtain ⟨d, hd⟩ := Option.isSome_iff_exists.1 (isDecimal_iff.1 h)
      rw [ht, literalTrimmed?_decimal hsign hd]
      rfl
    · rw [literalTrimmed?_infinity h]
      rfl
    · rw [literalTrimmed?_radix h, if_pos hn]
      rfl

/-! ### Readers that know more texts -/

/-- The characters of decimals. -/
def isDecimalChar (c : Char) : Bool :=
  c.isDigit || c = '.' || c = 'e' || c = 'E' || c = '+' || c = '-'

/-- A reader of doubles: of the texts of such characters it reads the decimals, and no others.
It may know further texts, such as words. -/
structure ReadsDecimals (read : List Char → Option Float) : Prop where
  accepts : ∀ t, (∀ c ∈ t, isDecimalChar c = true) → ((read t).isSome = true ↔ IsDecimal t)
  value : ∀ {negative sign t d}, IsSign negative sign → decimal? t = some d →
    read (sign ++ t) = some (signed negative d.toFloat)

/-- A text without a plus at its start. -/
def withoutPlus : List Char → List Char
  | '+' :: t => t
  | t => t

/-- The value of the digits of a base below `2 ^ 64`, with an optional plus before them. -/
def unsigned? (radix : ℕ) (ds : List Char) : Option ℕ :=
  let ds := withoutPlus ds
  if ds.isEmpty then none else (radixValue? radix ds).filter (· < Nat.pow 2 64)

/-- The number that a text denotes, if decimals are left to a reader. It is asked only for a text
of the characters of decimals with a digit among them. -/
def literalBy? (read : List Char → Option Float) (text : List Char) : Option Float :=
  let t := Text.trim text
  let (negative, unsigned) := splitSign t
  if unsigned = "Infinity".toList then some (signed negative (1.0 / 0.0))
  else
    match radix? t with
    | some (radix, ds) =>
      if ds.isEmpty || ds.head? = some '+' then none else (unsigned? radix ds).map Float.ofNat
    | none => if t.all isDecimalChar && t.any Char.isDigit then read t else none

theorem isDecimalChar_of_isDigit {c : Char} (h : c.isDigit = true) : isDecimalChar c = true := by
  simp [isDecimalChar, h]

theorem IsSignificand.chars (h : IsSignificand t) :
    (∀ c ∈ t, isDecimalChar c = true) ∧ ∃ c ∈ t, c.isDigit = true := by
  have hdigits : ∀ {ds : List Char}, (∀ c ∈ ds, c.isDigit = true) →
      ∀ c ∈ ds, isDecimalChar c = true :=
    fun h c hc => isDecimalChar_of_isDigit (h c hc)
  have hexists : ∀ {ds : List Char}, IsDigits ds → ∃ c ∈ ds, c.isDigit = true := by
    intro ds h
    obtain ⟨c, rest, rfl⟩ := List.exists_cons_of_ne_nil h.ne_nil
    exact ⟨c, List.mem_cons_self, h.digits c List.mem_cons_self⟩
  cases h with
  | whole h => exact ⟨hdigits h.digits, hexists h⟩
  | point h hfraction =>
    obtain ⟨c, hc, hdigit⟩ := hexists h
    exact ⟨List.forall_mem_append.2
      ⟨hdigits h.digits, List.forall_mem_cons.2 ⟨by decide, hdigits hfraction⟩⟩,
      c, List.mem_append_left _ hc, hdigit⟩
  | fraction h =>
    obtain ⟨c, hc, hdigit⟩ := hexists h
    exact ⟨List.forall_mem_cons.2 ⟨by decide, hdigits h.digits⟩,
      c, List.mem_cons_of_mem _ hc, hdigit⟩

theorem IsSign.chars {negative : Bool} (h : IsSign negative t) :
    ∀ c ∈ t, isDecimalChar c = true := by
  cases h <;> exact List.all_eq_true.1 (by decide)

theorem IsExponent.chars (h : IsExponent t) : ∀ c ∈ t, isDecimalChar c = true := by
  cases h with
  | absent => exact List.all_eq_true.1 (by decide)
  | present hletter hsign hds =>
    refine List.forall_mem_cons.2 ⟨by rcases hletter with rfl | rfl <;> decide, ?_⟩
    exact List.forall_mem_append.2
      ⟨hsign.chars, fun c hc => isDecimalChar_of_isDigit (hds.digits c hc)⟩

/-- A decimal has a digit, and no other characters than the reader is asked for. -/
theorem IsDecimal.chars (h : IsDecimal t) :
    (t.all isDecimalChar && t.any Char.isDigit) = true := by
  obtain ⟨hsign, hsignificand, hexponent⟩ := h
  obtain ⟨hchars, c, hc, hdigit⟩ := hsignificand.chars
  rw [Bool.and_eq_true, List.all_eq_true, List.any_eq_true]
  exact ⟨List.forall_mem_append.2 ⟨hsign.chars, List.forall_mem_append.2
      ⟨hchars, hexponent.chars⟩⟩,
    c, List.mem_append_right _ (List.mem_append_left _ hc), hdigit⟩

/-- A plus before the digits is refused first, so it does not matter that it may stand there. -/
theorem unsigned?_eq (radix : ℕ) (ds : List Char) :
    (if ds.isEmpty || ds.head? = some '+' then none else (unsigned? radix ds).map Float.ofNat) =
      if ds.isEmpty then none
      else (radixValue? radix ds).bind fun n =>
        if n < Nat.pow 2 64 then some (Float.ofNat n) else none := by
  cases ds with
  | nil => rfl
  | cons c ds =>
    by_cases hplus : c = '+'
    · subst hplus
      rfl
    · have hunsigned : unsigned? radix (c :: ds) =
          (radixValue? radix (c :: ds)).filter (· < Nat.pow 2 64) := by
        have hkept : withoutPlus (c :: ds) = c :: ds := by simp [withoutPlus, hplus]
        rw [unsigned?, hkept]
        rfl
      rw [hunsigned, if_neg (by simpa using hplus), if_neg (by simp)]
      cases radixValue? radix (c :: ds) with
      | none => rfl
      | some n => by_cases hn : n < Nat.pow 2 64 <;> simp [Option.filter, hn]

/-- A text that the reader is asked for is read as a decimal, and no other text is one. -/
theorem ReadsDecimals.read_eq {read : List Char → Option Float} (h : ReadsDecimals read)
    (t : List Char) :
    (if t.all isDecimalChar && t.any Char.isDigit then read t else none) =
      (decimal? (splitSign t).2).map fun d => signed (splitSign t).1 d.toFloat := by
  obtain ⟨sign, hsign, ht⟩ := exists_sign t
  cases hd : decimal? (splitSign t).2 with
  | some d =>
    have hdecimal : IsDecimal t := isDecimal_iff.2 (by rw [hd]; rfl)
    have hvalue := h.value hsign hd
    rw [← ht] at hvalue
    rw [if_pos hdecimal.chars, hvalue]
    rfl
  | none =>
    have hnot : ¬IsDecimal t := by
      rw [isDecimal_iff, hd]
      exact Bool.false_ne_true
    split
    · next hchars =>
      rw [Bool.and_eq_true, List.all_eq_true] at hchars
      exact Option.not_isSome_iff_eq_none.1 ((h.accepts t hchars.1).not.2 hnot)
    · rfl

/-- It does not matter that the reader knows other texts: decimals may be left to it. -/
theorem literalBy?_eq {read : List Char → Option Float} (hread : ReadsDecimals read)
    (t : List Char) : literalBy? read t = literal? t := by
  simp only [literalBy?, literal?, literalTrimmed?]
  generalize Text.trim t = t
  split
  · rfl
  · cases radix? t with
    | some base => exact unsigned?_eq base.1 base.2
    | none => exact hread.read_eq t

/-! ### The grammar and the values -/

/-- **The numeric literals are exactly those of the grammar.** A text without the blanks at its
ends is a number if it is a decimal, an infinity, or a whole number below `2 ^ 64` in a base, and
otherwise not. An infinity has its sign, and a whole number in a base is the nearest double. And
decimals may be left to a reader that knows other texts besides. -/
theorem literal?_grammar (t : List Char) :
    ((literal? t).isSome = true ↔ IsDecimal (Text.trim t) ∨
      (∃ negative, IsInfinity negative (Text.trim t)) ∨
        ∃ n, IsRadixNumeral (Text.trim t) n ∧ n < 2 ^ 64) ∧
    (∀ negative, IsInfinity negative (Text.trim t) →
      literal? t = some (signed negative (1.0 / 0.0))) ∧
    (∀ n, IsRadixNumeral (Text.trim t) n → n < 2 ^ 64 →
      ∃ x, literal? t = some x ∧ IsNearest x n) ∧
    ∀ read, ReadsDecimals read → literalBy? read t = literal? t := by
  refine ⟨isSome_literalTrimmed?_iff, fun negative h => literalTrimmed?_infinity h, ?_,
    fun read hread => literalBy?_eq hread t⟩
  intro n h hn
  refine ⟨Float.ofNat n, ?_, isNearest_ofNat (by norm_num) hn⟩
  rw [literal?, literalTrimmed?_radix h, if_pos hn]

/-- A reader that knows two words besides decimals. -/
def wordReader (t : List Char) : Option Float :=
  if t = "inf".toList then some (1.0 / 0.0)
  else if t = "nan".toList then some (0.0 / 0.0)
  else (decimal? (splitSign t).2).map fun d => signed (splitSign t).1 d.toFloat

theorem readsDecimals_wordReader : ReadsDecimals wordReader where
  accepts t ht := by
    have hinf : t ≠ "inf".toList := by
      rintro rfl
      exact absurd (ht 'i' List.mem_cons_self) (by decide)
    have hnan : t ≠ "nan".toList := by
      rintro rfl
      exact absurd (ht 'n' List.mem_cons_self) (by decide)
    rw [wordReader, if_neg hinf, if_neg hnan, Option.isSome_map, isDecimal_iff]
  value {negative sign t d} hsign hd := by
    have hsplit := splitSign_append hsign fun c hc => ne_sign_of_decimal hd hc
    have hdecimal : IsDecimal (sign ++ t) := isDecimal_iff.2 (by rw [hsplit, hd]; rfl)
    have hword : ∀ word : List Char, (word.all isDecimalChar && word.any Char.isDigit) = false →
        sign ++ t ≠ word := by
      rintro word hchars rfl
      rw [hdecimal.chars] at hchars
      cases hchars
    rw [wordReader, if_neg (hword _ (by decide)), if_neg (hword _ (by decide)), hsplit, hd]
    rfl

/-- A negative infinity, a whole number with 54 bits that is rounded, and a word that only the
reader knows. -/
theorem literal?_beyondMantissa :
    IsInfinity true (Text.trim " -Infinity".toList) ∧
      literal? " -Infinity".toList = some (signed true (1.0 / 0.0)) ∧
      IsRadixNumeral (Text.trim "0x20000000000001".toList) 9007199254740993 ∧
      (∃ x, literal? "0x20000000000001".toList = some x ∧
        IsNearest x (9007199254740993 : ℕ)) ∧
      ReadsDecimals wordReader ∧ (wordReader "inf".toList).isSome = true ∧
      literalBy? wordReader "inf".toList = literal? "inf".toList := by
  have hvalue : radixValue? 16 "20000000000001".toList = some 9007199254740993 := rfl
  have hradix : IsRadixNumeral "0x20000000000001".toList 9007199254740993 := by
    obtain ⟨values, hds, hn⟩ := radixValue?_eq_some_iff.1 hvalue
    rw [hn]
    exact .mk .lowerHex (by decide) hds
  obtain ⟨-, hinfinity, -, -⟩ := literal?_grammar " -Infinity".toList
  obtain ⟨-, -, hnearest, -⟩ := literal?_grammar "0x20000000000001".toList
  obtain ⟨-, -, -, hreader⟩ := literal?_grammar "inf".toList
  exact ⟨.mk .minus, hinfinity true (.mk .minus), hradix, hnearest _ hradix (by norm_num),
    readsDecimals_wordReader, rfl, hreader _ readsDecimals_wordReader⟩

example : ∀ t ∈ ["", ".", "1e", "1_000", "inf", "nan", "+0x1", "0x+1", "0x10000000000000000"],
    literal? t.toList = none := by
  simp only [List.forall_mem_cons]
  exact ⟨rfl, rfl, rfl, rfl, rfl, rfl, rfl, rfl, rfl, by simp⟩

end Number

end LineScript
