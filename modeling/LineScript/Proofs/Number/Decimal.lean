import LineScript.Number.Decimal
import LineScript.Proofs.Number.Doubles

/-!
# Decimals read as doubles

The double of a decimal is the nearest one to the number that the decimal denotes, however
the decimal is written.

- `Decimal.value`: the number that a decimal denotes.
- `mul_finite`, `div_finite`: products and quotients of doubles are rounded from their exact
  value.
- `Decimal.toFloat_eq_nearest`, `Decimal.toFloat_congr`: decimals that denote the same number
  have the same double.
- `Decimal.toFloat_shortest`: the shortest decimal of a double reads back as the double.
-/

namespace LineScript

namespace Number

open Float.Model Float.Model.UnpackedFloat

/-! ### Sizes -/

section

variable {v w : ℚ} {m : ℕ} {e : ℤ}

theorem two_zpow_pos (e : ℤ) : (0 : ℚ) < 2 ^ e :=
  zpow_pos (by norm_num) e

theorem pow_toNat (b : ℚ) {e : ℤ} (he : 0 ≤ e) : b ^ e.toNat = b ^ e := by
  rw [← zpow_natCast, Int.toNat_of_nonneg he]

theorem log_binary (hm : m ≠ 0) (e : ℤ) : Int.log 2 ((m : ℚ) * 2 ^ e) = m.log2 + e := by
  have hvalue : (m : ℚ) * 2 ^ e / 2 ^ e = m := mul_div_cancel_right₀ _ (two_zpow_pos e).ne'
  exact log_of_bounds hm hvalue.ge (by linarith)

theorem le_log_of_le (hv : 0 < v) (h : (2 : ℚ) ^ e ≤ v) : e ≤ Int.log 2 v :=
  (Int.zpow_le_iff_le_log (by norm_num) hv).1 (by exact_mod_cast h)

theorem two_zpow_log_le (hv : 0 < v) : (2 : ℚ) ^ Int.log 2 v ≤ v := by
  exact_mod_cast Int.zpow_log_le_self (b := 2) (by norm_num) hv

theorem lt_two_zpow_log_add_one (v : ℚ) : v < (2 : ℚ) ^ (Int.log 2 v + 1) := by
  exact_mod_cast Int.lt_zpow_succ_log_self (b := 2) (by norm_num) v

/-- The size of a product is at least that of the factors together. -/
theorem log_mul (hv : 0 < v) (hw : 0 < w) : Int.log 2 v + Int.log 2 w ≤ Int.log 2 (v * w) := by
  apply le_log_of_le (mul_pos hv hw)
  rw [zpow_add₀ (by norm_num)]
  exact mul_le_mul (two_zpow_log_le hv) (two_zpow_log_le hw) (two_zpow_pos _).le hv.le

/-- The size of a quotient is at most one below the difference of the sizes. -/
theorem log_div (hv : 0 < v) (hw : 0 < w) :
    Int.log 2 v - Int.log 2 w - 1 ≤ Int.log 2 (v / w) := by
  apply le_log_of_le (div_pos hv hw)
  rw [le_div_iff₀ hw]
  calc (2 : ℚ) ^ (Int.log 2 v - Int.log 2 w - 1) * w
      ≤ 2 ^ (Int.log 2 v - Int.log 2 w - 1) * 2 ^ (Int.log 2 w + 1) :=
        mul_le_mul_of_nonneg_left (lt_two_zpow_log_add_one w).le (two_zpow_pos _).le
    _ = 2 ^ Int.log 2 v := by
        rw [← zpow_add₀ (by norm_num)]
        congr 1
        ring
    _ ≤ v := two_zpow_log_le hv

end

/-! ### Products and quotients -/

section

variable {m₁ m₂ : ℕ} {e₁ e₂ : ℤ} (h₁ : 0 < m₁) (h₂ : 0 < m₂)

theorem binary_pos {m : ℕ} (h : 0 < m) (e : ℤ) : (0 : ℚ) < m * 2 ^ e :=
  mul_pos (by exact_mod_cast h) (two_zpow_pos e)

/-- The product of two doubles is the double nearest to the exact product, when the product of
the mantissas has enough bits. -/
theorem mul_finite (he : e₁ + e₂ ≤ target ((m₁ * 2 ^ e₁) * (m₂ * 2 ^ e₂))) :
    mul Format.binary64 (.finite .positive m₁ e₁ h₁) (.finite .positive m₂ e₂ h₂) =
      nearest ((m₁ * 2 ^ e₁) * (m₂ * 2 ^ e₂)) := by
  have hv := mul_pos (binary_pos h₁ e₁) (binary_pos h₂ e₂)
  refine roundWithAccuracy_eq_nearest hv (cut_exact ?_) he
  rw [div_eq_iff (two_zpow_pos _).ne', zpow_add₀ (by norm_num)]
  push_cast
  ring

/-- The quotient of two doubles is the double nearest to the exact quotient. -/
theorem div_finite :
    div Format.binary64 (.finite .positive m₁ e₁ h₁) (.finite .positive m₂ e₂ h₂) =
      nearest ((m₁ * 2 ^ e₁) / (m₂ * 2 ^ e₂)) := by
  have hv := div_pos (binary_pos h₁ e₁) (binary_pos h₂ e₂)
  have hlog := log_div (binary_pos h₁ e₁) (binary_pos h₂ e₂)
  rw [log_binary h₁.ne', log_binary h₂.ne'] at hlog
  let t := min (e₁ - e₂)
    (Format.binary64.targetExponent (totalExponent m₁ e₁ - totalExponent m₂ e₂))
  let n := (e₁ - e₂ - t).toNat
  have ht : t ≤ target ((m₁ * 2 ^ e₁) / (m₂ * 2 ^ e₂)) := by
    refine (min_le_right _ _).trans ?_
    simp only [Format.targetExponent, totalExponent, Format.mantissaBits, Format.minExponent,
      target]
    norm_num
    omega
  have hn : (n : ℤ) = e₁ - e₂ - t := Int.toNat_of_nonneg (sub_nonneg.2 (min_le_left _ _))
  have hvalue : (m₁ * 2 ^ e₁) / (m₂ * 2 ^ e₂) / 2 ^ t = ((m₁ <<< n : ℕ) : ℚ) / m₂ := by
    have hm₂ : (m₂ : ℚ) ≠ 0 := by exact_mod_cast h₂.ne'
    have hsplit : (2 : ℚ) ^ e₁ = 2 ^ n * 2 ^ e₂ * 2 ^ t := by
      rw [← zpow_natCast, hn, ← zpow_add₀ (by norm_num), ← zpow_add₀ (by norm_num)]
      congr 1
      ring
    rw [Nat.shiftLeft_eq, hsplit]
    push_cast
    field_simp
  have hcut := @cut_fraction (m₁ <<< n) m₂ h₂
  rw [← hvalue] at hcut
  exact roundWithAccuracy_eq_nearest hv hcut ht

end

/-! ### Mantissas and powers of ten as doubles -/

/-- A natural number below `2 ^ 53` is a double. -/
theorem unpack_toFloat {m : ℕ} (hm : m ≠ 0) (hlt : m < 2 ^ 53) :
    ∃ n e h, m.toUInt64.toFloat.toModel.unpack = .finite .positive n e h ∧
      n.log2 = 52 ∧ (n : ℚ) * 2 ^ e = m := by
  have hlog : m.log2 < 53 := (Nat.log2_lt hm).2 hlt
  let s := 52 - m.log2
  have hpos : 0 < m <<< s := by
    rw [Nat.shiftLeft_eq]
    exact Nat.mul_pos (Nat.pos_of_ne_zero hm) (Nat.two_pow_pos s)
  have hbits : (m <<< s).log2 = 52 := by
    have hle := Nat.mul_le_mul_right (2 ^ s) (Nat.log2_self_le hm)
    have hlt := Nat.mul_lt_mul_of_pos_right (Nat.lt_log2_self (n := m)) (Nat.two_pow_pos s)
    rw [← pow_add, Nat.add_sub_of_le (by omega)] at hle
    rw [← pow_add, show m.log2 + 1 + s = 53 by omega] at hlt
    rw [Nat.log2_eq_iff hpos.ne', Nat.shiftLeft_eq]
    exact ⟨hle, hlt⟩
  have hcanonical : Canonical (m <<< s) (-s) := ⟨hpos, hbits.le, by omega, .inl hbits⟩
  have hunpack : m.toUInt64.toFloat.toModel.unpack =
      .finite .positive (m <<< s) (-s) hcanonical.pos := by
    rw [← unpack_pack_finite .positive hcanonical (by omega), ← hcanonical.roundWithAccuracy_eq]
    have hround : UnpackedFloat.ofUInt64 Format.binary64 m.toUInt64 =
        roundWithAccuracy Format.binary64 .positive (m <<< s) (-s) .exact := by
      have hnat : m.toUInt64.toNat = m := Nat.mod_eq_of_lt (by omega)
      have hcompare : compare (m : ℤ) 0 = .gt := by
        rw [Int.compare_eq_gt]
        omega
      have hshift : (0 - max ((m.log2 : ℤ) + 0 - 52) (-1074)).toNat = s := by omega
      rw [UnpackedFloat.ofUInt64, UnpackedFloat.ofNat, UnpackedFloat.ofInt,
        UnpackedFloat.normalize, hnat, hcompare]
      dsimp only
      rw [Int.toNat_natCast, UnpackedFloat.round, targetExponent_eq, decreaseExponent, hshift]
      dsimp only
      rw [zero_sub]
    rw [← hround]
    rfl
  refine ⟨_, _, _, hunpack, hbits, ?_⟩
  rw [Nat.shiftLeft_eq, zpow_neg, zpow_natCast]
  push_cast
  exact mul_inv_cancel_right₀ (pow_ne_zero _ (by norm_num)) _

/-- Whether a double is the `k`-th power of ten. -/
def isPowerOfTen (k : ℕ) : UnpackedFloat → Bool
  | .finite .positive m e _ => m * 2 ^ e.toNat = 10 ^ k * 2 ^ (-e).toNat
  | _ => false

theorem isPowerOfTen_table : ∀ k (h : k < Float.exactlyRepresentablePowersOfTen.size),
    isPowerOfTen k Float.exactlyRepresentablePowersOfTen[k].toModel.unpack = true := by
  decide

/-- The powers in the table are powers of ten. -/
theorem unpack_power {k : ℕ} (h : k < Float.exactlyRepresentablePowersOfTen.size) :
    ∃ n e hn, Float.exactlyRepresentablePowersOfTen[k].toModel.unpack =
      .finite .positive n e hn ∧ (n : ℚ) * 2 ^ e = 10 ^ k := by
  have hpower := isPowerOfTen_table k h
  generalize Float.exactlyRepresentablePowersOfTen[k].toModel.unpack = parts at hpower ⊢
  rw [isPowerOfTen.eq_def] at hpower
  split at hpower
  · next n e hn =>
    refine ⟨n, e, hn, rfl, ?_⟩
    have hcast : (n : ℚ) * 2 ^ e.toNat = 10 ^ k * 2 ^ (-e).toNat := by
      exact_mod_cast of_decide_eq_true hpower
    have hsplit : (2 : ℚ) ^ e.toNat = 2 ^ e * 2 ^ (-e).toNat := by
      rw [← zpow_natCast, ← zpow_natCast, ← zpow_add₀ (by norm_num)]
      congr 1
      omega
    have hne : (2 : ℚ) ^ (-e).toNat ≠ 0 := pow_ne_zero _ (by norm_num)
    rw [hsplit, ← mul_assoc] at hcast
    exact mul_right_cancel₀ hne hcast
  · cases hpower

/-! ### Reading a decimal -/

/-- The number `mantissa · 10 ^ exponent`. -/
def Decimal.value (d : Decimal) : ℚ :=
  d.mantissa * 10 ^ d.exponent

/-- A decimal with a large exponent is beyond all doubles. -/
theorem overflow_of_large {m : ℕ} (hm : m ≠ 0) {e : ℤ} (he : 2 ^ 11 < e) :
    (2 : ℚ) ^ (1024 : ℤ) ≤ m * 10 ^ e := by
  have hone : (1 : ℚ) ≤ m := by exact_mod_cast Nat.one_le_iff_ne_zero.2 hm
  calc (2 : ℚ) ^ (1024 : ℤ) ≤ 2 ^ e := zpow_le_zpow_right₀ (by norm_num) (by omega)
    _ ≤ 10 ^ e := zpow_le_zpow_left₀ (by omega) (by norm_num) (by norm_num)
    _ ≤ m * 10 ^ e := le_mul_of_one_le_left (zpow_pos (by norm_num) e).le hone

/-- A decimal with a small exponent is below all doubles. -/
theorem underflow_of_small {m : ℕ} {e : ℤ} (he : e < -(2 ^ 11 + m.log2)) :
    (m : ℚ) * 10 ^ e < (2 : ℚ) ^ (-1075 : ℤ) := by
  have hm : (m : ℚ) < 2 ^ ((m.log2 : ℤ) + 1) := by
    have hlt : m < 2 ^ (m.log2 + 1) := Nat.lt_log2_self
    exact_mod_cast hlt
  have hten : (10 : ℚ) ^ e ≤ 2 ^ e := by
    have hpowers : (2 : ℚ) ^ (-e) ≤ 10 ^ (-e) :=
      zpow_le_zpow_left₀ (by omega) (by norm_num) (by norm_num)
    rw [zpow_neg, zpow_neg] at hpowers
    exact (inv_le_inv₀ (two_zpow_pos e) (zpow_pos (by norm_num) e)).1 hpowers
  calc (m : ℚ) * 10 ^ e ≤ m * 2 ^ e := mul_le_mul_of_nonneg_left hten (Nat.cast_nonneg m)
    _ < 2 ^ ((m.log2 : ℤ) + 1) * 2 ^ e := mul_lt_mul_of_pos_right hm (two_zpow_pos e)
    _ = 2 ^ ((m.log2 : ℤ) + 1 + e) := (zpow_add₀ (by norm_num) _ _).symm
    _ ≤ 2 ^ (-1075 : ℤ) := zpow_le_zpow_right₀ (by norm_num) (by omega)

theorem pack_congr {f g : UnpackedFloat}
    (h : UnpackedFloat.pack Format.binary64 f = UnpackedFloat.pack Format.binary64 g) :
    Float.Model.pack f = Float.Model.pack g := by
  simp only [Float.Model.pack, h]

/-- A decimal is rounded from its exact value, also where that value need not be computed. -/
theorem pack_ofScientific {m : ℕ} (hm : m ≠ 0) (e : ℤ) :
    Float.Model.ofScientific m e = Float.Model.pack (nearest (m * 10 ^ e)) := by
  have hpos : (0 : ℚ) < m := by exact_mod_cast Nat.pos_of_ne_zero hm
  have hv : (0 : ℚ) < m * 10 ^ e := mul_pos hpos (zpow_pos (by norm_num) e)
  rw [Float.Model.ofScientific, UnpackedFloat.ofScientific, dif_neg hm]
  split
  · next hlarge =>
    have hlarge : 2 ^ 11 < e := by exact_mod_cast hlarge
    exact pack_congr (nearest_overflow (overflow_of_large hm hlarge)).symm
  · split
    · next hsmall =>
      rw [nearest_underflow hv (underflow_of_small (by exact_mod_cast hsmall))]
    · split
      · next hnonneg =>
        have hten : 0 < 10 ^ e.toNat := Nat.pow_pos (by norm_num)
        have hm' : 0 < m <<< 53 := by
          rw [Nat.shiftLeft_eq]
          exact Nat.mul_pos (Nat.pos_of_ne_zero hm) (Nat.two_pow_pos 53)
        have hvalue : ((m <<< 53 : ℕ) * (2 : ℚ) ^ (-53 : ℤ)) * ((10 ^ e.toNat : ℕ) * 2 ^ (0 : ℤ)) =
            m * 10 ^ e := by
          have htwo : (2 : ℚ) ^ 53 * 2 ^ (-53 : ℤ) = 1 := by norm_num
          simp only [Nat.shiftLeft_eq, Nat.cast_mul, Nat.cast_pow, Nat.cast_ofNat, zpow_zero, mul_one]
          rw [pow_toNat 10 hnonneg, mul_assoc (m : ℚ), htwo, mul_one]
        have he : (-53 : ℤ) + 0 ≤ target (m * 10 ^ e) := by
          have hone : (2 : ℚ) ^ (0 : ℤ) ≤ m * 10 ^ e := by
            have hm : (1 : ℚ) ≤ m := by exact_mod_cast Nat.one_le_iff_ne_zero.2 hm
            exact one_le_mul_of_one_le_of_one_le hm (one_le_zpow₀ (by norm_num) hnonneg)
          have hlog := le_log_of_le hv hone
          rw [target]
          omega
        rw [← hvalue] at he ⊢
        rw [← mul_finite hm' hten he]
        rfl
      · next hneg =>
        have hten : 0 < 10 ^ (-e).toNat := Nat.pow_pos (by norm_num)
        have hvalue : ((m : ℚ) * 2 ^ (0 : ℤ)) / ((10 ^ (-e).toNat : ℕ) * 2 ^ (0 : ℤ)) =
            m * 10 ^ e := by
          push_cast
          rw [pow_toNat 10 (by omega : 0 ≤ -e), zpow_neg, mul_one, mul_one, div_inv_eq_mul]
        rw [← hvalue, ← div_finite (Nat.pos_of_ne_zero hm) hten]

namespace Decimal

variable {d d' : Decimal}

theorem value_eq_div {m : ℕ} {e : ℤ} (he : e < 0) :
    (m : ℚ) * 10 ^ e = m / 10 ^ e.natAbs := by
  have hexponent : e = -(e.natAbs : ℤ) := by omega
  conv_lhs => rw [hexponent, zpow_neg, zpow_natCast]
  rfl

theorem value_eq_mul {m : ℕ} {e : ℤ} (he : ¬e < 0) : (m : ℚ) * 10 ^ e = m * 10 ^ e.natAbs := by
  have hexponent : e = (e.natAbs : ℤ) := by omega
  conv_lhs => rw [hexponent, zpow_natCast]

/-- The double of a decimal is the one nearest to the number that the decimal denotes. -/
theorem toFloat_eq_nearest (hd : d.mantissa ≠ 0) :
    d.toFloat = Float.ofModel (Float.Model.pack (nearest d.value)) := by
  obtain ⟨m, e⟩ := d
  rw [toFloat, Float.ofScientific]
  split
  · next hfast =>
    -- a small mantissa and a small power of ten are doubles
    obtain ⟨n, i, hn, hunpack, hbits, hnumber⟩ := unpack_toFloat hd hfast.1
    have hsize : e.natAbs < Float.exactlyRepresentablePowersOfTen.size :=
      Nat.lt_succ_of_le hfast.2
    obtain ⟨p, j, hp, htable, hpower⟩ := unpack_power hsize
    split
    · next hneg =>
      have hvalue : value ⟨m, e⟩ = (n * 2 ^ i) / (p * 2 ^ j) := by
        rw [hnumber, hpower]
        exact value_eq_div (of_decide_eq_true hneg)
      rw [hvalue, ← div_finite hn hp, ← hunpack, ← htable]
      rfl
    · next hneg =>
      have hvalue : value ⟨m, e⟩ = (n * 2 ^ i) * (p * 2 ^ j) := by
        rw [hnumber, hpower]
        exact value_eq_mul fun h => hneg (decide_eq_true h)
      have he : i + j ≤ target ((n * 2 ^ i) * (p * 2 ^ j)) := by
        have hlog := log_mul (binary_pos hn i) (binary_pos hp j)
        rw [log_binary hn.ne', log_binary hp.ne'] at hlog
        rw [target]
        omega
      rw [hvalue, ← mul_finite hn hp he, ← hunpack, ← htable]
      rfl
  · next hslow =>
    have hexponent : (if decide (e < 0) = true then Int.negOfNat e.natAbs
        else Int.ofNat e.natAbs) = e := by
      split
      · next hneg =>
        have hneg := of_decide_eq_true hneg
        rw [Int.negOfNat_eq]
        show -(e.natAbs : ℤ) = e
        omega
      · next hneg =>
        have hneg : ¬e < 0 := fun h => hneg (decide_eq_true h)
        show (e.natAbs : ℤ) = e
        omega
    dsimp only
    rw [hexponent, pack_ofScientific hd e]
    rfl

/-- A decimal that denotes zero is read as zero. -/
theorem toFloat_of_zero (hd : d.mantissa = 0) : d.toFloat = 0.0 := by
  obtain ⟨m, e⟩ := d
  obtain rfl : m = 0 := hd
  have hzero : (0 : ℕ).toUInt64.toFloat.toModel.unpack = .zero .positive := rfl
  rw [toFloat, Float.ofScientific]
  split
  · next hfast =>
    have hsize : e.natAbs < Float.exactlyRepresentablePowersOfTen.size :=
      Nat.lt_succ_of_le hfast.2
    obtain ⟨p, j, hp, htable, -⟩ := unpack_power hsize
    split
    · show Float.ofModel (Float.Model.pack (div _ _ _)) = _
      rw [hzero, htable]
      rfl
    · show Float.ofModel (Float.Model.pack (mul _ _ _)) = _
      rw [hzero, htable]
      rfl
  · rfl

/-- Decimals that denote the same number have the same double. -/
theorem toFloat_congr (h : d.value = d'.value) : d.toFloat = d'.toFloat := by
  have hten : ∀ e : ℤ, (10 : ℚ) ^ e ≠ 0 := fun e => zpow_ne_zero e (by norm_num)
  by_cases hd : d.mantissa = 0
  · have hd' : d'.mantissa = 0 := by
      simpa [value, hd, hten] using h.symm
    rw [toFloat_of_zero hd, toFloat_of_zero hd']
  · have hd' : d'.mantissa ≠ 0 := by
      intro hd'
      simp [value, hd, hd', hten] at h
    rw [toFloat_eq_nearest hd, toFloat_eq_nearest hd', h]

/-! ### The shortest decimal -/

theorem value_stripped (d : Decimal) : d.stripped.value = d.value := by
  suffices hgo : ∀ (n : ℕ) (d : Decimal), (stripped.go n d).value = d.value from hgo _ d
  intro n
  induction n with
  | zero => exact fun _ => rfl
  | succ n ih =>
    intro d
    rw [stripped.go]
    split
    · next hzero =>
      have hm : (d.mantissa : ℚ) = 10 * (d.mantissa / 10 : ℕ) := by
        exact_mod_cast (Nat.mul_div_cancel' (Nat.dvd_of_mod_eq_zero hzero.2)).symm
      rw [ih, value, value, hm, zpow_add_one₀ (by norm_num)]
      ring
    · rfl

/-- The exact decimal of a double denotes the value of the double. -/
theorem value_exact (m : ℕ) (e : ℤ) : (exact m e).value = m * 2 ^ e := by
  rw [value, exact]
  simp only [Nat.pow_eq]
  rcases le_total 0 e with he | he
  · rw [min_eq_right he, Int.toNat_of_nonpos (by omega : -e ≤ 0)]
    push_cast
    rw [pow_toNat 2 he, mul_one, mul_one]
  · -- each factor two of the denominator is a ten with a five in the numerator
    have hten : (10 : ℚ) ^ e = 2 ^ e * 5 ^ e := by
      rw [← mul_zpow]
      norm_num
    have hfive : (5 : ℚ) ^ (-e).toNat * 5 ^ e = 1 := by
      rw [pow_toNat 5 (by omega : 0 ≤ -e), ← zpow_add₀ (by norm_num), neg_add_cancel, zpow_zero]
    rw [min_eq_left he, Int.toNat_of_nonpos he, hten]
    push_cast
    calc (m : ℚ) * 2 ^ 0 * 5 ^ (-e).toNat * (2 ^ e * 5 ^ e)
        = m * 2 ^ e * (5 ^ (-e).toNat * 5 ^ e) := by ring
      _ = m * 2 ^ e := by rw [hfive, mul_one]

section

variable {x : Float} {m : ℕ} {e : ℤ} {h : 0 < m}
  (hx : x.toModel.unpack = .finite .positive m e h)

include hx

theorem toFloat_exact : (exact m e).toFloat = x := by
  obtain ⟨hcanonical, -⟩ := canonical_of_unpack hx
  have hm : (exact m e).mantissa ≠ 0 := by
    have hpos : 0 < m * 2 ^ e.toNat * 5 ^ (-e).toNat := by positivity
    exact hpos.ne'
  rw [toFloat_eq_nearest hm, value_exact, nearest_exact hcanonical, ← hx, ofModel_pack_unpack]

/-- The shortest decimal of a double reads back as the double. -/
theorem toFloat_shortest : (shortest x m e).toFloat = x := by
  have hexact := toFloat_exact hx
  rw [shortest]
  split
  · next d hfind =>
    rw [toFloat_congr d.value_stripped]
    obtain ⟨-, -, heq | ⟨-, hzero⟩ | ⟨-, hzero⟩⟩ := Float.beq_iff_ne_nan_and_eq.1 (toFloat_of_find hfind)
    · exact heq
    · rw [hzero] at hx
      cases hx
    · rw [hzero] at hx
      cases hx
  · rw [toFloat_congr (value_stripped _), hexact]

end

end Decimal

end Number

end LineScript
