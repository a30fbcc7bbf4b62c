import LineScript.Proofs.Number.Decimal

/-!
# The nearest double

The double that a number is rounded to is as near to the number as any double, and where
another one is equally near, its mantissa is even.

- `Binary.value`, `Binary.Closest`, `IsNearest`: the exact value of a double, and what it is for
  a double to be the nearest one.
- `Cut.abs_roundedMantissa_sub_le`: the rounded mantissa is as near as any whole number.
- `nearest_cases`: rounding gives the rounded mantissa at the exponent of the number.
- `exists_place`: a double is a whole number of units of the exponent, or further away than one.
- `isNearest_nearest`, `isNearest_ofNat`: a number is rounded to the nearest double.
-/

namespace LineScript

namespace Number

open Float.Model Float.Model.UnpackedFloat

/-! ### Exact values -/

/-- The number `± mantissa · 2 ^ exponent`. -/
def Binary.value (b : Binary) : ℚ :=
  (if b.negative then -1 else 1) * (b.mantissa * 2 ^ b.exponent)

/-- No double is nearer to the number, and if another one is equally near, the mantissa is
even. -/
structure Binary.Closest (b : Binary) (v : ℚ) : Prop where
  nearest : ∀ y c, Binary.ofFloat? y = some c → |b.value - v| ≤ |c.value - v|
  even : ∀ y c, Binary.ofFloat? y = some c → |c.value - v| = |b.value - v| →
    c.value ≠ b.value → Even b.mantissa

/-- The double is the nearest one to the number. -/
def IsNearest (x : Float) (v : ℚ) : Prop :=
  ∃ b, Binary.ofFloat? x = some b ∧ b.Closest v

theorem two_zpow_add (m n : ℤ) : (2 : ℚ) ^ (m + n) = 2 ^ m * 2 ^ n :=
  zpow_add₀ (by norm_num) m n

/-- A double is zero, or has the mantissa and the exponent of a double. -/
theorem canonical_of_ofFloat? {y : Float} {c : Binary} (h : Binary.ofFloat? y = some c) :
    c.mantissa = 0 ∨ Canonical c.mantissa c.exponent := by
  rw [Binary.ofFloat?_eq] at h
  split at h
  · next s m e hm hy =>
    obtain rfl := Option.some.inj h
    exact .inr (canonical_of_unpack hy).1
  · obtain rfl := Option.some.inj h
    exact .inl rfl
  · cases h
  · cases h

/-! ### The rounded mantissa -/

namespace Cut

variable {em : ExtendedMantissa} {u : ℚ}

/-- The rounded mantissa is at most half a unit away, and a half goes to the even mantissa. -/
theorem abs_roundedMantissa_sub_le_half (h : Cut em u) :
    |(em.roundedMantissa : ℚ) - u| ≤ 1 / 2 ∧
      (|(em.roundedMantissa : ℚ) - u| = 1 / 2 → Even em.roundedMantissa) := by
  obtain ⟨m, round, sticky⟩ := em
  cases round <;> cases sticky
  · -- nothing is left
    have hrest : u - m = 0 := h
    show |(m : ℚ) - u| ≤ 1 / 2 ∧ (|(m : ℚ) - u| = 1 / 2 → Even m)
    have hzero : (m : ℚ) - u = 0 := by linarith
    rw [hzero, abs_zero]
    norm_num
  · -- less than a half is dropped
    obtain ⟨hpos, hhalf⟩ : 0 < u - m ∧ u - m < 1 / 2 := h
    show |(m : ℚ) - u| ≤ 1 / 2 ∧ (|(m : ℚ) - u| = 1 / 2 → Even m)
    rw [abs_of_neg (by linarith)]
    exact ⟨by linarith, fun heq => by linarith⟩
  · -- a half is dropped if the mantissa is even
    have hrest : u - m = 1 / 2 := h
    show |((m + m % 2 : ℕ) : ℚ) - u| ≤ 1 / 2 ∧
      (|((m + m % 2 : ℕ) : ℚ) - u| = 1 / 2 → Even (m + m % 2))
    have heven : Even (m + m % 2) := by
      rw [Nat.even_iff]
      omega
    refine ⟨?_, fun _ => heven⟩
    rcases Nat.mod_two_eq_zero_or_one m with hbit | hbit
    · rw [hbit, Nat.add_zero, abs_of_neg (by linarith)]
      linarith
    · rw [hbit, Nat.cast_add, Nat.cast_one, abs_of_pos (by linarith)]
      linarith
  · -- more than a half gives the next mantissa
    obtain ⟨hhalf, hlt⟩ : 1 / 2 < u - m ∧ u - m < 1 := h
    show |((m + 1 : ℕ) : ℚ) - u| ≤ 1 / 2 ∧ (|((m + 1 : ℕ) : ℚ) - u| = 1 / 2 → Even (m + 1))
    rw [Nat.cast_add, Nat.cast_one, abs_of_pos (by linarith)]
    exact ⟨by linarith, fun heq => by linarith⟩

/-- No whole number is nearer than the rounded mantissa, and if another one is equally near, the
rounded mantissa is even. -/
theorem abs_roundedMantissa_sub_le (h : Cut em u) (k : ℤ) :
    |(em.roundedMantissa : ℚ) - u| ≤ |k - u| ∧
      (|k - u| = |(em.roundedMantissa : ℚ) - u| → (k : ℚ) ≠ em.roundedMantissa →
        Even em.roundedMantissa) := by
  obtain ⟨hhalf, heven⟩ := h.abs_roundedMantissa_sub_le_half
  by_cases hk : (k : ℚ) = em.roundedMantissa
  · rw [hk]
    exact ⟨le_rfl, fun _ hne => absurd rfl hne⟩
  · -- two whole numbers are at least one apart
    have hne : k ≠ (em.roundedMantissa : ℤ) := by
      rintro rfl
      exact hk (Int.cast_natCast _)
    have hapart : (1 : ℚ) ≤ |(k : ℚ) - em.roundedMantissa| := by
      have hone : 1 ≤ |k - (em.roundedMantissa : ℤ)| := Int.one_le_abs (sub_ne_zero.2 hne)
      exact_mod_cast hone
    have htriangle : |(k : ℚ) - em.roundedMantissa| ≤
        |(k : ℚ) - u| + |(em.roundedMantissa : ℚ) - u| := by
      rw [abs_sub_comm (em.roundedMantissa : ℚ) u]
      exact abs_sub_le (k : ℚ) u em.roundedMantissa
    refine ⟨by linarith, fun heq _ => heven ?_⟩
    linarith

end Cut

/-! ### The double that a number is rounded to -/

section

variable {v : ℚ}

/-- In units of its exponent a number has at most 53 bits. -/
theorem div_target_lt (v : ℚ) : v / 2 ^ target v < 2 ^ 53 := by
  rw [div_lt_iff₀ (two_zpow_pos _)]
  calc v < (2 : ℚ) ^ (Int.log 2 v + 1) := lt_two_zpow_log_add_one v
    _ ≤ 2 ^ ((53 : ℕ) + target v) := by
      refine zpow_le_zpow_right₀ (by norm_num) ?_
      rw [target]
      omega
    _ = 2 ^ 53 * 2 ^ target v := by rw [two_zpow_add, zpow_natCast]

/-- It has 53 bits, unless the exponent is the smallest one. -/
theorem le_div_target (hv : 0 < v) (h : target v ≠ -1074) : (2 : ℚ) ^ 52 ≤ v / 2 ^ target v := by
  have htarget : ((52 : ℕ) : ℤ) + target v = Int.log 2 v := by
    rw [target] at h ⊢
    omega
  rw [le_div_iff₀ (two_zpow_pos _), ← zpow_natCast, ← two_zpow_add, htarget]
  exact two_zpow_log_le hv

/-- A mantissa of 54 bits loses its last one. -/
theorem shiftToTargetExponent_carry {e : ℤ} (he : -1074 ≤ e) :
    shiftToTargetExponent Format.binary64 (2 ^ 53) e .exact = (⟨2 ^ 52, false, false⟩, e + 1) := by
  have htarget : Format.binary64.targetExponent (totalExponent (2 ^ 53) e) = e + 1 := by
    rw [targetExponent_eq, Nat.log2_two_pow]
    omega
  have hshift : (e + 1 - e).toNat = 1 := by omega
  rw [shiftToTargetExponent, htarget, shiftToExponent, hshift]
  rfl

/-- A rounded mantissa that is shifted to a positive one gives a double with that mantissa. -/
theorem rounded_of_shift {em : ExtendedMantissa} {e e' : ℤ} {m : ℕ}
    (hshift : shiftToTargetExponent Format.binary64 em.roundedMantissa e .exact =
      (⟨m, false, false⟩, e')) (hm : 0 < m) : rounded em e = .finite .positive m e' hm := by
  rw [rounded, hshift]
  exact dif_neg hm.ne'

/-- The mantissa that a number is rounded to, in units of its exponent. -/
def roundedUnits (v : ℚ) : ℕ :=
  (cutOf (v / 2 ^ target v)).roundedMantissa

theorem roundedUnits_le (hv : 0 < v) : roundedUnits v ≤ 2 ^ 53 := by
  have hcut := cut_cutOf (div_pos hv (two_zpow_pos (target v))).le
  have hmantissa : (cutOf (v / 2 ^ target v)).mantissa < 2 ^ 53 := by
    have hlt := lt_of_le_of_lt hcut.le (div_target_lt v)
    exact_mod_cast hlt
  -- rounding adds one at most
  have hhalf := (abs_le.1 hcut.abs_roundedMantissa_sub_le_half.1).2
  have hround : (roundedUnits v : ℚ) < (cutOf (v / 2 ^ target v)).mantissa + 2 := by
    rw [roundedUnits]
    linarith [hcut.lt]
  have hround : roundedUnits v < (cutOf (v / 2 ^ target v)).mantissa + 2 := by
    exact_mod_cast hround
  omega

theorem le_roundedUnits (hv : 0 < v) (h : target v ≠ -1074) : 2 ^ 52 ≤ roundedUnits v := by
  refine le_trans ?_ (mantissa_le_roundedMantissa _)
  exact Nat.le_floor (by exact_mod_cast le_div_target hv h)

/-- Rounding gives zero, or a double of the size of the rounded mantissa at the exponent of the
number. -/
theorem nearest_cases (hv : 0 < v) :
    (roundedUnits v = 0 ∧ nearest v = .zero .positive) ∨
      ∃ m e, ∃ h : Canonical m e, nearest v = .finite .positive m e h.pos ∧ e ≤ target v + 1 ∧
        (m : ℚ) * 2 ^ e = roundedUnits v * 2 ^ target v ∧ (Even (roundedUnits v) → Even m) := by
  have hlowest : -1074 ≤ target v := le_max_right _ _
  rcases (roundedUnits_le hv).lt_or_eq with hlt | hcarry
  · rcases Nat.eq_zero_or_pos (roundedUnits v) with hzero | hpos
    · exact .inl ⟨hzero, rounded_of_zero hzero _⟩
    · right
      have hlog : (roundedUnits v).log2 < 53 := (Nat.log2_lt hpos.ne').2 hlt
      have hcanonical : Canonical (roundedUnits v) (target v) := by
        refine ⟨hpos, by omega, hlowest, ?_⟩
        by_cases htarget : target v = -1074
        · exact .inr htarget
        · have hbit := (Nat.le_log2 hpos.ne').2 (le_roundedUnits hv htarget)
          exact .inl (by omega)
      have hnearest := rounded_of_shift hcanonical.shiftToTargetExponent_eq hpos
      exact ⟨_, _, hcanonical, hnearest, by omega, rfl, id⟩
  · right
    have hcanonical : Canonical (2 ^ 52) (target v + 1) :=
      ⟨by norm_num, by rw [Nat.log2_two_pow], by omega, .inl (Nat.log2_two_pow)⟩
    have hshift := shiftToTargetExponent_carry hlowest
    rw [← hcarry] at hshift
    refine ⟨_, _, hcanonical, rounded_of_shift hshift _, le_rfl, ?_, fun _ => by decide⟩
    rw [hcarry, two_zpow_add]
    push_cast
    ring

/-! ### Other doubles -/

/-- A double is a whole number of units of the number's exponent, or such a number lies between
the two. -/
theorem exists_place (hv : 0 < v) {y : Float} {c : Binary} (hc : Binary.ofFloat? y = some c) :
    ∃ k : ℤ, c.value = k * 2 ^ target v ∨ |k * 2 ^ target v - v| < |c.value - v| := by
  rcases canonical_of_ofFloat? hc with hzero | hcanonical
  · refine ⟨0, .inl ?_⟩
    rw [Binary.value, hzero]
    simp
  · have hsize : (0 : ℚ) < c.mantissa * 2 ^ c.exponent := binary_pos hcanonical.pos c.exponent
    by_cases hsign : c.negative = true
    · -- zero lies between the two
      refine ⟨0, .inr ?_⟩
      rw [Binary.value, if_pos hsign, Int.cast_zero, zero_mul, zero_sub, abs_neg, abs_of_pos hv,
        abs_of_neg (by linarith)]
      linarith
    · rw [Binary.value, if_neg hsign, one_mul]
      rcases le_or_gt (target v) c.exponent with hle | hlt
      · refine ⟨c.mantissa * 2 ^ (c.exponent - target v).toNat, .inl ?_⟩
        have hexponent : c.exponent = ((c.exponent - target v).toNat : ℤ) + target v := by omega
        conv_lhs => rw [hexponent, two_zpow_add, zpow_natCast]
        push_cast
        ring
      · -- the least number with 53 bits at the exponent lies between the two
        have htarget : target v ≠ -1074 := by
          have hlowest := hcanonical.lowest
          omega
        have hlow := (le_div_iff₀ (two_zpow_pos _)).1 (le_div_target hv htarget)
        have hbelow : (c.mantissa : ℚ) * 2 ^ c.exponent < 2 ^ 52 * 2 ^ target v := by
          have hbits : (c.mantissa : ℚ) < 2 ^ 53 := by
            have hlog : c.mantissa.log2 < 53 := Nat.lt_succ_of_le hcanonical.bits
            exact_mod_cast (Nat.log2_lt hcanonical.pos.ne').1 hlog
          calc (c.mantissa : ℚ) * 2 ^ c.exponent < 2 ^ 53 * 2 ^ c.exponent :=
                mul_lt_mul_of_pos_right hbits (two_zpow_pos _)
            _ ≤ 2 ^ 53 * 2 ^ (target v - 1) := by
                refine mul_le_mul_of_nonneg_left ?_ (by norm_num)
                exact zpow_le_zpow_right₀ (by norm_num) (by omega)
            _ = 2 ^ 52 * 2 ^ target v := by
                rw [zpow_sub_one₀ (by norm_num)]
                ring
        refine ⟨2 ^ 52, .inr ?_⟩
        push_cast
        rw [abs_of_nonpos (by linarith), abs_of_neg (by linarith)]
        linarith

/-- The rounded mantissa at the exponent of a number is as near to it as any double. -/
theorem abs_roundedUnits_sub_le (hv : 0 < v) {y : Float} {c : Binary}
    (hc : Binary.ofFloat? y = some c) :
    |(roundedUnits v : ℚ) * 2 ^ target v - v| ≤ |c.value - v| ∧
      (|c.value - v| = |(roundedUnits v : ℚ) * 2 ^ target v - v| →
        c.value ≠ roundedUnits v * 2 ^ target v → Even (roundedUnits v)) := by
  have hunit := two_zpow_pos (target v)
  have hcut := cut_cutOf (div_pos hv hunit).le
  -- distances are compared in units of the exponent
  have hscale : ∀ q : ℚ, |q * 2 ^ target v - v| = |q - v / 2 ^ target v| * 2 ^ target v := by
    intro q
    rw [← abs_of_pos hunit, ← abs_mul, abs_of_pos hunit, sub_mul, div_mul_cancel₀ _ hunit.ne']
  obtain ⟨k, hk⟩ := exists_place hv hc
  obtain ⟨hle, heven⟩ := hcut.abs_roundedMantissa_sub_le k
  have hle' := mul_le_mul_of_nonneg_right hle hunit.le
  rw [← hscale, ← hscale] at hle'
  rcases hk with hk | hk
  · rw [hk]
    refine ⟨hle', fun heq hne => heven ?_ fun h => hne ?_⟩
    · rw [hscale, hscale] at heq
      exact mul_right_cancel₀ hunit.ne' heq
    · rw [h]
      rfl
  · exact ⟨hle'.trans hk.le, fun heq _ => absurd heq (hle'.trans_lt hk).ne'⟩

/-! ### Rounding to the nearest double -/

/-- A number is rounded to the nearest double, unless it is too large. -/
theorem isNearest_nearest (hv : 0 < v) (hlarge : v < 2 ^ 1023) :
    IsNearest (Float.ofModel (Float.Model.pack (nearest v))) v := by
  have htarget : target v ≤ 970 := by
    have hlog := (Int.lt_zpow_iff_log_lt (b := 2) (by norm_num) hv).1
      (show v < ((2 : ℕ) : ℚ) ^ (1023 : ℤ) by exact_mod_cast hlarge)
    rw [target]
    omega
  rcases nearest_cases hv with ⟨hzero, hnearest⟩ | ⟨m, e, hcanonical, hnearest, he, hvalue, heven⟩
  · -- the number is smaller than half of the smallest double
    have hparts : Binary.ofFloat? (Float.ofModel (Float.Model.pack (.zero .positive))) =
        some ⟨false, 0, -1074⟩ := rfl
    rw [hnearest]
    refine ⟨_, hparts, ?_, fun _ _ _ _ _ => by decide⟩
    intro y c hc
    have hle := (abs_roundedUnits_sub_le hv hc).1
    rw [hzero] at hle
    simpa [Binary.value] using hle
  · have hparts : Binary.ofFloat? (Float.ofModel (Float.Model.pack (nearest v))) =
        some ⟨false, m, e⟩ := by
      have hunpack : (Float.ofModel (Float.Model.pack (nearest v))).toModel.unpack =
          .finite .positive m e hcanonical.pos := by
        rw [hnearest]
        exact unpack_pack_finite .positive hcanonical (by omega)
      rw [Binary.ofFloat?_eq, hunpack]
      rfl
    have hbinary : (⟨false, m, e⟩ : Binary).value = roundedUnits v * 2 ^ target v := by
      rw [← hvalue]
      exact one_mul _
    refine ⟨_, hparts, ?_, ?_⟩
    · intro y c hc
      rw [hbinary]
      exact (abs_roundedUnits_sub_le hv hc).1
    · intro y c hc hequal hne
      rw [hbinary] at hequal hne
      exact heven ((abs_roundedUnits_sub_le hv hc).2 hequal hne)

/-- A natural number is read as the double nearest to it. -/
theorem isNearest_ofNat {n k : ℕ} (hk : k ≤ 1023) (hn : n < 2 ^ k) :
    IsNearest (Float.ofNat n) n := by
  rcases Nat.eq_zero_or_pos n with rfl | hpos
  · have hparts : Binary.ofFloat? (Float.ofNat 0) = some ⟨false, 0, -1074⟩ := rfl
    refine ⟨_, hparts, ?_, fun _ _ _ _ _ => by decide⟩
    intro y c _
    simp [Binary.value]
  · have hdecimal : Float.ofNat n = Decimal.toFloat ⟨n, 0⟩ := rfl
    have hvalue : Decimal.value ⟨n, 0⟩ = n := mul_one _
    rw [hdecimal, Decimal.toFloat_eq_nearest hpos.ne', hvalue]
    refine isNearest_nearest (by exact_mod_cast hpos) ?_
    calc (n : ℚ) < 2 ^ k := by exact_mod_cast hn
      _ ≤ 2 ^ 1023 := pow_le_pow_right₀ (by norm_num) hk

end

end Number

end LineScript
