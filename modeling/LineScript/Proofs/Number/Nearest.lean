import Mathlib

/-!
# The double nearest to a number

A number is rounded to a double from its leading bits: a mantissa, one bit for the half of a
unit, and one for whatever is left. Which bits these are, and so the double, depends on the
number alone, not on the way in which it was computed.

- `Cut`: a mantissa and its two bits are the leading bits of a number.
- `Cut.unique`: a number has one mantissa and two bits.
- `target`: the exponent of the last bit of the mantissa, for a number of some size.
- `nearest`: the double for a number, and `roundWithAccuracy_eq_nearest`: it is what rounding
  gives for every mantissa and accuracy that stand for the number.
- `nearest_exact`, `nearest_overflow`, `nearest_underflow`: a number that is a double is kept;
  a large one is infinite, and a small one zero.
-/

namespace LineScript

namespace Number

open Float.Model Float.Model.UnpackedFloat

/-! ### The leading bits of a number -/

/-- The part of a unit that is left, as far as the two bits tell it: nothing, less than a half,
a half, or more. -/
def IsRest : Bool → Bool → ℚ → Prop
  | false, false, f => f = 0
  | false, true, f => 0 < f ∧ f < 1 / 2
  | true, false, f => f = 1 / 2
  | true, true, f => 1 / 2 < f ∧ f < 1

/-- The mantissa is the whole part of `u`, and its two bits tell the rest. -/
def Cut (em : ExtendedMantissa) (u : ℚ) : Prop :=
  IsRest em.roundBit em.stickyBit (u - em.mantissa)

theorem IsRest.bounds {round sticky : Bool} {f : ℚ} (h : IsRest round sticky f) :
    0 ≤ f ∧ f < 1 := by
  cases round <;> cases sticky <;> simp only [IsRest] at h
  · subst h
    norm_num
  · constructor <;> linarith
  · subst h
    norm_num
  · constructor <;> linarith

theorem IsRest.unique {round sticky round' sticky' : Bool} {f : ℚ} (h : IsRest round sticky f)
    (h' : IsRest round' sticky' f) : round = round' ∧ sticky = sticky' := by
  cases round <;> cases sticky <;> cases round' <;> cases sticky' <;>
    simp only [IsRest] at h h' <;> first | exact ⟨rfl, rfl⟩ | (exfalso; linarith)

namespace Cut

variable {em em' : ExtendedMantissa} {u : ℚ}

theorem le (h : Cut em u) : (em.mantissa : ℚ) ≤ u :=
  sub_nonneg.1 (IsRest.bounds h).1

theorem lt (h : Cut em u) : u < em.mantissa + 1 := by
  have hrest := (IsRest.bounds h).2
  linarith

/-- A number has one mantissa and two bits. -/
theorem unique (h : Cut em u) (h' : Cut em' u) : em = em' := by
  have hmantissa : em.mantissa = em'.mantissa := by
    have hlt : (em.mantissa : ℚ) < em'.mantissa + 1 := lt_of_le_of_lt h.le h'.lt
    have hlt' : (em'.mantissa : ℚ) < em.mantissa + 1 := lt_of_le_of_lt h'.le h.lt
    norm_cast at hlt hlt'
    omega
  obtain ⟨m, round, sticky⟩ := em
  obtain ⟨m', round', sticky'⟩ := em'
  obtain rfl : m = m' := hmantissa
  obtain ⟨rfl, rfl⟩ := IsRest.unique h h'
  rfl

/-- Without its last bit the mantissa is that of half the number. -/
theorem shiftRightOne (h : Cut em u) : Cut em.shiftRightOne (u / 2) := by
  obtain ⟨m, round, sticky⟩ := em
  have hcast : (m : ℚ) = 2 * ((m / 2 : ℕ) : ℚ) + ((m % 2 : ℕ) : ℚ) := by
    exact_mod_cast (Nat.div_add_mod m 2).symm
  -- the last bit is the new round bit, and the old bits are those beyond it
  rcases Nat.mod_two_eq_zero_or_one m with hbit | hbit
  · rw [hbit] at hcast
    cases round <;> cases sticky <;>
      simp [Cut, IsRest, ExtendedMantissa.shiftRightOne, hbit] at h ⊢ <;>
      (try constructor) <;> norm_num at hcast h ⊢ <;> linarith
  · rw [hbit] at hcast
    cases round <;> cases sticky <;>
      simp [Cut, IsRest, ExtendedMantissa.shiftRightOne, hbit] at h ⊢ <;>
      (try constructor) <;> norm_num at hcast h ⊢ <;> linarith

theorem shiftRight (h : Cut em u) (n : ℕ) : Cut (em >>> n) (u / 2 ^ n) := by
  show Cut (n.repeat ExtendedMantissa.shiftRightOne em) _
  induction n with
  | zero => simpa [Nat.repeat] using h
  | succ n ih =>
    have hnext := ih.shiftRightOne
    rwa [div_div, ← pow_succ] at hnext

end Cut

/-! ### The size of a number -/

/-- The exponent of the last bit of the mantissa: a mantissa has 53 bits, but no bit stands
below the smallest exponent. -/
def target (v : ℚ) : ℤ :=
  max (Int.log 2 v - 52) (-1074)

theorem targetExponent_eq (m : ℕ) (e : ℤ) :
    Format.binary64.targetExponent (totalExponent m e) = max ((m.log2 : ℤ) + e - 52) (-1074) := by
  simp only [Format.targetExponent, totalExponent, Format.mantissaBits, Format.minExponent]
  norm_num
  omega

/-- The size of a number is that of its whole part in units of `2 ^ e`. -/
theorem log_of_bounds {v : ℚ} {m : ℕ} {e : ℤ} (hm : m ≠ 0) (hle : (m : ℚ) ≤ v / 2 ^ e)
    (hlt : v / 2 ^ e < m + 1) : Int.log 2 v = m.log2 + e := by
  have hunit : (0 : ℚ) < 2 ^ e := zpow_pos (by norm_num) e
  have hlow : ((2 : ℕ) : ℚ) ^ ((m.log2 : ℤ) + e) ≤ v := by
    have hbit : ((2 ^ m.log2 : ℕ) : ℚ) ≤ m := by exact_mod_cast Nat.log2_self_le hm
    rw [zpow_add₀ (by norm_num), zpow_natCast]
    push_cast at hbit ⊢
    exact (le_div_iff₀ hunit).1 (hbit.trans hle)
  have hhigh : v < ((2 : ℕ) : ℚ) ^ ((m.log2 : ℤ) + e + 1) := by
    have hbit : ((m + 1 : ℕ) : ℚ) ≤ (2 ^ (m.log2 + 1) : ℕ) := by
      exact_mod_cast Nat.lt_log2_self
    have hsplit : (m.log2 : ℤ) + e + 1 = (m.log2 + 1 : ℕ) + e := by
      push_cast
      ring
    rw [hsplit, zpow_add₀ (by norm_num), zpow_natCast]
    push_cast at hbit ⊢
    exact (div_lt_iff₀ hunit).1 (hlt.trans_le hbit)
  have hv : 0 < v := lt_of_lt_of_le (zpow_pos (by norm_num) _) hlow
  apply le_antisymm
  · exact Int.lt_add_one_iff.1 ((Int.lt_zpow_iff_log_lt (by norm_num) hv).1 hhigh)
  · exact (Int.zpow_le_iff_le_log (by norm_num) hv).1 hlow

/-- Where the mantissa has enough bits, the size of the number is that of the mantissa. -/
theorem targetExponent_eq_target {v : ℚ} {m : ℕ} {e : ℤ} (hle : (m : ℚ) ≤ v / 2 ^ e)
    (hlt : v / 2 ^ e < m + 1) (hv : 0 < v) (he : e ≤ target v) :
    Format.binary64.targetExponent (totalExponent m e) = target v := by
  rw [targetExponent_eq]
  by_cases hm : m = 0
  · -- a number without a whole part is smaller than a unit, so the unit is the smallest one
    subst hm
    have hsmall : v < ((2 : ℕ) : ℚ) ^ e := by
      have hunit : (0 : ℚ) < 2 ^ e := zpow_pos (by norm_num) e
      simpa using (div_lt_iff₀ hunit).1 hlt
    have hlog := (Int.lt_zpow_iff_log_lt (by norm_num) hv).1 hsmall
    rw [target] at he ⊢
    simp only [Nat.log2_zero, Nat.cast_zero, zero_add]
    omega
  · rw [target, log_of_bounds hm hle hlt]

/-! ### Rounding -/

/-- The mantissa and the two bits of a number. -/
def cutOf (u : ℚ) : ExtendedMantissa :=
  ⟨⌊u⌋₊, decide (1 / 2 ≤ u - ⌊u⌋₊), decide (u - ⌊u⌋₊ ≠ 0 ∧ u - ⌊u⌋₊ ≠ 1 / 2)⟩

theorem cut_cutOf {u : ℚ} (hu : 0 ≤ u) : Cut (cutOf u) u := by
  have hle := sub_nonneg.2 (Nat.floor_le hu)
  have hlt : u - ⌊u⌋₊ < 1 := by linarith [Nat.lt_floor_add_one u]
  rw [Cut, cutOf]
  dsimp only
  generalize u - ⌊u⌋₊ = f at hle hlt ⊢
  rcases hle.eq_or_lt with rfl | hpos
  · norm_num [IsRest]
  · rcases lt_trichotomy f (1 / 2) with hless | rfl | hmore
    · have hsticky : f ≠ 0 ∧ f ≠ 1 / 2 := ⟨hpos.ne', hless.ne⟩
      rw [decide_eq_false (not_le.2 hless), decide_eq_true hsticky]
      exact ⟨hpos, hless⟩
    · norm_num [IsRest]
    · have hsticky : f ≠ 0 ∧ f ≠ 1 / 2 := ⟨hpos.ne', hmore.ne'⟩
      rw [decide_eq_true hmore.le, decide_eq_true hsticky]
      exact ⟨hmore, hlt⟩

/-- The double with a mantissa and two more bits at an exponent. The rounded mantissa may have
one bit more than a mantissa of a double. -/
def rounded (em : ExtendedMantissa) (e : ℤ) : UnpackedFloat :=
  let (final, e) := shiftToTargetExponent Format.binary64 em.roundedMantissa e .exact
  if h : final.mantissa = 0 then .zero .positive
  else .finite .positive final.mantissa e (Nat.pos_of_ne_zero h)

/-- The double nearest to a positive number. -/
def nearest (v : ℚ) : UnpackedFloat :=
  rounded (cutOf (v / 2 ^ target v)) (target v)

theorem mantissa_ofMantissaAndAccuracy (m : ℕ) (acc : Accuracy) :
    (ExtendedMantissa.ofMantissaAndAccuracy m acc).mantissa = m := by
  cases acc with
  | exact => rfl
  | inexact o => cases o <;> rfl

/-- Shifting to the exponent of the last bit leaves the leading bits of the number. -/
theorem shiftToTargetExponent_eq {v : ℚ} {m : ℕ} {e : ℤ} {acc : Accuracy} (hv : 0 < v)
    (hcut : Cut (.ofMantissaAndAccuracy m acc) (v / 2 ^ e)) (he : e ≤ target v) :
    shiftToTargetExponent Format.binary64 m e acc = (cutOf (v / 2 ^ target v), target v) := by
  have hle := hcut.le
  have hlt := hcut.lt
  rw [mantissa_ofMantissaAndAccuracy] at hle hlt
  have hexponent : e + ((target v - e).toNat : ℤ) = target v := by omega
  have hshifted := hcut.shiftRight (target v - e).toNat
  rw [div_div, ← zpow_natCast, ← zpow_add₀ (by norm_num), hexponent] at hshifted
  have hunit : (0 : ℚ) < 2 ^ target v := zpow_pos (by norm_num) _
  have hcutOf : Cut (cutOf (v / 2 ^ target v)) (v / 2 ^ target v) :=
    cut_cutOf (div_pos hv hunit).le
  rw [shiftToTargetExponent, targetExponent_eq_target hle hlt hv he, shiftToExponent,
    hexponent, hshifted.unique hcutOf]

/-- Whatever mantissa and accuracy stand for a number, rounding them gives the double nearest
to the number. -/
theorem roundWithAccuracy_eq_nearest {v : ℚ} {m : ℕ} {e : ℤ} {acc : Accuracy} (hv : 0 < v)
    (hcut : Cut (.ofMantissaAndAccuracy m acc) (v / 2 ^ e)) (he : e ≤ target v) :
    roundWithAccuracy Format.binary64 .positive m e acc = nearest v := by
  rw [roundWithAccuracy, shiftToTargetExponent_eq hv hcut he]
  rfl

/-- An exact mantissa stands for its number. -/
theorem cut_exact {u : ℚ} {m : ℕ} (h : u = m) : Cut (.ofMantissaAndAccuracy m .exact) u :=
  sub_eq_zero.2 h

/-- A quotient and what is known of its rest stand for the fraction. -/
theorem cut_fraction {num den : ℕ} (hden : 0 < den) :
    Cut (.ofMantissaAndAccuracy (num / den) (accuracyOfFraction (num % den) den))
      ((num : ℚ) / den) := by
  have hpos : (0 : ℚ) < den := by exact_mod_cast hden
  have hrest : (num : ℚ) / den - (num / den : ℕ) = (num % den : ℕ) / den := by
    have hsplit : (num : ℚ) = den * (num / den : ℕ) + (num % den : ℕ) := by
      exact_mod_cast (Nat.div_add_mod num den).symm
    rw [eq_div_iff hpos.ne', sub_mul, div_mul_cancel₀ _ hpos.ne']
    linarith
  have hlt : (num % den : ℕ) < (den : ℚ) := by exact_mod_cast Nat.mod_lt num hden
  rw [Cut, mantissa_ofMantissaAndAccuracy, hrest]
  generalize num % den = r at hlt ⊢
  rw [accuracyOfFraction]
  split
  · next hzero => simp [hzero, ExtendedMantissa.ofMantissaAndAccuracy, IsRest]
  · next hzero =>
    have hr : (0 : ℚ) < r := by exact_mod_cast Nat.pos_of_ne_zero hzero
    rcases lt_trichotomy (2 * r) den with hcmp | hcmp | hcmp
    · have hcast : 2 * (r : ℚ) < den := by exact_mod_cast hcmp
      rw [compare_lt_iff_lt.2 hcmp]
      refine ⟨div_pos hr hpos, ?_⟩
      rw [div_lt_iff₀ hpos]
      linarith
    · have hcast : 2 * (r : ℚ) = den := by exact_mod_cast hcmp
      rw [compare_eq_iff_eq.2 hcmp]
      show (r : ℚ) / den = 1 / 2
      rw [div_eq_iff hpos.ne']
      linarith
    · have hcast : (den : ℚ) < 2 * r := by exact_mod_cast hcmp
      rw [compare_gt_iff_gt.2 hcmp]
      refine ⟨?_, (div_lt_one hpos).2 hlt⟩
      rw [lt_div_iff₀ hpos]
      linarith

/-! ### Numbers that are doubles, too large ones and too small ones -/

/-- A mantissa and an exponent as a double has them. -/
structure Canonical (m : ℕ) (e : ℤ) : Prop where
  pos : 0 < m
  bits : m.log2 ≤ 52
  lowest : -1074 ≤ e
  full : m.log2 = 52 ∨ e = -1074

theorem Canonical.targetExponent_eq {m : ℕ} {e : ℤ} (h : Canonical m e) :
    Format.binary64.targetExponent (totalExponent m e) = e := by
  obtain ⟨-, hbits, hlowest, hfull⟩ := h
  rw [Number.targetExponent_eq]
  omega

/-- A mantissa and an exponent that a double has are not shifted. -/
theorem Canonical.shiftToTargetExponent_eq {m : ℕ} {e : ℤ} (h : Canonical m e) :
    shiftToTargetExponent Format.binary64 m e .exact = (⟨m, false, false⟩, e) := by
  have hnone : (⟨m, false, false⟩ : ExtendedMantissa) >>> (0 : ℕ) = ⟨m, false, false⟩ := rfl
  rw [shiftToTargetExponent, h.targetExponent_eq, shiftToExponent]
  simp [hnone, ExtendedMantissa.ofMantissaAndAccuracy]

/-- A mantissa and an exponent that a double has are not rounded. -/
theorem Canonical.roundWithAccuracy_eq {m : ℕ} {e : ℤ} (h : Canonical m e) :
    roundWithAccuracy Format.binary64 .positive m e .exact = .finite .positive m e h.pos := by
  have hshift := h.shiftToTargetExponent_eq
  have hround : (⟨m, false, false⟩ : ExtendedMantissa).roundedMantissa = m := rfl
  rw [roundWithAccuracy]
  simp only [hshift, hround]
  rw [dif_neg h.pos.ne']

/-- A number that is a double is kept. -/
theorem nearest_exact {m : ℕ} {e : ℤ} (h : Canonical m e) :
    nearest (m * 2 ^ e) = .finite .positive m e h.pos := by
  have hunit : (0 : ℚ) < 2 ^ e := zpow_pos (by norm_num) e
  have hm : (0 : ℚ) < m := by exact_mod_cast h.pos
  have hcut : Cut (.ofMantissaAndAccuracy m .exact) ((m : ℚ) * 2 ^ e / 2 ^ e) :=
    cut_exact (mul_div_cancel_right₀ _ hunit.ne')
  have htarget : target (m * 2 ^ e) = e := by
    rw [target, log_of_bounds h.pos.ne' hcut.le hcut.lt, ← Number.targetExponent_eq,
      h.targetExponent_eq]
  rw [← roundWithAccuracy_eq_nearest (mul_pos hm hunit) hcut htarget.ge, h.roundWithAccuracy_eq]

theorem mantissa_shiftRight (em : ExtendedMantissa) (n : ℕ) :
    (em >>> n).mantissa = em.mantissa / 2 ^ n := by
  show (n.repeat ExtendedMantissa.shiftRightOne em).mantissa = _
  induction n with
  | zero => simp [Nat.repeat]
  | succ n ih =>
    rw [Nat.repeat, ExtendedMantissa.shiftRightOne, ih, Nat.div_div_eq_div_mul, pow_succ]

theorem mantissa_le_roundedMantissa (em : ExtendedMantissa) :
    em.mantissa ≤ em.roundedMantissa := by
  obtain ⟨m, round, sticky⟩ := em
  cases round <;> cases sticky <;>
    simp [ExtendedMantissa.roundedMantissa, ExtendedMantissa.accuracy,
      Accuracy.roundToNearestEven]

/-- Rounding leaves some bit of a mantissa, and lowers no exponent. -/
theorem rounded_of_pos {em : ExtendedMantissa} {e : ℤ} (hem : 0 < em.mantissa)
    (he : -1074 ≤ e) :
    ∃ m e' h, rounded em e = .finite .positive m e' h ∧ e ≤ e' := by
  have hround : em.roundedMantissa ≠ 0 :=
    (hem.trans_le (mantissa_le_roundedMantissa em)).ne'
  let r := em.roundedMantissa
  let n := (Format.binary64.targetExponent (totalExponent r e) - e).toNat
  have hn : n ≤ r.log2 := by
    simp only [n, targetExponent_eq]
    omega
  have hpos : 0 < r / 2 ^ n := by
    have hbit : 2 ^ n ≤ r := (Nat.pow_le_pow_right (by norm_num) hn).trans (Nat.log2_self_le hround)
    exact Nat.div_pos hbit (Nat.two_pow_pos n)
  have hfinal : (ExtendedMantissa.ofMantissaAndAccuracy r .exact >>> n).mantissa = r / 2 ^ n := by
    rw [mantissa_shiftRight, mantissa_ofMantissaAndAccuracy]
  have hne : (ExtendedMantissa.ofMantissaAndAccuracy r .exact >>> n).mantissa ≠ 0 := by
    rw [hfinal]
    exact hpos.ne'
  refine ⟨_, e + n, Nat.pos_of_ne_zero hne, ?_, by omega⟩
  rw [rounded]
  exact dif_neg hne

/-- A number from `2 ^ 1024` on is beyond all doubles. -/
theorem nearest_overflow {v : ℚ} (h : (2 : ℚ) ^ (1024 : ℤ) ≤ v) :
    UnpackedFloat.pack Format.binary64 (nearest v) = packedInfinity Format.binary64 .positive := by
  have hv : 0 < v := (zpow_pos (by norm_num) _).trans_le h
  have hlog : 1024 ≤ Int.log 2 v := (Int.zpow_le_iff_le_log (by norm_num) hv).1 (by exact_mod_cast h)
  have htarget : target v = Int.log 2 v - 52 := by
    rw [target]
    omega
  have hunit : (0 : ℚ) < 2 ^ target v := zpow_pos (by norm_num) _
  -- the number is not smaller than the unit of its last bit
  have hbit : 1 ≤ v / 2 ^ target v := by
    have hle : target v ≤ Int.log 2 v := by omega
    have hlow : ((2 : ℕ) : ℚ) ^ Int.log 2 v ≤ v := Int.zpow_log_le_self (by norm_num) hv
    rw [le_div_iff₀ hunit, one_mul]
    exact (zpow_le_zpow_right₀ (by norm_num) hle).trans (by exact_mod_cast hlow)
  have hmantissa : 0 < (cutOf (v / 2 ^ target v)).mantissa := Nat.floor_pos.2 hbit
  have hlowest : -1074 ≤ target v := le_max_right _ _
  obtain ⟨m, e, hm, hrounded, he⟩ := rounded_of_pos hmantissa hlowest
  rw [nearest, hrounded, UnpackedFloat.pack]
  refine if_pos ?_
  simp only [Format.exponentBias]
  norm_num
  omega

/-- A rounded mantissa of zero gives zero. -/
theorem rounded_of_zero {em : ExtendedMantissa} (h : em.roundedMantissa = 0) (e : ℤ) :
    rounded em e = .zero .positive := by
  have hzero : ∀ n : ℕ, (ExtendedMantissa.ofMantissaAndAccuracy 0 .exact >>> n).mantissa = 0 := by
    intro n
    rw [mantissa_shiftRight, mantissa_ofMantissaAndAccuracy, Nat.zero_div]
  rw [rounded, h]
  exact dif_pos (hzero _)

/-- A number below half of the smallest double is as good as zero. -/
theorem nearest_underflow {v : ℚ} (hv : 0 < v) (h : v < (2 : ℚ) ^ (-1075 : ℤ)) :
    nearest v = .zero .positive := by
  have hlog : Int.log 2 v < -1075 :=
    (Int.lt_zpow_iff_log_lt (by norm_num) hv).1 (by exact_mod_cast h)
  have htarget : target v = -1074 := by
    rw [target]
    omega
  have hhalf : v / 2 ^ (-1074 : ℤ) < 1 / 2 := by
    have hunit : (0 : ℚ) < 2 ^ (-1074 : ℤ) := zpow_pos (by norm_num) _
    rw [div_lt_iff₀ hunit]
    have hsplit : (2 : ℚ) ^ (-1075 : ℤ) = 1 / 2 * 2 ^ (-1074 : ℤ) := by
      rw [show (-1075 : ℤ) = -1 + -1074 by norm_num, zpow_add₀ (by norm_num)]
      norm_num
    rwa [← hsplit]
  have hfloor : ⌊v / 2 ^ (-1074 : ℤ)⌋₊ = 0 := Nat.floor_eq_zero.2 (by linarith)
  have hround : (cutOf (v / 2 ^ target v)).roundedMantissa = 0 := by
    rw [htarget, cutOf, hfloor, Nat.cast_zero, sub_zero, decide_eq_false (not_le.2 hhalf)]
    cases decide (v / 2 ^ (-1074 : ℤ) ≠ 0 ∧ v / 2 ^ (-1074 : ℤ) ≠ 1 / 2) <;> rfl
  exact rounded_of_zero hround _

end Number

end LineScript
