import LineScript.Number.Binary
import LineScript.Proofs.Number.Nearest
import Mathlib

/-!
# The parts of a double

A double is a sign, a mantissa and an exponent, or an infinity, or not a number.

- `PartsOf`, `partsOf`: the parts of a double, from its bits.
- `ext_unpack`: a double has no other parts.
- `canonical_of_unpack`, `unpack_pack_finite`: which mantissas and exponents doubles have.
- `Binary.ofFloat?_eq`: the exact value of a double has the parts of the double.
- `unpack_neg`: a minus sign changes the sign.
-/

namespace LineScript

namespace Number

open Float.Model Float.Model.UnpackedFloat

/-! ### From bits to parts -/

theorem toNat_one_append (t : BitVec 52) : (1#1 ++ t).toNat = 2 ^ 52 + t.toNat := by
  rw [BitVec.toNat_append, ← Nat.shiftLeft_add_eq_or_of_lt t.isLt]
  rfl

/-- The bits of the exponent. -/
def field (bits : ℕ) : ℕ :=
  bits / 2 ^ 52 % 2 ^ 11

/-- The bits of the mantissa without the leading one. -/
def fraction (bits : ℕ) : ℕ :=
  bits % 2 ^ 52

/-- The sign that the first bit tells. -/
def signOf (bits : ℕ) : Sign :=
  if 2 ^ 63 ≤ bits then .negative else .positive

/-- The parts that a double has with some bits. -/
inductive PartsOf (bits : ℕ) : UnpackedFloat → Prop where
  | infinity (h : field bits = 2047) : PartsOf bits (.infinity (signOf bits))
  | notANumber (h : field bits = 2047) : PartsOf bits .notANumber
  | zero (h : field bits = 0) (hfraction : fraction bits = 0) : PartsOf bits (.zero (signOf bits))
  | subnormal (h : field bits = 0) (hpos : 0 < fraction bits) :
    PartsOf bits (.finite (signOf bits) (fraction bits) (-1074) hpos)
  | normal (hmax : field bits ≠ 2047) (h : field bits ≠ 0) (hpos : 0 < 2 ^ 52 + fraction bits) :
    PartsOf bits (.finite (signOf bits) (2 ^ 52 + fraction bits) (field bits - 1075) hpos)

section

variable (b : BitVec 64)

theorem toNat_unpackMantissa :
    (@unpackMantissa Format.binary64 b).toNat = fraction b.toNat := by
  rw [unpackMantissa_def, BitVec.extractLsb'_toNat, Nat.shiftRight_zero]
  rfl

theorem toNat_unpackExponent :
    (@unpackExponent Format.binary64 b).toNat = field b.toNat := by
  rw [unpackExponent_def, BitVec.extractLsb'_toNat, Nat.shiftRight_eq_div_pow]
  rfl

theorem ofBitVec_unpackSign :
    Sign.ofBitVec (@unpackSign Format.binary64 b) = signOf b.toNat := by
  have hlt := b.isLt
  have hbit : (@unpackSign Format.binary64 b).toNat = b.toNat / 2 ^ 63 := by
    rw [unpackSign_def, BitVec.extractLsb'_toNat, Nat.shiftRight_eq_div_pow]
    show b.toNat / 2 ^ 63 % 2 ^ 1 = _
    omega
  rw [Sign.ofBitVec, signOf]
  by_cases hsign : 2 ^ 63 ≤ b.toNat
  · rw [if_pos hsign, if_neg]
    intro hzero
    rw [hzero, BitVec.toNat_ofNat] at hbit
    omega
  · rw [if_neg hsign, if_pos]
    apply BitVec.eq_of_toNat_eq
    rw [hbit, BitVec.toNat_ofNat]
    omega

/-- The field of the exponent tells the infinities, the subnormal doubles and the normal ones
apart. -/
theorem partsOf_unpack : PartsOf b.toNat (UnpackedFloat.unpack Format.binary64 b) := by
  have hmantissa := toNat_unpackMantissa b
  have hexponent := toNat_unpackExponent b
  rw [UnpackedFloat.unpack]
  dsimp only
  rw [ofBitVec_unpackSign]
  split
  · next htop =>
    have hfield : field b.toNat = 2047 := by
      rw [← hexponent, htop]
      rfl
    split
    · exact .infinity hfield
    · exact .notANumber hfield
  · next htop =>
    split
    · next hlow =>
      have hfield : field b.toNat = 0 := by
        rw [← hexponent, hlow]
        rfl
      split
      · next hzero =>
        refine .zero hfield ?_
        rw [← hmantissa, hzero]
        rfl
      · next hzero =>
        have hpos : 0 < fraction b.toNat := by
          rw [← hmantissa, BitVec.toNat_pos, BitVec.pos_iff_ne_zero]
          exact hzero
        simp only [hmantissa, hexponent, hfield]
        exact .subnormal hfield hpos
    · next hlow =>
      have hne : field b.toNat ≠ 2047 := by
        rw [← hexponent]
        exact fun h => htop (BitVec.eq_of_toNat_eq h)
      have hne' : field b.toNat ≠ 0 := by
        rw [← hexponent]
        exact fun h => hlow (BitVec.eq_of_toNat_eq h)
      simp only [toNat_one_append, hmantissa, hexponent]
      exact .normal hne hne' _

end

theorem partsOf (x : Float) : PartsOf x.toBits.toNat x.toModel.unpack :=
  partsOf_unpack x.toModel.toBits.toBitVec

/-- The mantissa and the exponent of a double. -/
theorem canonical_of_unpack {x : Float} {s : Sign} {m : ℕ} {e : ℤ} {h : 0 < m}
    (hx : x.toModel.unpack = .finite s m e h) : Canonical m e ∧ e ≤ 971 := by
  have hparts := partsOf x
  rw [hx] at hparts
  generalize x.toBits.toNat = bits at hparts
  have hfraction : fraction bits < 2 ^ 52 := Nat.mod_lt _ (by norm_num)
  have hfield : field bits < 2 ^ 11 := Nat.mod_lt _ (by norm_num)
  cases hparts with
  | subnormal hzero hpos =>
    have hlog : (fraction bits).log2 < 52 := (Nat.log2_lt hpos.ne').2 hfraction
    exact ⟨⟨hpos, hlog.le, le_rfl, .inr rfl⟩, by norm_num⟩
  | normal hmax hzero hpos =>
    have hlog : (2 ^ 52 + fraction bits).log2 = 52 :=
      (Nat.log2_eq_iff hpos.ne').2 ⟨by omega, by omega⟩
    exact ⟨⟨hpos, hlog.le, by omega, .inl hlog⟩, by omega⟩

/-- The exact value of a double has the parts of the double. -/
theorem Binary.ofFloat?_eq (x : Float) :
    Binary.ofFloat? x =
      match x.toModel.unpack with
      | .finite s m e _ => some ⟨s == .negative, m, e⟩
      | .zero s => some ⟨s == .negative, 0, -1074⟩
      | .infinity _ | .notANumber => none := by
  have hsign : ∀ bits, decide (Nat.pow 2 63 ≤ bits) = (signOf bits == .negative) := by
    intro bits
    rw [signOf]
    split
    · next h => exact decide_eq_true h
    · next h => exact decide_eq_false h
  rw [Binary.ofFloat?, hsign]
  have hparts := partsOf x
  generalize x.toModel.unpack = parts at hparts
  generalize x.toBits.toNat = bits at hparts
  show (if field bits = 2047 then none
    else if field bits = 0 then some ⟨signOf bits == .negative, fraction bits, -1074⟩
    else some ⟨signOf bits == .negative, 2 ^ 52 + fraction bits, (field bits : ℤ) - 1075⟩ :
      Option Binary) = _
  cases hparts with
  | infinity h => rw [if_pos h]
  | notANumber h => rw [if_pos h]
  | zero h hfraction => rw [if_neg (by omega), if_pos h, hfraction]
  | subnormal h hpos => rw [if_neg (by omega), if_pos h]
  | normal hmax h hpos => rw [if_neg hmax, if_neg h]

/-! ### From parts to bits -/

section

variable (s : Sign) {m : ℕ} (hpos : 0 < m)

theorem unpack_pack_normal {e : ℤ} (hlog : m.log2 = 52) (hlowest : -1074 ≤ e) (he : e ≤ 971) :
    (Float.Model.pack (.finite s m e hpos)).unpack = .finite s m e hpos := by
  let biased := (e + 1075).toNat
  have hbiased : (BitVec.ofNat 11 biased).toNat = biased := Nat.mod_eq_of_lt (by omega)
  have hfinite : ¬2 ^ 11 ≤ biased + 1 := by omega
  have hexponent : e + (Format.binary64.exponentBias : ℤ) + (52 : ℕ) = e + 1075 := by
    simp only [Format.exponentBias]
    norm_num
    ring
  -- the hidden bit is the mantissa's highest one
  have hmantissa : 2 ^ 52 + (BitVec.ofNat 52 m).toNat = m := by
    have hle := Nat.log2_self_le hpos.ne'
    have hlt := Nat.lt_log2_self (n := m)
    rw [hlog] at hle hlt
    rw [BitVec.toNat_ofNat]
    omega
  have hmax : BitVec.ofNat 11 biased ≠ -1#11 := by
    rw [← BitVec.toNat_ne_iff_ne, hbiased]
    show biased ≠ 2047
    omega
  have hzero : BitVec.ofNat 11 biased ≠ 0#11 := by
    rw [← BitVec.toNat_ne_iff_ne, hbiased]
    show biased ≠ 0
    omega
  show UnpackedFloat.unpack _ (UnpackedFloat.pack Format.binary64 (.finite s m e hpos)) = _
  rw [UnpackedFloat.pack]
  dsimp only
  rw [hexponent, if_neg hfinite, if_pos (by rw [hlog]; rfl), UnpackedFloat.unpack]
  simp only [unpackMantissa_packComponents, unpackExponent_packComponents,
    unpackSign_packComponents, Sign.ofBitVec_toBitVec, toNat_one_append, hmantissa]
  rw [if_neg hmax, if_neg hzero]
  congr 1
  have hback : (biased : ℤ) - 1075 = e := by omega
  exact (congrArg (fun n : ℕ => (n : ℤ) - 1075) hbiased).trans hback

theorem unpack_pack_subnormal (hlog : m.log2 < 52) :
    (Float.Model.pack (.finite s m (-1074) hpos)).unpack = .finite s m (-1074) hpos := by
  have hmantissa : (BitVec.ofNat 52 m).toNat = m := by
    have hbits : m < 2 ^ 52 := (Nat.log2_lt hpos.ne').1 hlog
    rw [BitVec.toNat_ofNat, Nat.mod_eq_of_lt hbits]
  have hzero : BitVec.ofNat 52 m ≠ 0#52 := by
    rw [← BitVec.toNat_ne_iff_ne, hmantissa]
    exact hpos.ne'
  have hshort : ¬m.log2 + 1 = Format.binary64.mantissaBits := by
    show ¬m.log2 + 1 = 53
    omega
  show UnpackedFloat.unpack _ (UnpackedFloat.pack Format.binary64 (.finite s m (-1074) hpos)) = _
  rw [UnpackedFloat.pack]
  dsimp only
  rw [if_neg (by decide), if_neg hshort, UnpackedFloat.unpack]
  simp only [unpackMantissa_packComponents, unpackExponent_packComponents,
    unpackSign_packComponents, Sign.ofBitVec_toBitVec, hmantissa]
  rw [if_neg (by decide), if_pos trivial, dif_neg hzero]
  rfl

end

/-- The parts of a double are kept by its bits. -/
theorem unpack_pack_finite (s : Sign) {m : ℕ} {e : ℤ} (h : Canonical m e) (he : e ≤ 971) :
    (Float.Model.pack (.finite s m e h.pos)).unpack = .finite s m e h.pos := by
  by_cases hlog : m.log2 = 52
  · exact unpack_pack_normal s h.pos hlog h.lowest he
  · obtain rfl := h.full.resolve_left hlog
    have hbits := h.bits
    exact unpack_pack_subnormal s h.pos (by omega)

theorem ofModel_pack_unpack (x : Float) :
    Float.ofModel (Float.Model.pack x.toModel.unpack) = x := by
  have hbits := pack_unpack_of_valid x.toModel.valid
  apply Float.toBits_inj.1
  apply UInt64.toBitVec_inj.1
  exact hbits

/-- A double has no other parts than its sign, mantissa and exponent. -/
theorem ext_unpack {x y : Float} (h : x.toModel.unpack = y.toModel.unpack) : x = y := by
  rw [← ofModel_pack_unpack x, h, ofModel_pack_unpack]

/-- A minus sign changes the sign and nothing else. -/
theorem unpack_neg (x : Float) : (-x).toModel.unpack = x.toModel.unpack.neg := by
  show (Float.Model.pack x.toModel.unpack.neg).unpack = _
  cases hx : x.toModel.unpack with
  | notANumber => rfl
  | infinity s => cases s <;> rfl
  | zero s => cases s <;> rfl
  | finite s m e h =>
    obtain ⟨hcanonical, he⟩ := canonical_of_unpack hx
    exact unpack_pack_finite (-s) hcanonical he

end Number

end LineScript
