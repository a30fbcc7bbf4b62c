/-!
# Exact value of a double

A finite double is a sign, a whole mantissa and a power of two. Questions about
its exact value are answered in whole numbers on this form.

- `Binary.ofFloat?`: the exact value of a double, when it is finite.
- `Binary.toFloat`: the double with a given exact value, for the values that
  are doubles.
- `integer?`: the value of a double that is a whole number.
-/

namespace LineScript

namespace Number

/-- The number `± mantissa · 2 ^ exponent`. -/
structure Binary where
  negative : Bool
  mantissa : Nat
  exponent : Int
deriving DecidableEq, Repr

/-- The exact value of a double; `none` for infinities and NaN. The smallest
exponent belongs to the subnormal doubles, whose mantissa has no hidden bit. -/
def Binary.ofFloat? (x : Float) : Option Binary :=
  let bits := x.toBits.toNat
  let negative := decide (Nat.pow 2 63 ≤ bits)
  let field : Nat := bits / Nat.pow 2 52 % Nat.pow 2 11
  let fraction : Nat := bits % Nat.pow 2 52
  if field = 2047 then none
  else if field = 0 then some ⟨negative, fraction, -1074⟩
  else some ⟨negative, Nat.pow 2 52 + fraction, (field : Int) - 1075⟩

/-- The double with the value of `b`, which must have at most 53 bits and be
in the range of the doubles. The mantissa is scaled until it has 53 bits or the
exponent is the smallest one; then its bits continue those of the exponent. -/
def Binary.toFloat (b : Binary) : Float :=
  let sign := if b.negative then Nat.pow 2 63 else 0
  if b.mantissa = 0 then Float.ofBits (UInt64.ofNat sign)
  else
    let exponent := max (b.exponent - (52 - (b.mantissa.log2 : Int))) (-1074)
    let raised := b.mantissa * Nat.pow 2 (b.exponent - exponent).toNat
    let mantissa := raised / Nat.pow 2 (exponent - b.exponent).toNat
    Float.ofBits (UInt64.ofNat (sign + (exponent + 1074).toNat * Nat.pow 2 52 + mantissa))

/-- The value of a double that is a whole number; `none` for a fraction, an
infinity or NaN. -/
def integer? (x : Float) : Option Int :=
  match Binary.ofFloat? x with
  | none => none
  | some b =>
    let scale := Nat.pow 2 (-b.exponent).toNat
    if b.mantissa % scale = 0 then
      let n : Int := (b.mantissa / scale * Nat.pow 2 b.exponent.toNat : Nat)
      some (if b.negative then -n else n)
    else none

end Number

end LineScript
