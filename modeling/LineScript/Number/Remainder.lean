import LineScript.Number.Binary

/-!
# Remainder of doubles

The remainder of a division truncated toward zero. It is always a double, so it
is computed exactly on whole numbers; its sign is the dividend's.
-/

namespace LineScript

namespace Number

/-- The remainder of `x / y` truncated toward zero. A NaN on either side, an
infinite dividend and a zero divisor give NaN; an infinite divisor gives the
dividend. -/
def remainder (x y : Float) : Float :=
  match Binary.ofFloat? x, Binary.ofFloat? y with
  | some a, some b =>
    if b.mantissa = 0 then 0.0 / 0.0
    else
      let exponent := min a.exponent b.exponent
      let scaled (c : Binary) := c.mantissa * Nat.pow 2 (c.exponent - exponent).toNat
      Binary.toFloat ⟨a.negative, scaled a % scaled b, exponent⟩
  | some _, none => if y.isNaN then y else x
  | none, _ => 0.0 / 0.0

end Number

end LineScript
