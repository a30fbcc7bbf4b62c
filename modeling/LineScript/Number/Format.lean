import LineScript.Number.Decimal

/-!
# Text of a number

A double is written with the fewest digits that read back. Whole values have no
fraction, and both zeros are `0`. Sizes from `1e21` up and below `1e-6` have one
digit before the point and an exponent with its sign.
-/

namespace LineScript

namespace Number

/-- The digits of a natural number in base ten. -/
def digits (n : Nat) : List Char :=
  Nat.toDigits 10 n

/-- Digits with a decimal point after the first `point` of them; zeros fill the
gap when the point lies outside them. -/
def positional (ds : List Char) (point : Int) : List Char :=
  if point ≤ 0 then ['0', '.'] ++ List.replicate (-point).toNat '0' ++ ds
  else
    let whole := point.toNat
    if ds.length ≤ whole then ds ++ List.replicate (whole - ds.length) '0'
    else ds.take whole ++ ['.'] ++ ds.drop whole

/-- Digits with a point after the first one and an exponent with its sign. -/
def scientific (ds : List Char) (exponent : Int) : List Char :=
  let fraction := ds.drop 1
  ds.take 1 ++ (if fraction.isEmpty then [] else '.' :: fraction) ++
    ['e', if exponent < 0 then '-' else '+'] ++ digits exponent.natAbs

/-- The text of a positive finite double. -/
def formatPositive (x : Float) (mantissa : Nat) (exponent : Int) : List Char :=
  let d := Decimal.shortest x mantissa exponent
  let ds := digits d.mantissa
  let point := (ds.length : Int) + d.exponent
  if 1e21 ≤ x || x < 1e-6 then scientific ds (point - 1) else positional ds point

/-- The text of a double. -/
def format (x : Float) : String :=
  if x.isNaN then "NaN"
  else
    match Binary.ofFloat? x with
    | none => if 0.0 < x then "Infinity" else "-Infinity"
    | some b =>
      if b.mantissa = 0 then "0"
      else
        let size := formatPositive (if b.negative then -x else x) b.mantissa b.exponent
        String.ofList (if b.negative then '-' :: size else size)

end Number

end LineScript
