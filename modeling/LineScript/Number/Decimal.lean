import LineScript.Number.Binary

/-!
# Decimals

- `Decimal`: the number `mantissa · 10 ^ exponent`, with a whole mantissa.
- `Decimal.toFloat`: the double nearest to a decimal.
- `shortest`: the decimal with the fewest digits that reads back as a double;
  of several such, the nearest to its exact value.
- `toFloat_of_find`: what the search for it returns does read back.
-/

namespace LineScript

namespace Number

/-- The number `mantissa · 10 ^ exponent`. -/
structure Decimal where
  mantissa : Nat
  exponent : Int
deriving DecidableEq, Repr

namespace Decimal

/-- The double nearest to a decimal; a tie goes to the even mantissa. -/
def toFloat (d : Decimal) : Float :=
  Float.ofScientific d.mantissa (decide (d.exponent < 0)) d.exponent.natAbs

/-- The same number without zeros at the mantissa's end. -/
def stripped (d : Decimal) : Decimal :=
  go d.mantissa.log2 d
where
  /-- Take off at most `n` zeros. -/
  go : Nat → Decimal → Decimal
    | 0, d => d
    | n + 1, d =>
      if d.mantissa ≠ 0 ∧ d.mantissa % 10 = 0 then go n ⟨d.mantissa / 10, d.exponent + 1⟩ else d

/-! ### The neighbours of a double on a decimal grid -/

/-- A positive fraction `num / den`. -/
structure Ratio where
  num : Nat
  den : Nat

/-- The value `mantissa · 2 ^ exponent` as a fraction. -/
def ratio (mantissa : Nat) (exponent : Int) : Ratio :=
  ⟨mantissa * Nat.pow 2 exponent.toNat, Nat.pow 2 (-exponent).toNat⟩

/-- The fraction divided by `10 ^ e`. -/
def Ratio.scaled (r : Ratio) (e : Int) : Ratio :=
  ⟨r.num * Nat.pow 10 (-e).toNat, r.den * Nat.pow 10 e.toNat⟩

/-- The exponent `k` with `10 ^ k ≤ mantissa · 2 ^ exponent < 10 ^ (k + 1)`, for
a positive mantissa. The binary logarithm gives it up to one; the comparison
with the next power of ten settles it. -/
def decade (mantissa : Nat) (exponent : Int) : Int :=
  let low := (((mantissa.log2 : Int) + exponent) * 30103).fdiv 100000 - 1
  let reaches (k : Int) : Bool :=
    let r := (ratio mantissa exponent).scaled k
    r.den ≤ r.num
  if reaches (low + 2) then low + 2 else if reaches (low + 1) then low + 1 else low

/-- The decimals with exponent `e` next to a fraction, the nearer one first; of
two equally near ones, the greater. A fraction on the grid has one neighbour. -/
def neighbours (r : Ratio) (e : Int) : List Decimal :=
  let s := r.scaled e
  let low := s.num / s.den
  let rest := s.num % s.den
  if rest = 0 then [⟨low, e⟩]
  else if 2 * rest < s.den then [⟨low, e⟩, ⟨low + 1, e⟩]
  else [⟨low + 1, e⟩, ⟨low, e⟩]

/-- The decimal that has exactly the value `mantissa · 2 ^ exponent`. -/
def exact (mantissa : Nat) (exponent : Int) : Decimal :=
  ⟨mantissa * Nat.pow 2 exponent.toNat * Nat.pow 5 (-exponent).toNat, min exponent 0⟩

/-- The candidates for the shortest decimal of `mantissa · 2 ^ exponent`: its
neighbours among the decimals of one digit, two digits, and so on up to 17, and
last its exact value. -/
def candidates (mantissa : Nat) (exponent : Int) : List Decimal :=
  let k := decade mantissa exponent
  (List.range 17).flatMap (fun (n : Nat) => neighbours (ratio mantissa exponent) (k - (n : Int))) ++
    [exact mantissa exponent]

/-- The decimal with the fewest digits that reads back as the double `x`, whose
size is `mantissa · 2 ^ exponent`. -/
def shortest (x : Float) (mantissa : Nat) (exponent : Int) : Decimal :=
  match (candidates mantissa exponent).find? (fun d => d.toFloat == x) with
  | some d => d.stripped
  | none => (exact mantissa exponent).stripped

/-- What the search returns reads back as the double. -/
theorem toFloat_of_find {x : Float} {m : Nat} {e : Int} {d : Decimal}
    (h : (candidates m e).find? (fun d => d.toFloat == x) = some d) : d.toFloat == x := by
  simpa using List.find?_some h

end Decimal

end Number

end LineScript
