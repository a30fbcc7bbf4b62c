/-!
# Rounding a quotient

- `roundHalfEven num den`: the natural number nearest to `num / den`; of two
  equally near ones, the even one.
-/

namespace LineScript

namespace Number

/-- The natural number nearest to `num / den`; a half goes to the even
neighbour. -/
def roundHalfEven (num den : Nat) : Nat :=
  let q := num / den
  let twice := 2 * (num % den)
  if twice < den then q
  else if den < twice then q + 1
  else if q % 2 = 0 then q else q + 1

end Number

end LineScript
