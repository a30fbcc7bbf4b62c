import LineScript.Number.Format
import LineScript.Number.Rounding

/-!
# Text of a duration

A duration is written with two places in the largest unit of which it has at
least one; a half goes to the even neighbour.
-/

namespace LineScript

/-- A unit of time: its nanoseconds and its sign. -/
structure TimeUnit where
  nanoseconds : Nat
  sign : String
deriving DecidableEq, Repr

/-- The largest unit of which a duration has at least one. -/
def TimeUnit.of (ns : Nat) : TimeUnit :=
  if Nat.pow 10 9 ≤ ns then ⟨Nat.pow 10 9, "s"⟩
  else if Nat.pow 10 6 ≤ ns then ⟨Nat.pow 10 6, "ms"⟩
  else if Nat.pow 10 3 ≤ ns then ⟨Nat.pow 10 3, "\u00b5s"⟩
  else ⟨1, "ns"⟩

/-- The text of a duration of `ns` nanoseconds. -/
def durationText (ns : Nat) : String :=
  let unit := TimeUnit.of ns
  let hundredths := Number.roundHalfEven (ns * 100) unit.nanoseconds
  let places := hundredths % 100
  toString (hundredths / 100) ++ "." ++ (if places < 10 then "0" else "") ++ toString places ++
    unit.sign

end LineScript
