import LineScript.Number.Decimal
import LineScript.Text.Blank

/-!
# Numeric literals

The texts that denote a number, and the double each one denotes:

- decimals, with an optional sign, an optional fraction and an optional exponent;
- `Infinity`, with an optional sign;
- whole numbers below `2 ^ 64` in base 16, 8 or 2, written `0x`, `0o` or `0b`
  and without a sign.

Blanks at the two ends do not count.
-/

namespace LineScript

namespace Number

/-- Split a leading sign off; the answer says whether it is a minus. -/
def splitSign : List Char → Bool × List Char
  | '+' :: t => (false, t)
  | '-' :: t => (true, t)
  | t => (false, t)

/-- The number with the sign in front. -/
def signed (negative : Bool) (x : Float) : Float :=
  if negative then -x else x

/-- The leading ASCII digits of a text, and what follows them. -/
def spanDigits (t : List Char) : List Char × List Char :=
  t.span Char.isDigit

/-- The value of a string of decimal digits. -/
def digitsValue (ds : List Char) : Nat :=
  ds.foldl (fun n c => 10 * n + (c.toNat - '0'.toNat)) 0

/-- The value of an exponent part: nothing, or the letter, an optional sign and
at least one digit. -/
def exponent? : List Char → Option Int
  | [] => some 0
  | c :: t =>
    if c = 'e' || c = 'E' then
      let (negative, t) := splitSign t
      let (ds, rest) := spanDigits t
      if ds.isEmpty || !rest.isEmpty then none
      else some (if negative then -(digitsValue ds : Int) else digitsValue ds)
    else none

/-- The value of an unsigned decimal: digits with an optional point among them
or at either end, and an optional exponent. -/
def decimal? (t : List Char) : Option Decimal :=
  let (whole, rest) := spanDigits t
  let (fraction, rest) :=
    match rest with
    | '.' :: rest => spanDigits rest
    | rest => ([], rest)
  if whole.isEmpty && fraction.isEmpty then none
  else (exponent? rest).map fun e => ⟨digitsValue (whole ++ fraction), e - fraction.length⟩

/-- The value of a digit in bases up to sixteen. -/
def digitValue? (c : Char) : Option Nat :=
  let n := c.toNat
  if '0'.toNat ≤ n ∧ n ≤ '9'.toNat then some (n - '0'.toNat)
  else if 'a'.toNat ≤ n ∧ n ≤ 'f'.toNat then some (n - 'a'.toNat + 10)
  else if 'A'.toNat ≤ n ∧ n ≤ 'F'.toNat then some (n - 'A'.toNat + 10)
  else none

/-- The value of a string of digits in base `radix`, each below the radix. -/
def radixValue? (radix : Nat) (ds : List Char) : Option Nat :=
  ds.foldlM (fun n c => (digitValue? c).bind fun d =>
    if d < radix then some (radix * n + d) else none) 0

/-- The base that a text names with its first two characters, and the rest. -/
def radix? : List Char → Option (Nat × List Char)
  | '0' :: c :: t =>
    if c = 'x' || c = 'X' then some (16, t)
    else if c = 'o' || c = 'O' then some (8, t)
    else if c = 'b' || c = 'B' then some (2, t)
    else none
  | _ => none

/-- The number that a text without blanks at its ends denotes. -/
def literalTrimmed? (t : List Char) : Option Float :=
  let (negative, unsigned) := splitSign t
  if unsigned = "Infinity".toList then some (signed negative (1.0 / 0.0))
  else
    match radix? t with
    | some (radix, ds) =>
      if ds.isEmpty then none
      else
        (radixValue? radix ds).bind fun n =>
          if n < Nat.pow 2 64 then some (Float.ofNat n) else none
    | none => (decimal? unsigned).map fun d => signed negative d.toFloat

/-- The number that a text denotes, if it denotes one. -/
def literal? (t : List Char) : Option Float :=
  literalTrimmed? (Text.trim t)

end Number

end LineScript
