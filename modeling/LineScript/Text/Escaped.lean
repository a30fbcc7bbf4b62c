import LineScript.Text.HiddenTable

/-!
# Escaped form of a text

The form of a text between double quotes in which every character can be seen:
quotes and backslashes are escaped, the common controls have letters, and the
other hidden characters are written with their code point in braces.
-/

namespace LineScript

namespace Text

/-- The digits of `n` in base sixteen, in lower case. -/
def hexDigits (n : Nat) : List Char :=
  Nat.toDigits 16 n

/-- The escaped form of one character. -/
def escapeChar (c : Char) : List Char :=
  if c = '\x22' then ['\\', '\x22']
  else if c = '\\' then ['\\', '\\']
  else if c = '\t' then ['\\', 't']
  else if c = '\n' then ['\\', 'n']
  else if c = '\r' then ['\\', 'r']
  else if c = '\x00' then ['\\', '0']
  else if hiddenRanges.any (fun r => r.1 ≤ c.toNat && c.toNat ≤ r.2) then
    ['\\', 'u', '\x7b'] ++ hexDigits c.toNat ++ ['\x7d']
  else [c]

/-- The escaped form of a text, between double quotes. -/
def escaped (s : String) : String :=
  String.ofList (['\x22'] ++ s.toList.flatMap escapeChar ++ ['\x22'])

end Text

end LineScript
