import LineScript.Text.UpperTable

/-!
# Upper case

The full Unicode upper-case form of a text. One character can become several
(`ß` becomes `SS`), so the form may be longer than the text.
-/

namespace LineScript

namespace Text

/-- The upper-case form of one character. -/
def upperChar (c : Char) : List Char :=
  let n := c.toNat
  match upperSpecial.lookup n with
  | some form => form.map Char.ofNat
  | none =>
    match upperRuns.find? fun r => r.first ≤ n && n ≤ r.last && (n - r.first) % r.step = 0 with
    | some r => [Char.ofNat ((n : Int) + r.shift).toNat]
    | none => [c]

/-- The upper-case form of a text. -/
def upper (t : List Char) : List Char :=
  t.flatMap upperChar

end Text

end LineScript
