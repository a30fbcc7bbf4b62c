/-!
# Blanks and cuts

Texts are handled as lists of characters. This module says which characters
are blank and gives the ways a text is cut at a class of characters.

- `isBlank`: the code points with the Unicode property White_Space.
- `trim`: a text without the blanks at its two ends.
- `cutAt`: a text cut at the first character of a class.
- `pieces`: a text cut at every character of a class.
- `words`: the maximal blank-free runs.
- `dropWhile_eq_self`, `trimStart_of_head`: a text that starts with no blank
  is kept as it is.
-/

namespace LineScript

namespace Text

/-- A blank character: one with the Unicode property White_Space. -/
def isBlank (c : Char) : Bool :=
  let n := c.toNat
  (9 ≤ n && n ≤ 13) || n = 0x20 || n = 0x85 || n = 0xA0 || n = 0x1680 ||
    (0x2000 ≤ n && n ≤ 0x200A) || n = 0x2028 || n = 0x2029 || n = 0x202F ||
    n = 0x205F || n = 0x3000

/-- The text without its leading blanks. -/
def trimStart (t : List Char) : List Char :=
  t.dropWhile isBlank

/-- The text without its trailing blanks. -/
def trimEnd (t : List Char) : List Char :=
  (t.reverse.dropWhile isBlank).reverse

/-- The text without the blanks at its two ends. -/
def trim (t : List Char) : List Char :=
  trimEnd (trimStart t)

/-- The parts before and after the first character that satisfies `p`;
`none` when there is no such character. -/
def cutAt (p : Char → Bool) (t : List Char) : Option (List Char × List Char) :=
  match t.dropWhile (fun c => !p c) with
  | [] => none
  | _ :: rest => some (t.takeWhile (fun c => !p c), rest)

/-- The parts of a text between the characters that satisfy `p`:
`n` separators leave `n + 1` parts, some of them possibly empty. -/
def pieces (p : Char → Bool) : List Char → List (List Char)
  | [] => [[]]
  | c :: t =>
    match p c, pieces p t with
    | true, ps => [] :: ps
    | false, [] => [[c]]
    | false, w :: ws => (c :: w) :: ws

/-- The maximal runs without a blank, in order. -/
def words (t : List Char) : List (List Char) :=
  (pieces isBlank t).filter (fun w => !w.isEmpty)

/-- Whether the text starts with a blank. -/
def startsBlank : List Char → Bool
  | [] => false
  | c :: _ => isBlank c

/-! ### Small facts -/

theorem isBlank_space : isBlank ' ' = true := by decide

theorem dropWhile_eq_self {p : Char → Bool} :
    ∀ {t : List Char}, (∀ c, t.head? = some c → p c = false) → t.dropWhile p = t
  | [], _ => rfl
  | c :: t, h => by simp [h c rfl]

/-- A text that starts with no blank loses nothing at its start. -/
theorem trimStart_of_head {t : List Char} (h : startsBlank t = false) : trimStart t = t := by
  cases t with
  | nil => rfl
  | cons c t => exact List.dropWhile_cons_of_neg (by simpa [startsBlank] using h)

/-- Cutting always leaves at least one part. -/
theorem pieces_ne_nil (p : Char → Bool) (t : List Char) : pieces p t ≠ [] := by
  cases t with
  | nil => simp [pieces]
  | cons c t => rw [pieces]; split <;> simp

end Text

end LineScript
