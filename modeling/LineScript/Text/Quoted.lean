/-!
# Quoted literals

A literal runs from a quote to the next occurrence of the same quote that no
backslash escapes. Inside a literal, blanks, parentheses and operators are
plain characters.

- `State`, `State.next`: where a left-to-right scan stands.
- `mark`: every character of a text with the answer whether it lies outside
  all literals (an opening quote does, a closing one does not).
- `literal?`: the contents of a text that is one literal from end to end.
- `length_mark`, `map_fst_mark`: marking keeps the characters.
-/

namespace LineScript

namespace Quoted

/-- The three quotes: double, single and back. -/
def isQuote (c : Char) : Bool :=
  c = '\x22' || c = '\x27' || c = '\x60'

/-- Where a scan stands: outside all literals, or inside the literal that
`quote` opened, with `escaped` set right after a backslash. -/
inductive State where
  | outside
  | inside (quote : Char) (escaped : Bool)
deriving DecidableEq, Repr

/-- The state after one more character. -/
def State.next : State → Char → State
  | .outside, c => if isQuote c then .inside c false else .outside
  | .inside q true, _ => .inside q false
  | .inside q false, c =>
    if c = '\\' then .inside q true else if c = q then .outside else .inside q false

/-- Whether a character read in this state lies outside all literals. -/
def State.isOutside : State → Bool
  | .outside => true
  | .inside _ _ => false

/-- Every character with the answer whether it lies outside all literals. -/
def mark : State → List Char → List (Char × Bool)
  | _, [] => []
  | st, c :: t => (c, st.isOutside) :: mark (st.next c) t

/-- The characters up to the end of a literal that `quote` opened, if that end
is the end of the text. Escapes are kept as they are written. -/
def contents? (quote : Char) : Bool → List Char → Option (List Char)
  | _, [] => none
  | true, c :: t => (contents? quote false t).map (c :: ·)
  | false, c :: t =>
    if c = '\\' then (contents? quote true t).map (c :: ·)
    else if c = quote then (if t.isEmpty then some [] else none)
    else (contents? quote false t).map (c :: ·)

/-- The contents of a text that is one literal from its first character to its
last. -/
def literal? : List Char → Option (List Char)
  | [] => none
  | q :: t => if isQuote q then contents? q false t else none

/-! ### Marking keeps the characters -/

theorem map_fst_mark (st : State) (t : List Char) : (mark st t).map Prod.fst = t := by
  induction t generalizing st with
  | nil => rfl
  | cons c t ih => simp [mark, ih]

theorem length_mark (st : State) (t : List Char) : (mark st t).length = t.length := by
  rw [← List.length_map (f := Prod.fst), map_fst_mark]

end Quoted

end LineScript
