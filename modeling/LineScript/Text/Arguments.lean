import LineScript.Text.Blank
import LineScript.Text.Quoted

/-!
# Arguments

A list of arguments is written one after the other with blanks between them.
Blanks inside parentheses or literals do not separate.

- `arguments`: the arguments of a text, or which parenthesis is unbalanced.
-/

namespace LineScript

namespace Text

/-- The parenthesis that has no partner. -/
inductive Unbalanced where
  | opening
  | closing
deriving DecidableEq, Repr

/-- An argument read so far, last character first, as a list of at most one
argument. -/
def finished (current : List Char) : List (List Char) :=
  if current.isEmpty then [] else [current.reverse]

/-- Read marked characters with `depth` open parentheses and the characters
`current` of an unfinished argument, last character first. -/
def argumentsFrom : Nat → List Char → List (Char × Bool) →
    Except Unbalanced (List (List Char))
  | depth, current, [] => if 0 < depth then .error .opening else .ok (finished current)
  | depth, current, (c, outside) :: rest =>
    if outside && c = '(' then argumentsFrom (depth + 1) (c :: current) rest
    else if outside && c = ')' then
      if depth = 0 then .error .closing else argumentsFrom (depth - 1) (c :: current) rest
    else if outside && isBlank c && depth = 0 then
      (argumentsFrom 0 [] rest).map (finished current ++ ·)
    else argumentsFrom depth (c :: current) rest

/-- The arguments of a text, in order. -/
def arguments (t : List Char) : Except Unbalanced (List (List Char)) :=
  argumentsFrom 0 [] (Quoted.mark .outside t)

end Text

end LineScript
