import LineScript.Text.Blank

/-!
# Instructions

An instruction is one executable line: a keyword, a blank, and an operand. The
keyword decides what the line does and which lines belong to a block.

- `Instruction.keyword`, `Instruction.operand`: the two halves of a line.
- `stripKeyword?`: what follows a keyword that stands as a whole word.
- `inlineHeader?`: the header of a function that is defined where it is called.
- `Instruction.opensBlock`, `closesBlock`, `isElse`: the part that a line plays
  in the block structure.
-/

namespace LineScript

/-- The keyword that declares a binding. -/
def declareKeyword : String := "DECLARE"

/-- The keyword that calls a function, also at the start of a declared value. -/
def callKeyword : String := "CALL"

/-- The keyword that defines a function. -/
def functionKeyword : String := "FUNC"

/-- The keyword that opens a conditional block. -/
def ifKeyword : String := "IF"

/-- The keyword between the two branches of a conditional block. -/
def elseKeyword : String := "ELSE"

/-- The keyword that closes the innermost open block. -/
def endKeyword : String := "END"

/-- One executable line and the number of the source line it stands on. -/
structure Instruction where
  text : String
  line : Nat
deriving DecidableEq, Repr, Inhabited

/-- What follows `keyword` at the start of `text`, when the keyword stands
there as a whole word; blanks around it do not count. -/
def stripKeyword? (text : List Char) (keyword : String) : Option (List Char) :=
  match keyword.toList.isPrefixOf? text with
  | none => none
  | some rest => if rest.isEmpty || Text.startsBlank rest then some (Text.trim rest) else none

/-- The header of a callee that is a function definition in parentheses. -/
def inlineHeader? : List Char → Option (List Char)
  | '(' :: rest =>
    if rest.getLast? = some ')' then stripKeyword? (Text.trim rest.dropLast) functionKeyword
    else none
  | _ => none

/-- The text up to the parenthesis that closes the last of `depth` open ones. -/
def closingGroup? : Nat → List Char → Option (List Char)
  | _, [] => none
  | depth, c :: rest =>
    if c = '(' then (closingGroup? (depth + 1) rest).map (c :: ·)
    else if c = ')' then
      if depth ≤ 1 then some [c] else (closingGroup? (depth - 1) rest).map (c :: ·)
    else (closingGroup? depth rest).map (c :: ·)

/-- The parenthesised group that a text starts with. -/
def leadingGroup? : List Char → Option (List Char)
  | '(' :: rest => (closingGroup? 1 rest).map ('(' :: ·)
  | _ => none

namespace Instruction

/-- The text before the first blank. -/
def keyword (i : Instruction) : String :=
  String.ofList (i.text.toList.takeWhile fun c => !Text.isBlank c)

/-- The characters after the keyword, without blanks at their ends. -/
def operandChars (i : Instruction) : List Char :=
  Text.trim (i.text.toList.dropWhile fun c => !Text.isBlank c)

/-- The text after the keyword, without blanks at its ends. -/
def operand (i : Instruction) : String :=
  String.ofList i.operandChars

/-- The operand of the call that a line makes: a `CALL` line, or a `DECLARE`
line whose value is a call. -/
def callOperand? (i : Instruction) : Option (List Char) :=
  if i.keyword = callKeyword then some i.operandChars
  else if i.keyword = declareKeyword then
    match Text.cutAt (· = '=') i.operandChars with
    | some (_, value) => stripKeyword? (Text.trim value) callKeyword
    | none => none
  else none

/-- Whether the line calls a function that it defines itself, with the body on
the lines that follow. -/
def definesInline (i : Instruction) : Bool :=
  ((i.callOperand?.bind leadingGroup?).bind inlineHeader?).isSome

/-- Whether a later `END` belongs to the line. -/
def opensBlock (i : Instruction) : Bool :=
  i.keyword = ifKeyword || i.keyword = functionKeyword || i.definesInline

/-- Whether the line closes a block. -/
def closesBlock (i : Instruction) : Bool :=
  i.keyword = endKeyword

/-- Whether the line separates the branches of a conditional block. -/
def isElse (i : Instruction) : Bool :=
  i.keyword = elseKeyword

end Instruction

end LineScript
