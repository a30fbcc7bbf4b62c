import LineScript.Expr.Operator
import LineScript.Text.Quoted

/-!
# Chains of operands

A text without parentheses is a chain: operands with operators between them. An
operator is a word of its own; a word that touches a literal is never one. The
chain is grouped into a tree by the tiers of its operators.

- `fields`: the words of a text with the blanks that separate them.
- `Chain.ofText`: the chain of a text.
- `Tree.attach`, `Chain.tree`: the tree of a chain. A weaker operator stands
  above a tighter one, and of equally tight ones the later stands above.
- `fields_flatten`: cutting into words loses nothing.
-/

namespace LineScript

namespace Expr

/-- A character with the answer whether it lies outside all literals. -/
abbrev Marked := Char × Bool

/-- Whether a character separates words: a blank outside all literals. -/
def Marked.separates (m : Marked) : Bool :=
  m.2 && Text.isBlank m.1

/-- Whether a character belongs to a literal, as a quote or inside it. -/
def Marked.isQuoted (m : Marked) : Bool :=
  !m.2 || Quoted.isQuote m.1

/-- The first word of a text, and every further word with the separator before
it. A word may be empty. -/
def fields : List Marked → List Marked × List (Marked × List Marked)
  | [] => ([], [])
  | m :: t =>
    let (word, rest) := fields t
    if m.separates then ([], (m, word) :: rest) else (m :: word, rest)

/-- The text of a first word and further words. -/
def fieldsText (word : List Marked) (rest : List (Marked × List Marked)) : List Marked :=
  word ++ rest.flatMap fun (m, w) => m :: w

/-- The characters without their marks. -/
def plain (t : List Marked) : List Char :=
  t.map Prod.fst

/-- The operator that a word denotes; a word that touches a literal denotes
none. -/
def operator? (word : List Marked) : Option Operator :=
  if word.any Marked.isQuoted then none else Operator.ofToken? (String.ofList (plain word))

/-- A first operand, and every further operand with the operator before it. -/
structure Chain where
  first : List Char
  rest : List (Operator × List Char)
deriving DecidableEq, Repr

/-- The chain of words: operators end an operand, all other words and the
separators belong to one. -/
def Chain.ofFields (word : List Marked) : List (Marked × List Marked) → Chain
  | [] =>
    match operator? word with
    | some op => ⟨[], [(op, [])]⟩
    | none => ⟨plain word, []⟩
  | (m, next) :: more =>
    let chain := ofFields next more
    match operator? word with
    | some op => ⟨[], (op, m.1 :: chain.first) :: chain.rest⟩
    | none => ⟨plain word ++ m.1 :: chain.first, chain.rest⟩

/-- The chain of a text without parentheses. -/
def Chain.ofText (t : List Char) : Chain :=
  let (word, rest) := fields (Quoted.mark .outside t)
  Chain.ofFields word rest

/-- An expression tree over operands of type `α`. -/
inductive Tree (α : Type) where
  | leaf (operand : α)
  | node (op : Operator) (left right : Tree α)
deriving Repr

namespace Tree

variable {α : Type}

/-- The tree with one more operator and operand at its right end. The operator
takes over the right operand of every operator that binds weaker. -/
def attach : Tree α → Operator → α → Tree α
  | leaf a, op, b => node op (leaf a) (leaf b)
  | node top l r, op, b =>
    if top.tier < op.tier then node top l (r.attach op b) else node op (node top l r) (leaf b)

/-- The operands from left to right. -/
def operands : Tree α → List α
  | leaf a => [a]
  | node _ l r => l.operands ++ r.operands

/-- Attaching adds the operand at the right end. -/
theorem operands_attach (t : Tree α) (op : Operator) (b : α) :
    (t.attach op b).operands = t.operands ++ [b] := by
  induction t with
  | leaf a => rfl
  | node top l r _ ih =>
    rw [attach]
    split <;> simp [operands, ih]

end Tree

/-- The tree of a chain. -/
def Chain.tree (c : Chain) : Tree (List Char) :=
  c.rest.foldl (fun t (op, operand) => t.attach op operand) (.leaf c.first)

/-- The tree of a chain has the operands of the chain, in their order. -/
theorem Chain.operands_tree (c : Chain) : c.tree.operands = c.first :: c.rest.map Prod.snd := by
  suffices h : ∀ (rest : List (Operator × List Char)) (t : Tree (List Char)),
      (rest.foldl (fun t (op, operand) => t.attach op operand) t).operands =
        t.operands ++ rest.map Prod.snd by
    simpa [Chain.tree, Tree.operands] using h c.rest (.leaf c.first)
  intro rest
  induction rest with
  | nil => simp
  | cons p rest ih => intro t; simp [ih, Tree.operands_attach]

/-- Cutting into words loses nothing. -/
theorem fields_flatten (t : List Marked) : fieldsText (fields t).1 (fields t).2 = t := by
  induction t with
  | nil => rfl
  | cons m t ih =>
    simp only [fieldsText] at ih
    simp only [fields, fieldsText]
    split <;> simp [ih]

end Expr

end LineScript
