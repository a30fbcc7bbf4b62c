import LineScript.Keyword.Trie
import LineScript.Text.Upper

/-!
# Keyword tables

The keywords that a machine knows, each with what it does.

- `Table.find?`: what a keyword does.
- `Table.suggestions`: the keywords that a word may have been meant as.
-/

namespace LineScript

/-- What every keyword does. -/
structure Table (α : Type) where
  entries : Trie α

namespace Table

variable {α : Type}

/-- A table without keywords. -/
def empty : Table α :=
  ⟨.empty⟩

/-- The table with a keyword, in place of what it did before. -/
def insert (t : Table α) (keyword : String) (v : α) : Table α :=
  ⟨t.entries.insert keyword.toList v⟩

/-- What a keyword does. -/
def find? (t : Table α) (keyword : String) : Option α :=
  t.entries.find? keyword.toList

/-- Whether a word is a keyword. -/
def contains (t : Table α) (keyword : String) : Bool :=
  t.entries.contains keyword.toList

/-- The keywords, in the order of their code points. -/
def keywords (t : Table α) : List String :=
  t.entries.keys.map String.ofList

/-- The keywords that start with the longest possible non-empty start of a
word, among its starts with at most `n` characters. -/
def sharingStart (t : Table α) (word : List Char) : Nat → List (List Char)
  | 0 => []
  | n + 1 =>
    let keys := t.entries.keysFrom (word.take (n + 1))
    if keys.isEmpty then t.sharingStart word n else keys

/-- The keywords that a word may have been meant as. If the word in upper case
is a keyword, it is that one; otherwise it is those that share the longest
non-empty start with the word in upper case. -/
def suggestions (t : Table α) (word : String) : List String :=
  let upper := Text.upper word.toList
  if upper ≠ word.toList ∧ t.entries.contains upper then [String.ofList upper]
  else (t.sharingStart upper upper.length).map String.ofList

end Table

end LineScript
