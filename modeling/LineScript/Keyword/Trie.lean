/-!
# Tries

A finite map from texts to values, kept as a trie: keys that start alike share
the branches of their common start. Branches stand in the order of their
characters, so keys come out in the order of their code points.

- `Branches`: the branches below a point, each with the value of the key that
  ends there and the branches below it.
- `Trie.insert`, `find?`, `remove`, `keysFrom`: the operations of the map.
- `Trie.replace`, `take`: insertion and removal with the value that was there.
-/

namespace LineScript

universe u

/-- The branches below a point of a trie, as a list: the character of the first
branch, the value of the key that ends with it, the branches below it, and the
other branches. -/
inductive Branches (α : Type u) where
  | nil
  | cons (c : Char) (value : Option α) (below rest : Branches α)

namespace Branches

variable {α : Type u}

/-- Whether there are no branches. -/
def isEmpty : Branches α → Bool
  | nil => true
  | cons .. => false

/-- The branches of a single key, given by its first character and the rest. -/
def single (v : α) : Char → List Char → Branches α
  | c, [] => cons c (some v) nil nil
  | c, d :: key => cons c none (single v d key) nil

/-- The branches with `v` under a key. -/
def insert (v : α) : Branches α → Char → List Char → Branches α
  | nil, c, key => single v c key
  | cons d x below rest, c, key =>
    if c = d then
      match key with
      | [] => cons d (some v) below rest
      | e :: key => cons d x (below.insert v e key) rest
    else if c < d then
      match key with
      | [] => cons c (some v) nil (cons d x below rest)
      | e :: key => cons c none (single v e key) (cons d x below rest)
    else cons d x below (rest.insert v c key)

/-- The value under the key that ends at a point, and the branches below that
point; `none` when no key goes through it. -/
def at? : Branches α → Char → List Char → Option (Option α × Branches α)
  | nil, _, _ => none
  | cons d x below rest, c, key =>
    if c = d then
      match key with
      | [] => some (x, below)
      | e :: key => below.at? e key
    else rest.at? c key

/-- The branches without a key. Branches that lead to no key any more go with
it. -/
def remove : Branches α → Char → List Char → Branches α
  | nil, _, _ => nil
  | cons d x below rest, c, key =>
    if c = d then
      match key with
      | [] => if below.isEmpty then rest else cons d none below rest
      | e :: key =>
        let below := below.remove e key
        if x.isNone && below.isEmpty then rest else cons d x below rest
    else cons d x below (rest.remove c key)

/-- The keys, in order. -/
def keys : Branches α → List (List Char)
  | nil => []
  | cons c x below rest =>
    (if x.isSome then [[c]] else []) ++ below.keys.map (c :: ·) ++ rest.keys

end Branches

/-- A trie: the value of the empty key, the branches of all other keys, and the
number of keys. -/
structure Trie (α : Type u) where
  value : Option α
  branches : Branches α
  size : Nat

namespace Trie

variable {α : Type u}

/-- The map without keys. -/
def empty : Trie α :=
  ⟨none, .nil, 0⟩

/-- The value under the key that ends at a point, and the branches below that
point; `none` when no key goes through it. -/
def at? (t : Trie α) : List Char → Option (Option α × Branches α)
  | [] => some (t.value, t.branches)
  | c :: key => t.branches.at? c key

/-- The value under a key. -/
def find? (t : Trie α) (key : List Char) : Option α :=
  (t.at? key).bind Prod.fst

/-- Whether a key has a value. -/
def contains (t : Trie α) (key : List Char) : Bool :=
  (t.find? key).isSome

/-- Whether there are no keys. -/
def isEmpty (t : Trie α) : Bool :=
  t.size = 0

/-- The map with `v` under a key, in place of what was there. -/
def insert (t : Trie α) (key : List Char) (v : α) : Trie α :=
  let size := if t.contains key then t.size else t.size + 1
  match key with
  | [] => ⟨some v, t.branches, size⟩
  | c :: key => ⟨t.value, t.branches.insert v c key, size⟩

/-- The map without a key. -/
def remove (t : Trie α) (key : List Char) : Trie α :=
  if t.contains key then
    match key with
    | [] => ⟨none, t.branches, t.size - 1⟩
    | c :: key => ⟨t.value, t.branches.remove c key, t.size - 1⟩
  else t

/-- Put a value under a key; gives the one whose place it takes. -/
def replace (t : Trie α) (key : List Char) (v : α) : Option α × Trie α :=
  (t.find? key, t.insert key v)

/-- Take a key out of the map; gives its value. -/
def take (t : Trie α) (key : List Char) : Option α × Trie α :=
  (t.find? key, t.remove key)

/-- The keys that start with a text, in the order of their code points. -/
def keysFrom (t : Trie α) (start : List Char) : List (List Char) :=
  match t.at? start with
  | none => []
  | some (value, below) =>
    (if value.isSome then [start] else []) ++ below.keys.map (start ++ ·)

/-- The keys, in the order of their code points. -/
def keys (t : Trie α) : List (List Char) :=
  t.keysFrom []

/-- The map of a list of keys and values; a later value of a key counts. -/
def ofList (entries : List (List Char × α)) : Trie α :=
  entries.foldl (fun t (key, v) => t.insert key v) empty

end Trie

end LineScript
