import LineScript.Program.Instruction

/-!
# Block layout

Where the block of an `IF` or `FUNC` line ends, and where its `ELSE` stands.
Lines that open blocks of their own inside the body must be closed first.

- `Layout`: the positions of `ELSE` and `END`.
- `layout?`: the layout of the block whose body starts at a position.
-/

namespace LineScript

/-- The positions of a block's first `ELSE` at its own depth and of its `END`. -/
structure Layout where
  elseAt : Option Nat
  endAt : Nat
deriving DecidableEq, Repr

/-- Scan lines from position `index` on, with `depth` blocks open inside the
one whose end is sought. -/
def scanLayout : Nat → Option Nat → Nat → List Instruction → Option Layout
  | _, _, _, [] => none
  | depth, elseAt, index, i :: rest =>
    if i.opensBlock then scanLayout (depth + 1) elseAt (index + 1) rest
    else if i.closesBlock then
      match depth with
      | 0 => some ⟨elseAt, index⟩
      | depth + 1 => scanLayout depth elseAt (index + 1) rest
    else if i.isElse && depth = 0 && elseAt.isNone then
      scanLayout depth (some index) (index + 1) rest
    else scanLayout depth elseAt (index + 1) rest

/-- The layout of the block whose body starts at `start`; `none` when no `END`
closes it. -/
def layout? (code : List Instruction) (start : Nat) : Option Layout :=
  scanLayout 0 none start (code.drop start)

end LineScript
