-- SUMMARY: Positions in a box and their linear numbers, axis 0 fastest.
import HaloMesh.Word

/-!
# Grids

A box of given sizes numbers its cells from zero, with axis 0 running fastest. The color grid and
the local storage of a color are numbered in this way.
-/

namespace HaloMesh.Grid

/-- The position of cell `n` of a box. -/
def coords : List Nat → Nat → Except Fault (List Nat)
  | [], _ => .ok []
  | size :: sizes, n => do
    let first ← Word.mod n size
    let rest ← coords sizes (n / size)
    return first :: rest

/-- The number of the cell at a position. Axes that only one of the two lists has are left out. -/
def index : List Nat → List Nat → Except Fault Nat
  | size :: sizes, c :: cs => do
    let high ← index sizes cs
    Word.add (← Word.mul high size) c
  | _, _ => .ok 0

end HaloMesh.Grid
