-- SUMMARY: How one axis is split into consecutive blocks, one for each color position.
import HaloMesh.Word

/-!
# Blocks

The first `extent % colors` positions get one index more than the others, so the offset of a block
has a closed form.
-/

namespace HaloMesh

/-- The indices of an axis that one color position owns. -/
structure Block where
  offset : Nat
  size : Nat
  deriving DecidableEq, Repr, Inhabited

def Block.of (extent colors c : Nat) : Except Fault Block := do
  let base ← Word.div extent colors
  let extra ← Word.mod extent colors
  let size ← Word.add base (if c < extra then 1 else 0)
  let offset ← Word.add (← Word.mul c base) (min c extra)
  return ⟨offset, size⟩

/-- The block sizes of all positions of an axis, which take eight bytes each. -/
def Block.sizes (extent colors : Nat) : Except Fault (List Nat) := do
  Word.reserve (8 * colors)
  (List.range colors).mapM fun c => do return (← Block.of extent colors c).size

end HaloMesh
