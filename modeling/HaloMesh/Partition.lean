-- SUMMARY: The storage sizes of every color, per index space.
import HaloMesh.Coloring.Basic
import HaloMesh.Region

namespace HaloMesh

/-- The storage sizes of one index space, listed by color. -/
structure Partition where
  indexSpace : Nat
  extents : List (List Nat)
  sizes : List Nat
  deriving DecidableEq, Repr, Inhabited

namespace Partition

def colors (p : Partition) : Nat := p.sizes.length

def total (p : Partition) : Except Fault Nat := Word.sum p.sizes

def region (p : Partition) (color : Nat) : Except Fault Region := do
  return .new p.indexSpace color (← fetch p.sizes color)

def ofParts (indexSpace : Nat) (parts : List IndexColoring) : Except Fault Partition := do
  let extents := parts.map (·.extents)
  return ⟨indexSpace, extents, ← extents.mapM Word.product⟩

end Partition

/-- The storage sizes of every index space, of which the coloring must have the given number. -/
def Coloring.partitions (c : Coloring) (indexSpaces : Nat) : Except Failure (List Partition) := do
  if c.indexSpaces ≠ indexSpaces then
    throw (.reported (.indexSpaceMismatch indexSpaces c.indexSpaces))
  c.parts.zipIdx.mapM fun (parts, s) => Partition.ofParts s parts

end HaloMesh
