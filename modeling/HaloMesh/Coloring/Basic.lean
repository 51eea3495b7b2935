-- SUMMARY: The coloring of all index spaces over all colors, with its invariants.
import HaloMesh.Coloring.IndexColoring
import HaloMesh.Loop

/-!
# Colorings

A coloring holds, for every index space and every color, the part of the space that the color stores.
Along each axis the owned blocks follow one another from index 0 up to the extent, and the ghost
widths follow from the faces and the halo depth.
-/

namespace HaloMesh

/-- What one color stores of every index space. -/
structure ColorMeta where
  color : Nat
  spaces : List IndexColoring
  deriving DecidableEq, Repr, Inhabited

def ColorMeta.of (spec : ColoringSpec) (color : Nat) : Except Fault ColorMeta := do
  return ⟨color, ← spec.indexSpaces.mapM (IndexColoring.of · color)⟩

/-- What every color stores of every index space. -/
structure Coloring where
  spec : ColoringSpec
  colors : Nat
  /-- The parts of the colors, listed for each index space. -/
  parts : List (List IndexColoring)
  deriving DecidableEq, Repr, Inhabited

namespace Coloring

def indexSpaces (c : Coloring) : Nat := c.parts.length

def dimension (c : Coloring) : Nat := c.spec.dimension

def metadata (c : Coloring) (color : Nat) : Except Fault ColorMeta := do
  return ⟨color, ← c.parts.mapM (fetch · color)⟩

def position (c : Coloring) (color : Nat) : Except Fault (List Nat) :=
  Grid.coords c.spec.axisColors color

/-- The positions of all colors, which take three words each. -/
def positions (c : Coloring) : Except Fault (List (List Nat)) := do
  Word.reserve (24 * c.colors)
  (List.range c.colors).mapM c.position

/-! ## Invariants -/

/-- The color at position `c` of axis `a`, and at position 0 of every other axis. -/
def colorOnAxis (d : ColoringDefinition) (a c : Nat) : Except Fault Nat :=
  Grid.index d.axisColors ((List.replicate d.dimension 0).set a c)

/-- Check that the block at position `c` of axis `a` starts at `next`, and return where it ends. -/
def checkBlock (s : Nat) (d : ColoringDefinition) (parts : List IndexColoring) (a c : Nat)
    (next : Int) : Except Failure Int := do
  let part ← fetch parts (← colorOnAxis d a c)
  let start ← fetch part.logical.low a
  if start = next then
    fetch part.logical.high a
  else
    throw (.reported (.invariant (.blockStart s a c start next)))

/-- Check that the blocks of axis `a` follow one another up to the extent. -/
def checkAxisBlocks (s : Nat) (d : ColoringDefinition) (parts : List IndexColoring) (a : Nat) :
    Except Failure Unit := do
  let colors ← fetch d.axisColors a
  let stop ← countUpTo colors (checkBlock s d parts a) 0
  let extent ← fetch d.axisExtents a
  if stop ≠ Signed.ofSize extent then
    throw (.reported (.invariant (.blockEnd s a stop extent)))

/-- Check that the ghost widths of a color on axis `a` follow from its faces. -/
def checkGhosts (s : Nat) (d : ColoringDefinition) (part : IndexColoring) (a : Nat) :
    Except Failure Unit := do
  let halo ← fetch d.haloDepths a
  let low := if ← part.isLow a then 0 else halo
  let high := if ← part.isHigh a then 0 else halo
  let ghosts ← part.ghosts a
  if ghosts ≠ (low, high) then
    throw (.reported (.invariant (.ghostWidths s a ghosts.1 ghosts.2 halo)))

def checkSpace (c : Coloring) (d : ColoringDefinition) (s : Nat) : Except Failure Unit := do
  let parts ← fetch c.parts s
  if parts.length ≠ c.colors then
    throw (.reported (.invariant (.coloringCount s parts.length c.colors)))
  (List.range d.dimension).forM (checkAxisBlocks s d parts)
  parts.forM fun part => (List.range part.dimension).forM (checkGhosts s d part)

def check (c : Coloring) : Except Failure Unit :=
  c.spec.indexSpaces.zipIdx.forM fun (d, s) => c.checkSpace d s

/-! ## Construction -/

def partsOfSpace (colors : Nat) (d : ColoringDefinition) : Except Fault (List IndexColoring) := do
  Word.reserve (IndexColoring.footprint * colors)
  (List.range colors).mapM (IndexColoring.of d)

def partsOf (spec : ColoringSpec) (colors : Nat) : Except Fault (List (List IndexColoring)) :=
  spec.indexSpaces.mapM (partsOfSpace colors)

/-- The coloring of a spec, which must be valid. -/
def ofSpec (spec : ColoringSpec) : Except Failure Coloring := do
  spec.validate
  let colors ← spec.colors
  let parts ← partsOf spec colors
  let coloring : Coloring := ⟨spec, colors, parts⟩
  assertInvariants coloring.check
  return coloring

def derivationText (c : Coloring) : String :=
  s!"colored {c.indexSpaces} index spaces over {c.colors} colors (grid {listText c.spec.axisColors})"

end Coloring

end HaloMesh
