-- SUMMARY: The part of one index space that one color stores: owned block, padding and ghosts along each axis.
import HaloMesh.Coloring.Block
import HaloMesh.Coloring.Definition
import HaloMesh.Coloring.Grid

/-!
# Index colorings

Along an axis the storage of a color is

  low ghosts, low padding, owned block, high padding, high ghosts

where one of the first two and one of the last two is empty: a face at the edge of a domain that is
not periodic is padded, and any other face gets ghosts. Global coordinates are signed, since low
padding lies below index 0.
-/

namespace HaloMesh

/-- The low and high corners of a box in global coordinates. -/
structure Hypercube where
  low : List Int
  high : List Int
  deriving DecidableEq, Repr, Inhabited

/-- The part of one index space that one color stores. -/
structure IndexColoring where
  global : List Nat
  /-- The global position of the first owned index of each axis. -/
  offset : List Nat
  /-- The local extent of each axis: owned indices, padding and ghosts. -/
  extents : List Nat
  logical : Hypercube
  extended : Hypercube
  /-- Two bits per axis: whether the color touches the low and the high edge of the domain. -/
  faces : Nat
  deriving DecidableEq, Repr, Inhabited

/-- The number of bytes that a part takes in a list of parts: seven lists of three words each, and a
word for the faces. -/
abbrev IndexColoring.footprint : Nat := 176

/-! ## Coloring one axis -/

/-- The part of one axis that one color stores. -/
structure AxisColoring where
  global : Nat
  offset : Nat
  extent : Nat
  logicalLow : Int
  logicalHigh : Int
  extendedLow : Int
  extendedHigh : Int
  low : Bool
  high : Bool
  deriving DecidableEq, Repr, Inhabited

def AxisColoring.of (ax : AxisDefinition) (position : Nat) : Except Fault AxisColoring := do
  let block ← Block.of ax.extent ax.colors position
  let stop ← Word.add block.offset block.size
  let low := !ax.periodic && block.offset == 0
  let high := !ax.periodic && stop == ax.extent
  let padLow := if low then ax.boundary else 0
  let padHigh := if high then ax.boundary else 0
  let ghostLow := if low then 0 else ax.halo
  let ghostHigh := if high then 0 else ax.halo
  let extent ← Word.sum [ghostLow, padLow, block.size, padHigh, ghostHigh]
  let extendedLow ← Signed.sub (Signed.ofSize block.offset) (Signed.ofSize padLow)
  let extendedHigh ← Word.add stop padHigh
  return {
    global := ax.extent
    offset := block.offset
    extent
    logicalLow := Signed.ofSize block.offset
    logicalHigh := Signed.ofSize stop
    extendedLow
    extendedHigh := Signed.ofSize extendedHigh
    low
    high }

/-- The face bits of axis `a` in place. A face mask has room for 16 axes. -/
def AxisColoring.faceBits (part : AxisColoring) (a : Nat) : Except Fault Nat :=
  if 2 * a < 32 then
    .ok ((part.low.toNat + 2 * part.high.toNat) <<< (2 * a))
  else .error (.overflow .shiftLeft)

namespace IndexColoring

/-! ## Coloring all axes -/

/-- The part of axis `a` that the color at `position` stores, with its face bits in place. -/
def axisPart (d : ColoringDefinition) (a position : Nat) : Except Fault (AxisColoring × Nat) := do
  let ax ← d.axis a
  let part ← AxisColoring.of ax position
  let bits ← part.faceBits a
  return (part, bits)

def ofParts (parts : List (AxisColoring × Nat)) : IndexColoring where
  global := parts.map (·.1.global)
  offset := parts.map (·.1.offset)
  extents := parts.map (·.1.extent)
  logical := ⟨parts.map (·.1.logicalLow), parts.map (·.1.logicalHigh)⟩
  extended := ⟨parts.map (·.1.extendedLow), parts.map (·.1.extendedHigh)⟩
  faces := parts.foldl (fun mask part => mask ||| part.2) 0

def of (d : ColoringDefinition) (color : Nat) : Except Fault IndexColoring := do
  let position ← Grid.coords d.axisColors color
  let parts ← position.zipIdx.mapM fun (c, a) => axisPart d a c
  return ofParts parts

/-! ## Faces -/

def dimension (ic : IndexColoring) : Nat := ic.global.length

/-- A bit of the face mask, which has 32 of them. -/
def faceBit (ic : IndexColoring) (i : Nat) : Bool := ic.faces.testBit i

/-- Whether the color touches the low edge of the domain on an axis. -/
def isLow (ic : IndexColoring) (axis : Nat) : Except Fault Bool :=
  if 2 * axis < 32 then .ok (ic.faceBit (2 * axis)) else .error (.overflow .shiftRight)

/-- Whether the color touches the high edge of the domain on an axis. -/
def isHigh (ic : IndexColoring) (axis : Nat) : Except Fault Bool :=
  if 2 * axis < 32 then .ok (ic.faceBit (2 * axis + 1)) else .error (.overflow .shiftRight)

/-- Whether the color touches neither edge on an axis. -/
def isInterior (ic : IndexColoring) (axis : Nat) : Except Fault Bool := do
  return !(← ic.isLow axis) && !(← ic.isHigh axis)

/-! ## Widths along an axis -/

/-- The number of indices from one list of bounds to another on an axis. -/
def width (high low : List Int) (axis : Nat) : Except Fault Nat := do
  return Signed.toSize (← Signed.sub (← fetch high axis) (← fetch low axis))

def owned (ic : IndexColoring) (axis : Nat) : Except Fault Nat :=
  width ic.logical.high ic.logical.low axis

def boundaryLow (ic : IndexColoring) (axis : Nat) : Except Fault Nat :=
  width ic.logical.low ic.extended.low axis

def boundaryHigh (ic : IndexColoring) (axis : Nat) : Except Fault Nat :=
  width ic.extended.high ic.logical.high axis

/-- The number of owned indices and padding. -/
def extendedLength (ic : IndexColoring) (axis : Nat) : Except Fault Nat :=
  width ic.extended.high ic.extended.low axis

/-- How the slots that are neither owned nor padding are split into low and high ghosts. Both faces
of an interior color have ghosts of the same depth. -/
def splitGhosts (slots : Nat) : (low high : Bool) → Nat × Nat
  | true, true => (0, 0)
  | true, false => (0, slots)
  | false, true => (slots, 0)
  | false, false => (slots / 2, slots / 2)

def ghosts (ic : IndexColoring) (axis : Nat) : Except Fault (Nat × Nat) := do
  let slots ← Word.sub (← fetch ic.extents axis) (← ic.extendedLength axis)
  return splitGhosts slots (← ic.isLow axis) (← ic.isHigh axis)

def ghostLow (ic : IndexColoring) (axis : Nat) : Except Fault Nat := do
  return (← ic.ghosts axis).1

def ghostHigh (ic : IndexColoring) (axis : Nat) : Except Fault Nat := do
  return (← ic.ghosts axis).2

/-! ## Local storage -/

/-- The owned indices as a range of local storage. -/
def localLogical (ic : IndexColoring) (axis : Nat) : Except Fault SlotRange := do
  let start ← Word.add (← ic.ghostLow axis) (← ic.boundaryLow axis)
  return ⟨start, ← Word.add start (← ic.owned axis)⟩

/-- The owned indices and the padding as a range of local storage. -/
def localExtended (ic : IndexColoring) (axis : Nat) : Except Fault SlotRange := do
  let start ← ic.ghostLow axis
  return ⟨start, ← Word.add start (← ic.extendedLength axis)⟩

def size (ic : IndexColoring) : Except Fault Nat := Word.product ic.extents

def linear (ic : IndexColoring) (coords : List Nat) : Except Fault Nat :=
  Grid.index ic.extents coords

end IndexColoring

end HaloMesh
