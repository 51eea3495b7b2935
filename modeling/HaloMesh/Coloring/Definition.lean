-- SUMMARY: The input of a coloring: per-axis definitions of index spaces, and their validation.
import HaloMesh.Word

/-!
# Coloring input

Per axis an index space has a number of colors, an extent, a halo depth (ghosts at a face shared with
another color) and a boundary depth (padding at the edge of the domain), and may be periodic. All
index spaces of a topology share one color grid.
-/

namespace HaloMesh

/-! ## One index space -/

/-- The coloring input of one axis. -/
structure AxisDefinition where
  colors : Nat
  extent : Nat
  halo : Nat
  boundary : Nat
  periodic : Bool
  deriving DecidableEq, Repr, Inhabited

/-- Whether the faces of an axis can border on another color, or wrap around. -/
def AxisDefinition.hasGhosts (ax : AxisDefinition) : Bool := ax.colors > 1 || ax.periodic

/-- The coloring input of one index space, with one entry per axis in every list. -/
structure ColoringDefinition where
  axisColors : List Nat
  axisExtents : List Nat
  haloDepths : List Nat
  boundaryDepths : List Nat
  periodic : List Bool
  deriving DecidableEq, Repr, Inhabited

namespace ColoringDefinition

/-- The most axes that a 32-bit face mask can describe, with two bits for each. -/
abbrev maxDimension : Nat := 16

def ofAxes (axes : List AxisDefinition) : ColoringDefinition where
  axisColors := axes.map (·.colors)
  axisExtents := axes.map (·.extent)
  haloDepths := axes.map (·.halo)
  boundaryDepths := axes.map (·.boundary)
  periodic := axes.map (·.periodic)

def dimension (d : ColoringDefinition) : Nat := d.axisColors.length

def colors (d : ColoringDefinition) : Except Fault Nat := Word.product d.axisColors

/-- The definition of one axis, which faults where a list is too short. -/
def axis (d : ColoringDefinition) (a : Nat) : Except Fault AxisDefinition := do
  return {
    colors := ← fetch d.axisColors a
    extent := ← fetch d.axisExtents a
    halo := ← fetch d.haloDepths a
    boundary := ← fetch d.boundaryDepths a
    periodic := ← fetch d.periodic a }

/-- Pair up lists with one entry per axis, as far as all of them reach. -/
def zipAxes : List Nat → List Nat → List Nat → List Nat → List Bool → List AxisDefinition
  | c :: cs, e :: es, h :: hs, b :: bs, p :: ps => ⟨c, e, h, b, p⟩ :: zipAxes cs es hs bs ps
  | _, _, _, _, _ => []

/-- The definitions of all axes, as far as all lists reach. -/
def axes (d : ColoringDefinition) : List AxisDefinition :=
  zipAxes d.axisColors d.axisExtents d.haloDepths d.boundaryDepths d.periodic

def checkCount (d : ColoringDefinition) (what : AxisList) (actual : Nat) : Except MeshError Unit :=
  if actual = d.dimension then .ok () else .error (.axisCountMismatch what d.dimension actual)

/-- Check that axis `a` can be split: there are colors, each gets an index, and ghosts reach no
further than the smallest block. -/
def checkAxis (a : Nat) (ax : AxisDefinition) : Except MeshError Unit :=
  if ax.colors = 0 then .error (.invalidColoring (.zeroColors a))
  else if ax.extent < ax.colors then
    .error (.invalidColoring (.tooFewIndices a ax.extent ax.colors))
  else if ax.hasGhosts && ax.halo > ax.extent / ax.colors then
    .error (.invalidColoring (.haloTooDeep a ax.halo (ax.extent / ax.colors)))
  else .ok ()

/-- Check that the number of axes is one that a face mask can describe. -/
def checkDimension (d : ColoringDefinition) : Except MeshError Unit :=
  if d.dimension = 0 ∨ d.dimension > maxDimension then
    .error (.invalidColoring (.dimension d.dimension maxDimension))
  else .ok ()

/-- Check the lengths of the lists, the dimension, and each axis in turn. -/
def validate (d : ColoringDefinition) : Except MeshError Unit := do
  d.checkCount .axisExtents d.axisExtents.length
  d.checkCount .haloDepths d.haloDepths.length
  d.checkCount .boundaryDepths d.boundaryDepths.length
  d.checkCount .periodic d.periodic.length
  d.checkDimension
  d.axes.zipIdx.forM fun (ax, a) => checkAxis a ax

end ColoringDefinition

/-! ## All index spaces -/

/-- The coloring input of every index space of a topology. -/
structure ColoringSpec where
  indexSpaces : List ColoringDefinition
  deriving DecidableEq, Repr, Inhabited

namespace ColoringSpec

def dimension (spec : ColoringSpec) : Nat :=
  match spec.indexSpaces with
  | [] => 0
  | first :: _ => first.dimension

/-- The color grid that all index spaces share. -/
def axisColors (spec : ColoringSpec) : List Nat :=
  match spec.indexSpaces with
  | [] => []
  | first :: _ => first.axisColors

def colors (spec : ColoringSpec) : Except Fault Nat :=
  match spec.indexSpaces with
  | [] => .ok 0
  | first :: _ => first.colors

/-- Check that an index space has as many axes as the first one. -/
def checkSpaceAxes (first d : ColoringDefinition) : Except MeshError Unit :=
  if d.dimension = first.dimension then .ok ()
  else .error (.axisCountMismatch .indexSpaceAxes first.dimension d.dimension)

/-- Check that index space `s` has the color grid of the first one. -/
def checkGrid (first : ColoringDefinition) (s : Nat) (d : ColoringDefinition) :
    Except MeshError Unit :=
  if d.axisColors = first.axisColors then .ok ()
  else .error (.invalidColoring (.gridMismatch s d.axisColors first.axisColors))

/-- Check that index space `s` is valid and shares the color grid of the first one. -/
def checkSpace (first : ColoringDefinition) (s : Nat) (d : ColoringDefinition) :
    Except MeshError Unit := do
  d.validate
  checkSpaceAxes first d
  checkGrid first s d

/-- Check every index space in turn. -/
def validate (spec : ColoringSpec) : Except MeshError Unit :=
  match spec.indexSpaces with
  | [] => .error (.invalidColoring .noIndexSpaces)
  | first :: _ => spec.indexSpaces.zipIdx.forM fun (d, s) => checkSpace first s d

end ColoringSpec

end HaloMesh
