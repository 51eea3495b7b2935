-- SUMMARY: Mesh descriptions that yield a coloring input: uniform meshes of cells and vertices, and explicit ones.
import HaloMesh.Coloring.Definition
import HaloMesh.Mesh.Factor

/-!
# Meshes

A `UniformMesh` has an index space of cells and one of vertices. An axis of `n` cells has `n + 1`
vertices, or `n` if it is periodic, since its last vertex is its first one.
-/

namespace HaloMesh

/-- What a topology is built from. -/
structure Specialization where
  indexSpaces : Nat
  dimension : Nat
  color : Nat → Except Failure ColoringSpec

/-- A regular mesh of cells and vertices. -/
structure UniformMesh where
  cells : List Nat
  halo : Nat
  boundary : Nat
  periodic : List Bool
  /-- The color grid, found from the number of processes if it is not given. -/
  axisColors : Option (List Nat)
  deriving DecidableEq, Repr, Inhabited

namespace UniformMesh

abbrev cellSpace : Nat := 0

abbrev vertexSpace : Nat := 1

/-- A mesh with one ghost layer, no padding and no periodic axis. -/
def ofCells (cells : List Nat) : UniformMesh where
  cells
  halo := 1
  boundary := 0
  periodic := cells.map fun _ => false
  axisColors := none

def dimension (m : UniformMesh) : Nat := m.cells.length

def axis (m : UniformMesh) (vertices : Bool) (cells : Nat) (periodic : Bool) (colors : Nat) :
    Except Fault AxisDefinition := do
  let extent ← Word.add cells (if vertices && !periodic then 1 else 0)
  return { colors, extent, halo := m.halo, boundary := m.boundary, periodic }

/-- The index space of the cells or the vertices, split over a color grid. -/
def space (m : UniformMesh) (axisColors : List Nat) (vertices : Bool) :
    Except Fault ColoringDefinition := do
  let axes ← ((m.cells.zip m.periodic).zip axisColors).mapM fun ((cells, periodic), colors) =>
    m.axis vertices cells periodic colors
  return .ofAxes axes

def checkCount (m : UniformMesh) (what : AxisList) (actual : Nat) : Except MeshError Unit :=
  if actual = m.dimension then .ok () else .error (.axisCountMismatch what m.dimension actual)

def grid (m : UniformMesh) (processes : Nat) : Except Failure (List Nat) :=
  match m.axisColors with
  | some colors => do
    m.checkCount .axisColors colors.length
    return colors
  | none => factorColors processes m.cells

def color (m : UniformMesh) (processes : Nat) : Except Failure ColoringSpec := do
  m.checkCount .periodic m.periodic.length
  let grid ← m.grid processes
  let cells ← m.space grid false
  let vertices ← m.space grid true
  let spec : ColoringSpec := ⟨[cells, vertices]⟩
  spec.validate
  return spec

def specialization (m : UniformMesh) : Specialization where
  indexSpaces := 2
  dimension := m.dimension
  color := m.color

end UniformMesh

/-- A mesh given by its coloring input. -/
structure ExplicitMesh where
  spec : ColoringSpec
  deriving DecidableEq, Repr, Inhabited

namespace ExplicitMesh

def color (m : ExplicitMesh) : Except Failure ColoringSpec := do
  m.spec.validate
  return m.spec

def specialization (m : ExplicitMesh) : Specialization where
  indexSpaces := m.spec.indexSpaces.length
  dimension := m.spec.dimension
  color _ := m.color

end ExplicitMesh

inductive Mesh where
  | uniform (mesh : UniformMesh)
  | explicit (mesh : ExplicitMesh)
  deriving DecidableEq, Repr, Inhabited

def Mesh.specialization : Mesh → Specialization
  | .uniform mesh => mesh.specialization
  | .explicit mesh => mesh.specialization

end HaloMesh
