-- SUMMARY: The binary layout of the records of a mesh: coloring inputs, colorings, runs, fields and mesh descriptions.
import HaloMesh.Codec.Basic
import HaloMesh.Coloring.Basic
import HaloMesh.CopyPlan.Verify
import HaloMesh.Field.Info
import HaloMesh.Mesh.Basic

/-!
# Record layouts

Every record is written field by field, in the order of its fields. A mesh description is written
behind the name of its kind, and cannot be read back.
-/

namespace HaloMesh

def AxisDefinition.codec : Codec AxisDefinition :=
  (Codec.word.pair (Codec.word.pair (Codec.word.pair (Codec.word.pair .bool)))).iso
    (fun (colors, extent, halo, boundary, periodic) => ⟨colors, extent, halo, boundary, periodic⟩)
    fun ax => (ax.colors, ax.extent, ax.halo, ax.boundary, ax.periodic)

def ColoringDefinition.codec : Codec ColoringDefinition :=
  let words := Codec.list .word
  (words.pair (words.pair (words.pair (words.pair (.list .bool))))).iso
    (fun (colors, extents, halos, boundaries, periodic) =>
      ⟨colors, extents, halos, boundaries, periodic⟩)
    fun d => (d.axisColors, d.axisExtents, d.haloDepths, d.boundaryDepths, d.periodic)

def ColoringSpec.codec : Codec ColoringSpec :=
  (Codec.list ColoringDefinition.codec).iso .mk (·.indexSpaces)

def Hypercube.codec : Codec Hypercube :=
  ((Codec.list .signed).pair (.list .signed)).iso (fun (low, high) => ⟨low, high⟩) fun box =>
    (box.low, box.high)

def IndexColoring.codec : Codec IndexColoring :=
  let words := Codec.list .word
  (words.pair (words.pair (words.pair (Hypercube.codec.pair (Hypercube.codec.pair .word32))))).iso
    (fun (global, offset, extents, logical, extended, faces) =>
      ⟨global, offset, extents, logical, extended, faces⟩)
    fun ic => (ic.global, ic.offset, ic.extents, ic.logical, ic.extended, ic.faces)

def ColorMeta.codec : Codec ColorMeta :=
  (Codec.word.pair (.list IndexColoring.codec)).iso (fun (color, spaces) => ⟨color, spaces⟩)
    fun m => (m.color, m.spaces)

def Coloring.codec : Codec Coloring :=
  (ColoringSpec.codec.pair (Codec.word.pair (.list (.list IndexColoring.codec)))).iso
    (fun (spec, colors, parts) => ⟨spec, colors, parts⟩) fun c => (c.spec, c.colors, c.parts)

def Run.codec : Codec Run :=
  (Codec.word.pair (Codec.word.pair (Codec.word.pair .word))).iso
    (fun (dest, length, source, src) => ⟨dest, length, source, src⟩)
    fun r => (r.dest, r.length, r.source, r.src)

def FieldInfo.codec : Codec FieldInfo :=
  (Codec.word.pair (Codec.word.pair .word)).iso
    (fun (field, indexSpace, typeSize) => ⟨field, indexSpace, typeSize⟩)
    fun info => (info.field, info.indexSpace, info.typeSize)

def FieldKey.codec : Codec FieldKey :=
  Codec.word.iso (fun n => ⟨UInt64.ofNat n⟩) fun key => key.raw.toNat

def UniformMesh.codec : Codec UniformMesh :=
  let words := Codec.list .word
  (words.pair (Codec.word.pair (Codec.word.pair ((Codec.list .bool).pair (.option words))))).iso
    (fun (cells, halo, boundary, periodic, axisColors) =>
      ⟨cells, halo, boundary, periodic, axisColors⟩)
    fun m => (m.cells, m.halo, m.boundary, m.periodic, m.axisColors)

def Mesh.codec : Codec Mesh where
  encode
    | .uniform mesh => Codec.text.encode "uniform" ++ UniformMesh.codec.encode mesh
    | .explicit mesh => Codec.text.encode "explicit" ++ ColoringSpec.codec.encode mesh.spec
  size
    | .uniform mesh => Codec.text.size "uniform" + UniformMesh.codec.size mesh
    | .explicit mesh => Codec.text.size "explicit" + ColoringSpec.codec.size mesh.spec
  decode _ := .error .selfDescribing

end HaloMesh
