-- SUMMARY: The descriptions of the records of a mesh: coloring inputs, colorings, runs, fields and mesh descriptions.
import HaloMesh.Collective.Packer
import HaloMesh.CopyPlan.Verify
import HaloMesh.Document.Form
import HaloMesh.Field.Info
import HaloMesh.Mesh.Basic
import HaloMesh.Privilege
import HaloMesh.Topology.Domain

/-!
# Descriptions of records

A structure is described by a record with its fields under their names, a constant by its name. A
mesh description names its kind, so it can be read back, unlike its binary layout.
-/

namespace HaloMesh

def AxisDefinition.form : Form AxisDefinition :=
  ((Fields.one "colors" .size).and ((Fields.one "extent" .size).and ((Fields.one "halo" .size).and
    ((Fields.one "boundary" .size).and (.one "periodic" .truth)))) |>.iso
    (fun (colors, extent, halo, boundary, periodic) => ⟨colors, extent, halo, boundary, periodic⟩)
    fun ax => (ax.colors, ax.extent, ax.halo, ax.boundary, ax.periodic)).form

def ColoringDefinition.form : Form ColoringDefinition :=
  let sizes := Form.size.list
  ((Fields.one "axis_colors" sizes).and ((Fields.one "axis_extents" sizes).and
    ((Fields.one "halo_depths" sizes).and ((Fields.one "boundary_depths" sizes).and
      (.one "periodic" Form.truth.list)))) |>.iso
    (fun (colors, extents, halos, boundaries, periodic) =>
      ⟨colors, extents, halos, boundaries, periodic⟩)
    fun d => (d.axisColors, d.axisExtents, d.haloDepths, d.boundaryDepths, d.periodic)).form

def ColoringSpec.form : Form ColoringSpec :=
  ((Fields.one "index_spaces" ColoringDefinition.form.list).iso .mk (·.indexSpaces)).form

def Hypercube.form : Form Hypercube :=
  ((Fields.one "low" Form.coordinate.list).and (.one "high" Form.coordinate.list) |>.iso
    (fun (low, high) => ⟨low, high⟩) fun box => (box.low, box.high)).form

def IndexColoring.form : Form IndexColoring :=
  let sizes := Form.size.list
  ((Fields.one "global" sizes).and ((Fields.one "offset" sizes).and ((Fields.one "extents" sizes).and
    ((Fields.one "logical" Hypercube.form).and ((Fields.one "extended" Hypercube.form).and
      (.one "faces" (.below UInt32.size)))))) |>.iso
    (fun (global, offset, extents, logical, extended, faces) =>
      ⟨global, offset, extents, logical, extended, faces⟩)
    fun ic => (ic.global, ic.offset, ic.extents, ic.logical, ic.extended, ic.faces)).form

def ColorMeta.form : Form ColorMeta :=
  ((Fields.one "color" .size).and (.one "spaces" IndexColoring.form.list) |>.iso
    (fun (color, spaces) => ⟨color, spaces⟩) fun m => (m.color, m.spaces)).form

def Coloring.form : Form Coloring :=
  ((Fields.one "spec" ColoringSpec.form).and ((Fields.one "colors" .size).and
    (.one "idx_colorings" IndexColoring.form.list.list)) |>.iso
    (fun (spec, colors, parts) => ⟨spec, colors, parts⟩) fun c => (c.spec, c.colors, c.parts)).form

def Run.form : Form Run :=
  ((Fields.one "dest" .size).and ((Fields.one "len" .size).and ((Fields.one "source" .size).and
    (.one "src" .size))) |>.iso
    (fun (dest, length, source, src) => ⟨dest, length, source, src⟩)
    fun r => (r.dest, r.length, r.source, r.src)).form

def Summary.form : Form Summary :=
  ((Fields.one "runs" .size).and (.one "elements" .size) |>.iso
    (fun (runs, elements) => ⟨runs, elements⟩) fun s => (s.runs, s.elements)).form

def FieldInfo.form : Form FieldInfo :=
  ((Fields.one "fid" .size).and ((Fields.one "index_space" .size).and (.one "type_size" .size))
    |>.iso (fun (field, indexSpace, typeSize) => ⟨field, indexSpace, typeSize⟩)
    fun info => (info.field, info.indexSpace, info.typeSize)).form

def FieldKey.form : Form FieldKey :=
  Form.size.iso (fun n => ⟨UInt64.ofNat n⟩) fun key => key.raw.toNat

def Domain.form : Form Domain := .named Domain.name Domain.every

def AxisList.form : Form AxisList :=
  .named AxisList.name
    [.axisExtents, .haloDepths, .boundaryDepths, .periodic, .axisColors, .indexSpaceAxes]

def Privilege.form : Form Privilege := Form.text.filterMap Privilege.ofName? Privilege.name

def UniformMesh.fields : Fields UniformMesh :=
  (Fields.one "cells" Form.size.list).and ((Fields.one "halo" .size).and
    ((Fields.one "boundary" .size).and ((Fields.one "periodic" Form.truth.list).and
      (.optional "axis_colors" Form.size.list)))) |>.iso
    (fun (cells, halo, boundary, periodic, axisColors) =>
      ⟨cells, halo, boundary, periodic, axisColors⟩)
    fun m => (m.cells, m.halo, m.boundary, m.periodic, m.axisColors)

def UniformMesh.form : Form UniformMesh := UniformMesh.fields.form

def ExplicitMesh.fields : Fields ExplicitMesh :=
  (Fields.one "spec" ColoringSpec.form).iso .mk (·.spec)

/-- The description of a mesh names its kind beside its fields. -/
def Mesh.form : Form Mesh where
  describe
    | .uniform mesh => .record (("kind", .text "uniform") :: UniformMesh.fields.describe mesh)
    | .explicit mesh => .record (("kind", .text "explicit") :: ExplicitMesh.fields.describe mesh)
  read? d := do
    match ← Form.text.read? (← d.field? "kind") with
    | "uniform" => return .uniform (← UniformMesh.fields.read? d)
    | "explicit" => return .explicit (← ExplicitMesh.fields.read? d)
    | _ => none

/-- An item is a text, a list of numbers, or a record with the reason why it refuses to be packed. -/
def Item.form : Form Item where
  describe
    | .text s => .text s
    | .numbers ns => Form.size.list.describe ns
    | .refusing reason => .record [("fail", .text reason)]
  read?
    | .text s => some (.text s)
    | .list ns => do return .numbers (← Form.size.list.read? (.list ns))
    | d => do return .refusing (← Form.text.read? (← d.field? "fail"))

end HaloMesh
