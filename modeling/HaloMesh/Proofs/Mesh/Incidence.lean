-- SUMMARY: One layer of ghosts is enough for a color to store the vertices of its cells and the cells at its vertices.
import HaloMesh.Proofs.Ghost.Zones
import HaloMesh.Proofs.Mesh.Color

/-!
# Cells and their vertices

The cells and the vertices of a uniform mesh are split over the colors each on their own. An axis that
does not wrap around has one vertex more than it has cells, so a block of vertices need not start where
the block of cells with the same position starts. The two starts are never more than one index apart,
so with at least one layer of ghosts a color stores every vertex of the cells that it owns, and every
cell at a vertex that it owns.
-/

namespace HaloMesh

/-! ## Indices of an axis -/

/-- The number `g` stands for index `i` of an axis. Where the axis wraps around, numbers past its ends
count on from the other end. -/
def StandsFor (extent : Nat) (periodic : Bool) (g : Int) (i : Nat) : Prop :=
  if periodic then g % extent = i else g = i

/-- A vertex of a cell of an axis. A cell lies between two vertices, and the last vertex of an axis that
wraps around is its first one. -/
def Incident (extent : Nat) (periodic : Bool) (cell vertex : Nat) : Prop :=
  cell < extent ∧ (vertex = cell ∨ vertex = if periodic then (cell + 1) % extent else cell + 1)

namespace IndexColoring

/-- An index of an axis is among the owned ones of a color. -/
def Owns (ic : IndexColoring) (a i : Nat) : Prop :=
  ∃ slot, Domain.logical.Holds ic a slot ∧ ic.globalId a slot = .ok i

/-- An index of an axis is among the owned ones or the ghosts of a color. -/
def Keeps (ic : IndexColoring) (a extent : Nat) (periodic : Bool) (i : Nat) : Prop :=
  ∃ slot g, (Domain.ghostLow.Holds ic a slot ∨ Domain.logical.Holds ic a slot ∨
    Domain.ghostHigh.Holds ic a slot) ∧ ic.globalId a slot = .ok g ∧ StandsFor extent periodic g i

end IndexColoring

/-! ## Blocks of cells and vertices -/

namespace AxisDefinition

/-- The number lies in the block of a position or in its ghosts. -/
def Covers (ax : AxisDefinition) (c : Nat) (g : Int) : Prop :=
  (ax.offset c : Int) - ax.ghostLow c ≤ g ∧ g < ax.offset c + ax.owned c + ax.ghostHigh c

/-- The axis of the vertices, given that of the cells. -/
def vertices (ax : AxisDefinition) : AxisDefinition :=
  { ax with extent := ax.extent + if ax.periodic then 0 else 1 }

variable {ax : AxisDefinition} {c : Nat}

/-- A layer of ghosts covers the numbers next to a block, as far as the axis has them. -/
theorem Placed.covers (h : ax.Placed c) (hhalo : 1 ≤ ax.halo) {g : Int} (hlow : ax.offset c ≤ g + 1)
    (hhigh : g ≤ ax.offset c + ax.owned c)
    (hinside : ax.periodic = false → 0 ≤ g ∧ g < ax.extent) : ax.Covers c g := by
  constructor
  · unfold ghostLow
    split
    · rename_i htouches
      simp only [touchesLow, Bool.and_eq_true, Bool.not_eq_true', beq_iff_eq] at htouches
      have hoffset := h.offset_eq_zero_iff.mpr htouches.2
      have hpos := (hinside htouches.1).1
      omega
    · omega
  · unfold ghostHigh
    split
    · rename_i htouches
      simp only [touchesHigh, Bool.and_eq_true, Bool.not_eq_true', beq_iff_eq] at htouches
      have hstop := h.stop_eq_extent_iff.mpr htouches.2
      have hlt := (hinside htouches.1).2
      omega
    · omega

/-- A block of vertices starts where the block of cells does, or one index later. -/
theorem offset_vertices (hcolors : 0 < ax.colors) (hc : c ≤ ax.colors) :
    ax.offset c ≤ ax.vertices.offset c ∧ ax.vertices.offset c ≤ ax.offset c + 1 := by
  unfold vertices offset
  split
  · exact ⟨Nat.le_refl _, Nat.le_succ _⟩
  · exact Block.offsetAt_succ_extent hcolors hc

/-- A block of vertices ends where the block of cells does, or one index later. -/
theorem stop_vertices (hc : c < ax.colors) :
    ax.offset c + ax.owned c ≤ ax.vertices.offset c + ax.vertices.owned c ∧
      ax.vertices.offset c + ax.vertices.owned c ≤ ax.offset c + ax.owned c + 1 := by
  have hnext := offset_vertices (Nat.zero_lt_of_lt hc) (Nat.succ_le_of_lt hc)
  unfold offset at hnext
  rwa [Block.offsetAt_succ, Block.offsetAt_succ] at hnext

end AxisDefinition

/-! ## Cells at vertices -/

section
variable {extent cell vertex : Nat} {periodic : Bool}

/-- The vertices of a cell have the numbers of the cell and its successor. -/
theorem Incident.exists_vertex (h : Incident extent periodic cell vertex) :
    ∃ g : Int, (g = cell ∨ g = cell + 1) ∧ StandsFor extent periodic g vertex ∧
      (periodic = false → 0 ≤ g ∧ g < extent + 1) := by
  obtain ⟨hcell, hvertex⟩ := h
  cases periodic with
  | true =>
    rcases hvertex with rfl | rfl
    · exact ⟨_, .inl rfl, Int.emod_eq_of_lt (Int.natCast_nonneg _) (Int.ofNat_lt.mpr hcell), nofun⟩
    · exact ⟨_, .inr rfl, rfl, nofun⟩
  | false =>
    replace hvertex : vertex = cell ∨ vertex = cell + 1 := hvertex
    exact ⟨vertex, by omega, rfl, fun _ => by omega⟩

/-- The cells at a vertex have the numbers of the vertex and its predecessor. -/
theorem Incident.exists_cell (h : Incident extent periodic cell vertex) :
    ∃ g : Int, (g = vertex ∨ g = vertex - 1) ∧ StandsFor extent periodic g cell ∧
      (periodic = false → 0 ≤ g ∧ g < extent) := by
  obtain ⟨hcell, hvertex⟩ := h
  have hmod : (cell : Int) % extent = cell :=
    Int.emod_eq_of_lt (Int.natCast_nonneg _) (Int.ofNat_lt.mpr hcell)
  cases periodic with
  | true =>
    rcases hvertex with rfl | rfl
    · exact ⟨_, .inl rfl, hmod, nofun⟩
    · refine ⟨_, .inr rfl, ?_, nofun⟩
      have hback : (((cell + 1) % extent : Nat) - 1 : Int) % extent = cell % extent := by
        rw [Int.natCast_emod, Int.emod_sub_emod, Int.natCast_add_one, Int.add_sub_cancel]
      exact hback.trans hmod
  | false =>
    replace hvertex : vertex = cell ∨ vertex = cell + 1 := hvertex
    exact ⟨cell, by omega, rfl, fun _ => by omega⟩

end

namespace AxisDefinition

variable {ax : AxisDefinition} {c cell vertex : Nat}

/-- A position covers the vertices of the cells in its block. -/
theorem covers_vertex (hplaced : ax.vertices.Placed c) (hhalo : 1 ≤ ax.halo)
    (h : Incident ax.extent ax.periodic cell vertex) (hlow : ax.offset c ≤ cell)
    (hhigh : cell < ax.offset c + ax.owned c) :
    ∃ g, ax.vertices.Covers c g ∧ StandsFor ax.extent ax.periodic g vertex := by
  obtain ⟨g, hg, hstands, hinside⟩ := h.exists_vertex
  have hlt : c < ax.colors := hplaced.lt
  have hstart := offset_vertices (Nat.zero_lt_of_lt hlt) (Nat.le_of_lt hlt)
  have hstop := stop_vertices hlt
  refine ⟨g, hplaced.covers hhalo (by omega) (by omega) fun hperiodic => ?_, hstands⟩
  replace hperiodic : ax.periodic = false := hperiodic
  simp only [vertices, hperiodic]
  exact hinside hperiodic

/-- A position covers the cells at the vertices in its block. -/
theorem covers_cell (hplaced : ax.Placed c) (hhalo : 1 ≤ ax.halo)
    (h : Incident ax.extent ax.periodic cell vertex) (hlow : ax.vertices.offset c ≤ vertex)
    (hhigh : vertex < ax.vertices.offset c + ax.vertices.owned c) :
    ∃ g, ax.Covers c g ∧ StandsFor ax.extent ax.periodic g cell := by
  obtain ⟨g, hg, hstands, hinside⟩ := h.exists_cell
  have hstart := offset_vertices (Nat.zero_lt_of_lt hplaced.lt) (Nat.le_of_lt hplaced.lt)
  have hstop := stop_vertices hplaced.lt
  exact ⟨g, hplaced.covers hhalo (by omega) (by omega) hinside, hstands⟩

end AxisDefinition

/-! ## What a color stores -/

namespace IndexColoring

variable {ic : IndexColoring} {a c : Nat} {ax : AxisDefinition}

/-- The owned indices of a color are those of its block. -/
theorem Reads.owns_iff (h : ic.Reads a ax c) (hc : ax.HasPosition c) {i : Nat} :
    ic.Owns a i ↔ ax.offset c ≤ i ∧ i < ax.offset c + ax.owned c := by
  have hstop : ax.stop c ≤ ax.slots c := Nat.le_trans (Nat.le_add_right _ _) (Nat.le_add_right _ _)
  have hwidth : ax.stop c = ax.start c + ax.owned c := rfl
  constructor
  · rintro ⟨slot, hslot, hnumber⟩
    obtain ⟨hlow, hhigh⟩ := (h.zone_bounds hc).2.1.mp hslot
    rw [h.globalId_eq hc (Nat.lt_of_lt_of_le hhigh hstop), Except.ok.injEq,
      AxisDefinition.globalAt] at hnumber
    omega
  · rintro ⟨hlow, hhigh⟩
    have hslot : ax.start c ≤ ax.start c + (i - ax.offset c) ∧
        ax.start c + (i - ax.offset c) < ax.stop c := by omega
    refine ⟨_, (h.zone_bounds hc).2.1.mpr hslot, ?_⟩
    rw [h.globalId_eq hc (Nat.lt_of_lt_of_le hslot.2 hstop), Except.ok.injEq, AxisDefinition.globalAt]
    omega

/-- A color has a slot for every number that its position covers. -/
theorem Reads.keeps_of_covers (h : ic.Reads a ax c) (hc : ax.HasPosition c) {extent i : Nat}
    {periodic : Bool} {g : Int} (hcovers : ax.Covers c g) (hstands : StandsFor extent periodic g i) :
    ic.Keeps a extent periodic i := by
  obtain ⟨hlow, hhigh⟩ := hcovers
  obtain ⟨hback, hstay, hahead⟩ :=
    @Reads.zone_bounds ic a c ax h hc (g - ax.offset c + ax.start c).toNat
  -- A face has padding or ghosts, never both.
  have hpadLow : ax.ghostLow c = 0 ∨ ax.padLow c = 0 := by
    unfold AxisDefinition.ghostLow AxisDefinition.padLow
    split <;> simp
  have hpadHigh : ax.ghostHigh c = 0 ∨ ax.padHigh c = 0 := by
    unfold AxisDefinition.ghostHigh AxisDefinition.padHigh
    split <;> simp
  have hstart : ax.start c = ax.ghostLow c + ax.padLow c := rfl
  have hstop : ax.stop c = ax.start c + ax.owned c := rfl
  have hslots : ax.slots c = ax.stop c + ax.padHigh c + ax.ghostHigh c := rfl
  refine ⟨(g - ax.offset c + ax.start c).toNat, g, ?_, ?_, hstands⟩
  · rw [hback, hstay, hahead]
    omega
  · rw [h.globalId_eq hc (by omega), Except.ok.injEq, AxisDefinition.globalAt]
    omega

/-- At one position of both axes, ghosts of cells and vertices bridge the distance of the blocks. -/
theorem Reads.bridges {cells vertices : IndexColoring} (hcells : cells.Reads a ax c)
    (hvertices : vertices.Reads a ax.vertices c) (hc : ax.HasPosition c)
    (hv : ax.vertices.HasPosition c) (hhalo : 1 ≤ ax.halo) {cell vertex : Nat}
    (h : Incident ax.extent ax.periodic cell vertex) :
    (cells.Owns a cell → vertices.Keeps a ax.extent ax.periodic vertex) ∧
      (vertices.Owns a vertex → cells.Keeps a ax.extent ax.periodic cell) := by
  constructor
  · intro howns
    obtain ⟨hlow, hhigh⟩ := (hcells.owns_iff hc).mp howns
    obtain ⟨g, hcovers, hstands⟩ := AxisDefinition.covers_vertex hv.toPlaced hhalo h hlow hhigh
    exact hvertices.keeps_of_covers hv hcovers hstands
  · intro howns
    obtain ⟨hlow, hhigh⟩ := (hvertices.owns_iff hv).mp howns
    obtain ⟨g, hcovers, hstands⟩ := AxisDefinition.covers_cell hc.toPlaced hhalo h hlow hhigh
    exact hcells.keeps_of_covers hc hcovers hstands

end IndexColoring

/-! ## The two spaces of a mesh -/

namespace UniformMesh

variable {m : UniformMesh} {processes : Nat} {spec : ColoringSpec}

theorem checkCount_eq_ok_iff {what : AxisList} {n : Nat} :
    m.checkCount what n = .ok () ↔ n = m.dimension := by
  unfold checkCount
  split <;> simp [*]

theorem length_of_grid {grid : List Nat} (h : m.grid processes = .ok grid) :
    grid.length = m.dimension := by
  unfold UniformMesh.grid at h
  split at h
  · simp only [Checked.bind_eq_ok_iff, Checked.liftM_reported_eq_ok_iff, Checked.pure_eq_ok,
      Except.ok.injEq] at h
    obtain ⟨_, hcount, rfl⟩ := h
    exact checkCount_eq_ok_iff.mp hcount
  · exact length_of_factorColors (Checked.liftM_eq_ok_iff.mp h)

/-- A mesh is colored over the grid that is found for the processes. -/
theorem grid_of_color (h : m.color processes = .ok spec) : m.periodic.length = m.dimension ∧
    ∃ grid cells vertices, m.grid processes = .ok grid ∧ m.space grid false = .ok cells ∧
      m.space grid true = .ok vertices ∧ spec = ⟨[cells, vertices]⟩ := by
  simp only [color, Checked.bind_eq_ok_iff, Checked.liftM_reported_eq_ok_iff,
    Checked.liftM_eq_ok_iff, Checked.pure_eq_ok, Except.ok.injEq] at h
  obtain ⟨_, hperiodic, grid, hgrid, cells, hcells, vertices, hvertices, _, -, rfl⟩ := h
  exact ⟨checkCount_eq_ok_iff.mp hperiodic, grid, cells, vertices, hgrid, hcells, hvertices, rfl⟩

/-- A mesh is colored as a space of cells and a space of vertices over one grid. -/
theorem spaces_of_color (h : m.color processes = .ok spec) : m.periodic.length = m.dimension ∧
    ∃ grid cells vertices, grid.length = m.dimension ∧ m.space grid false = .ok cells ∧
      m.space grid true = .ok vertices ∧ spec = ⟨[cells, vertices]⟩ := by
  obtain ⟨hperiodic, grid, cells, vertices, hgrid, hspaces⟩ := grid_of_color h
  exact ⟨hperiodic, grid, cells, vertices, length_of_grid hgrid, hspaces⟩

/-- The axes of a space take their numbers from the mesh. -/
theorem axis_of_space {grid : List Nat} {vertices : Bool} {d : ColoringDefinition}
    (h : m.space grid vertices = .ok d) {a extent colors : Nat} {periodic : Bool}
    (hextent : m.cells[a]? = some extent) (hperiodic : m.periodic[a]? = some periodic)
    (hcolors : grid[a]? = some colors) : d.axis a =
      .ok ⟨colors, extent + if vertices && !periodic then 1 else 0, m.halo, m.boundary, periodic⟩ := by
  obtain ⟨axes, haxes, hd⟩ := Checked.bind_eq_ok_iff.mp h
  cases hd
  have hzip : ((m.cells.zip m.periodic).zip grid)[a]? = some ((extent, periodic), colors) :=
    List.getElem?_zip_eq_some.mpr ⟨List.getElem?_zip_eq_some.mpr ⟨hextent, hperiodic⟩, hcolors⟩
  obtain ⟨ax, hax, haxis⟩ := Checked.getElem?_of_forall₂ (Checked.mapM_eq_ok_iff.mp haxes) hzip
  simp only [axis, Checked.bind_eq_ok_iff, Checked.pure_eq_ok, Except.ok.injEq] at haxis
  obtain ⟨_, hadd, rfl⟩ := haxis
  rw [ColoringDefinition.axis_ofAxes hax, (Word.add_eq_ok_iff.mp hadd).2]

/-- An axis of the mesh is split as an axis of cells and as the axis of its vertices. -/
theorem exists_axis {grid : List Nat} {cells vertices : ColoringDefinition}
    (hcells : m.space grid false = .ok cells) (hvertices : m.space grid true = .ok vertices)
    {a extent colors : Nat} {periodic : Bool} (hextent : m.cells[a]? = some extent)
    (hperiodic : m.periodic[a]? = some periodic) (hcolors : grid[a]? = some colors) :
    ∃ ax : AxisDefinition, ax.extent = extent ∧ ax.periodic = periodic ∧ ax.halo = m.halo ∧
      cells.axis a = .ok ax ∧ vertices.axis a = .ok ax.vertices := by
  refine ⟨⟨colors, extent, m.halo, m.boundary, periodic⟩, rfl, rfl, rfl, ?_, ?_⟩
  · exact axis_of_space hcells hextent hperiodic hcolors
  · rw [axis_of_space hvertices hextent hperiodic hcolors, AxisDefinition.vertices]
    cases periodic <;> rfl

/-- On axis `a` a color keeps every vertex of the cells that it owns, and every cell at the vertices
that it owns. -/
def Bridged (m : UniformMesh) (cells vertices : IndexColoring) (a : Nat) : Prop :=
  ∃ extent periodic, m.cells[a]? = some extent ∧ m.periodic[a]? = some periodic ∧
    ∀ cell vertex, Incident extent periodic cell vertex →
      (cells.Owns a cell → vertices.Keeps a extent periodic vertex) ∧
        (vertices.Owns a vertex → cells.Keeps a extent periodic cell)

/-- A mesh with a layer of ghosts gives every color the cells and the vertices next to its own. -/
theorem color_bridges (hcolor : m.color processes = .ok spec) (hhalo : 1 ≤ m.halo)
    (hfits : ∀ d ∈ spec.indexSpaces, d.Fits) (color : Nat) :
    ∃ part cells vertices, ColorMeta.of spec color = .ok part ∧
      part.spaces[cellSpace]? = some cells ∧ part.spaces[vertexSpace]? = some vertices ∧
        ∀ a < m.dimension, m.Bridged cells vertices a := by
  have hspec := ColoringSpec.valid_of_validate (m.validate_of_color processes hcolor)
  obtain ⟨hlength, grid, cells, vertices, hgrid, hcells, hvertices, rfl⟩ := spaces_of_color hcolor
  have hmemCells : cells ∈ [cells, vertices] := by simp
  have hmemVertices : vertices ∈ [cells, vertices] := by simp
  have hvalidCells := hspec.space_valid cells hmemCells
  have hvalidVertices := hspec.space_valid vertices hmemVertices
  obtain ⟨icCells, hofCells, hdescCells⟩ :=
    IndexColoring.of_eq_ok hvalidCells (hfits cells hmemCells) color
  obtain ⟨icVertices, hofVertices, hdescVertices⟩ :=
    IndexColoring.of_eq_ok hvalidVertices (hfits vertices hmemVertices) color
  have hpart : ColorMeta.of ⟨[cells, vertices]⟩ color = .ok ⟨color, [icCells, icVertices]⟩ := by
    simp [ColorMeta.of, hofCells, hofVertices]
  refine ⟨_, icCells, icVertices, hpart, rfl, rfl, fun a ha => ?_⟩
  -- The axis of the mesh, and the position of the color on it.
  have hextent := List.getElem?_eq_getElem (l := m.cells) ha
  have hperiodic := List.getElem?_eq_getElem (l := m.periodic) (hlength ▸ ha)
  have hcolors := List.getElem?_eq_getElem (l := grid) (hgrid ▸ ha)
  obtain ⟨ax, hextentEq, hperiodicEq, hhaloEq, haxisCells, haxisVertices⟩ :=
    exists_axis hcells hvertices hextent hperiodic hcolors
  have haxCells := hvalidCells.getElem?_axes haxisCells
  have haxVertices := hvalidVertices.getElem?_axes haxisVertices
  have hpositions := hvalidCells.hasPositions_position (hfits cells hmemCells) color
  have hpositions' := hvalidVertices.hasPositions_position (hfits vertices hmemVertices) color
  rw [hspec.axisColors_eq vertices hmemVertices] at hpositions' hdescVertices
  obtain ⟨c, hc, hposition⟩ := Checked.getElem?_of_forall₂ hpositions haxCells
  refine ⟨_, _, hextent, hperiodic, fun cell vertex h => ?_⟩
  rw [← hextentEq, ← hperiodicEq] at h ⊢
  exact (hdescCells.reads haxCells hc).bridges (hdescVertices.reads haxVertices hc) hposition
    (hpositions'.hasPosition haxVertices hc) (hhaloEq ▸ hhalo) h

/-- Seven cells and eight vertices over three colors, and an axis that wraps around. The last color of
the first axis owns cell 5, and keeps vertex 5 as a ghost. -/
theorem color_bridges_three_by_two :
    let m : UniformMesh := ⟨[7, 5], 1, 2, [false, true], some [3, 2]⟩
    let cells : ColoringDefinition := ⟨[3, 2], [7, 5], [1, 1], [2, 2], [false, true]⟩
    let vertices : ColoringDefinition := ⟨[3, 2], [8, 5], [1, 1], [2, 2], [false, true]⟩
    m.color 6 = .ok ⟨[cells, vertices]⟩ ∧ 1 ≤ m.halo ∧ (∀ d ∈ [cells, vertices], d.Fits) ∧
      ∃ part mine near, ColorMeta.of ⟨[cells, vertices]⟩ 2 = .ok part ∧
        part.spaces[cellSpace]? = some mine ∧ part.spaces[vertexSpace]? = some near ∧
          (∀ a < 2, m.Bridged mine near a) ∧ mine.Owns 0 5 ∧ near.Keeps 0 7 false 5 := by
  intro m cells vertices
  have hcolor : m.color 6 = .ok ⟨[cells, vertices]⟩ := by decide
  have hfits : ∀ d ∈ [cells, vertices], d.Fits := by
    change ∀ d ∈ [cells, vertices], ∀ ax ∈ d.axes, ax.extent + 2 * (ax.halo + ax.boundary) < 2 ^ 63
    decide
  obtain ⟨part, mine, near, hpart, hmine, hnear, hbridged⟩ :=
    color_bridges hcolor (by decide : 1 ≤ m.halo) hfits 2
  have howns : mine.Owns 0 5 := by
    cases hpart
    cases hmine
    exact ⟨1, ⟨_, rfl, by decide, by decide⟩, by decide⟩
  obtain ⟨_, _, hextent, hperiodic, hincident⟩ := hbridged 0 (by decide)
  cases hextent
  cases hperiodic
  have hkeeps := (hincident 5 5 ⟨by decide, .inl rfl⟩).1 howns
  exact ⟨hcolor, by decide, hfits, part, mine, near, hpart, hmine, hnear, hbridged, howns, hkeeps⟩

end UniformMesh

end HaloMesh
