-- SUMMARY: A mesh without a color grid is split over exactly as many colors as there are processes.
import HaloMesh.Proofs.Mesh.Density
import HaloMesh.Proofs.Mesh.Incidence
import HaloMesh.Proofs.Topology.Colors

/-!
# Colors and processes

The prime factors of the number of processes are handed out to the axes one by one, so no process is left
over and none is missing. A uniform mesh that is colored has its cells and its vertices on the color grid
that comes out. On that many ranks no rank finds another number of colors.
-/

namespace HaloMesh

namespace UniformMesh

variable {m : UniformMesh} {processes : Nat} {spec : ColoringSpec} {grid : List Nat}

/-! ## The spaces of a mesh -/

/-- The axis that is split as an axis of the mesh is. -/
theorem of_axis {vertices periodic : Bool} {extent colors : Nat} {ax : AxisDefinition}
    (h : m.axis vertices extent periodic colors = .ok ax) :
    ax.colors = colors ∧ ax.extent < Word.limit ∧ ax.halo = m.halo ∧ ax.boundary = m.boundary := by
  obtain ⟨_, hadd, h⟩ := Checked.bind_eq_ok_iff.mp h
  cases h
  obtain ⟨hlt, rfl⟩ := Word.add_eq_ok_iff.mp hadd
  exact ⟨rfl, hlt, rfl, rfl⟩

/-- A space is split over the grid, and its other numbers are sizes if those of the mesh are. -/
theorem of_space {vertices : Bool} {d : ColoringDefinition} (h : m.space grid vertices = .ok d)
    (hperiodic : m.periodic.length = m.dimension) (hgrid : grid.length = m.dimension) :
    ∃ axes : List AxisDefinition, d = .ofAxes axes ∧ axes.map (·.colors) = grid ∧
      ∀ ax ∈ axes, ax.extent < Word.limit ∧ ax.halo = m.halo ∧ ax.boundary = m.boundary := by
  obtain ⟨axes, haxes, hd⟩ := Checked.bind_eq_ok_iff.mp h
  cases hd
  have haxes := Checked.mapM_eq_ok_iff.mp haxes
  refine ⟨axes, rfl, ?_, fun ax hax => ?_⟩
  · have hcolors : List.Forall₂ Eq (((m.cells.zip m.periodic).zip grid).map Prod.snd)
        (axes.map (·.colors)) := by
      rw [List.forall₂_map_left_iff, List.forall₂_map_right_iff]
      exact haxes.imp fun _ _ haxis => (of_axis haxis).1.symm
    rw [List.forall₂_eq_eq_eq, List.map_snd_zip] at hcolors
    · exact hcolors.symm
    · rw [List.length_zip, hperiodic, hgrid]
      exact Nat.le_of_eq (Nat.min_self _).symm
  · obtain ⟨a, ha⟩ := List.mem_iff_getElem?.mp hax
    obtain ⟨_, -, haxis⟩ := Checked.getElem?_of_forall₂ haxes.flip ha
    exact (of_axis haxis).2

theorem writable_of_space {vertices : Bool} {d : ColoringDefinition}
    (h : m.space grid vertices = .ok d) (hperiodic : m.periodic.length = m.dimension)
    (hgrid : grid.length = m.dimension) (hd : d.Valid) (hcolors : ∀ n ∈ grid, n < Word.limit)
    (hhalo : m.halo < Word.limit) (hboundary : m.boundary < Word.limit) : d.Writable := by
  have hlength : d.axisColors.length < Word.limit :=
    Nat.lt_of_le_of_lt (hd.dimension_eq.trans_le hd.dimension_le) (by decide)
  obtain ⟨axes, rfl, rfl, haxes⟩ := of_space h hperiodic hgrid
  replace hlength : axes.length < Word.limit := by rwa [← List.length_map (·.colors)]
  refine ⟨?_, ?_, ?_, ?_, (List.length_map _).trans_lt hlength⟩
  · exact Codec.words_map hlength fun ax hax => hcolors _ (List.mem_map_of_mem hax)
  · exact Codec.words_map hlength fun ax hax => (haxes ax hax).1
  · exact Codec.words_map hlength fun ax hax => (haxes ax hax).2.1 ▸ hhalo
  · exact Codec.words_map hlength fun ax hax => (haxes ax hax).2.2 ▸ hboundary

theorem axisColors_of_space {vertices : Bool} {d : ColoringDefinition}
    (h : m.space grid vertices = .ok d) (hperiodic : m.periodic.length = m.dimension)
    (hgrid : grid.length = m.dimension) : d.axisColors = grid := by
  obtain ⟨axes, rfl, hcolors, -⟩ := of_space h hperiodic hgrid
  exact hcolors

/-! ## Meshes without a grid -/

/-- A mesh that is colored has cells and vertices on the grid that is found for the processes. -/
theorem axisColors_of_color (h : m.color processes = .ok spec) :
    m.grid processes = .ok spec.axisColors ∧ m.cells ≠ [] ∧
      ∃ cells vertices, spec.indexSpaces = [cells, vertices] ∧ cells.axisColors = spec.axisColors ∧
        vertices.axisColors = spec.axisColors := by
  have hspec := ColoringSpec.valid_of_validate (m.validate_of_color processes h)
  obtain ⟨hperiodic, grid, cells, vertices, hgrid, hcells, hvertices, rfl⟩ := grid_of_color h
  have hlength := length_of_grid hgrid
  have hcellsGrid := axisColors_of_space hcells hperiodic hlength
  refine ⟨hgrid.trans (congrArg Except.ok hcellsGrid.symm), fun hnil => ?_, cells, vertices, rfl, rfl, ?_⟩
  · have hdimension := (hspec.space_valid cells (by simp)).dimension_pos
    rw [← (hspec.space_valid cells (by simp)).dimension_eq, ColoringDefinition.dimension, hcellsGrid,
      hlength, UniformMesh.dimension, hnil] at hdimension
    exact Nat.lt_irrefl 0 hdimension
  · exact (axisColors_of_space hvertices hperiodic hlength).trans hcellsGrid.symm

theorem prod_of_color (hnone : m.axisColors = none) (hpos : 0 < processes)
    (h : m.color processes = .ok spec) : spec.axisColors.prod = processes := by
  obtain ⟨hgrid, haxes, -⟩ := axisColors_of_color h
  rw [UniformMesh.grid, hnone] at hgrid
  exact prod_of_factorColors hpos haxes (Checked.liftM_eq_ok_iff.mp hgrid)

/-- The input of a mesh can be sent if its numbers are sizes. -/
theorem writable_of_color (hcolors : spec.axisColors.prod < Word.limit) (hhalo : m.halo < Word.limit)
    (hboundary : m.boundary < Word.limit) (h : m.color processes = .ok spec) : spec.Writable := by
  have hspec := ColoringSpec.valid_of_validate (m.validate_of_color processes h)
  obtain ⟨hperiodic, grid, cells, vertices, hgrid, hcells, hvertices, rfl⟩ := grid_of_color h
  have hlength := length_of_grid hgrid
  replace hcolors : ∀ n ∈ grid, n < Word.limit := by
    have hcellsGrid := axisColors_of_space hcells hperiodic hlength
    have hpos := hspec.colors_pos
    change cells.axisColors.prod < Word.limit at hcolors
    change ∀ n ∈ cells.axisColors, 0 < n at hpos
    rw [hcellsGrid] at hcolors hpos
    have hprod : 0 < grid.prod := List.prod_pos_iff_forall_pos_nat.mpr hpos
    exact fun n hn => Nat.lt_of_le_of_lt (le_prod_of_mem hprod hn) hcolors
  refine ⟨(by decide : 2 < Word.limit), fun d hd => ?_⟩
  have hdvalid := hspec.space_valid d hd
  rcases List.mem_pair.mp hd with rfl | rfl
  · exact writable_of_space hcells hperiodic hlength hdvalid hcolors hhalo hboundary
  · exact writable_of_space hvertices hperiodic hlength hdvalid hcolors hhalo hboundary

theorem meets_of_color (hnone : m.axisColors = none) (hpos : 0 < processes)
    (hprocesses : processes < Word.limit) (hhalo : m.halo < Word.limit)
    (hboundary : m.boundary < Word.limit) (h : m.color processes = .ok spec) :
    Topology.Meets spec processes := by
  have hprod := prod_of_color hnone hpos h
  exact ⟨m.validate_of_color processes h, hprod, writable_of_color (hprod ▸ hprocesses) hhalo hboundary h⟩

/-- Processes are split over the axes of a mesh without remainder, always for the axis that is longest per
color, so the ranks of a group are as many as the colors. -/
theorem color_fits_processes :
    (∀ n factors, 0 < n → primeFactors n = .ok factors →
      factors.SortedLE ∧ (∀ p ∈ factors, p.Prime) ∧ factors.prod = n) ∧
    (∀ processes extents grid, 0 < processes → extents ≠ [] →
      factorColors processes extents = .ok grid →
      grid.length = extents.length ∧ grid.prod = processes ∧
        ∀ given, HandsOut extents processes.primeFactorsList.reverse
          (List.replicate extents.length 1) given ↔ given = grid) ∧
    (∀ (m : UniformMesh) processes spec, m.axisColors = none → 0 < processes →
      processes < Word.limit → m.halo < Word.limit → m.boundary < Word.limit →
      m.color processes = .ok spec →
      spec.validate = .ok () ∧
      (∃ cells vertices, spec.indexSpaces = [cells, vertices] ∧
        cells.axisColors = vertices.axisColors) ∧
      spec.colors = .ok processes ∧
      ∀ g, Group.Reaches (Group.start ((Member.all processes).map fun me =>
          (Topology.new me m.specialization).run)) g →
        ∀ (rank : Nat) colors size,
          g.programs[rank]? ≠ some (.done (.error (.reported (.colorCountMismatch colors size))))) := by
  refine ⟨?_, ?_, ?_⟩
  · intro n factors hpos h
    cases primeFactors_gives n factors h
    exact ⟨n.primeFactorsList_sorted, fun p hp => Nat.prime_of_mem_primeFactorsList hp,
      Nat.prod_primeFactorsList hpos.ne'⟩
  · intro processes extents grid hpos haxes h
    have hhands := handsOut_of_factorColors haxes h
    refine ⟨length_of_factorColors h, prod_of_factorColors hpos haxes h, fun given => ?_⟩
    exact ⟨hhands.unique, fun heq => heq ▸ hhands⟩
  · intro m processes spec hnone hpos hprocesses hhalo hboundary h
    have hmeets := meets_of_color hnone hpos hprocesses hhalo hboundary h
    have hcolors := (ColoringSpec.valid_of_validate hmeets.valid).colors_eq_ok
      (hmeets.colors_eq.trans_lt hprocesses)
    obtain ⟨-, -, cells, vertices, hspaces, hcellsGrid, hverticesGrid⟩ := axisColors_of_color h
    refine ⟨hmeets.valid, ⟨cells, vertices, hspaces, hcellsGrid.trans hverticesGrid.symm⟩,
      hmeets.colors_eq ▸ hcolors, fun g hreaches rank colors size hended => ?_⟩
    have hmesh : m.specialization.color processes = .ok spec := h
    exact Topology.outcome_of_reaches hmesh hmeets hreaches hended

/-- Six processes over two axes of the same length and one without indices, and over a mesh of eight by six
cells. -/
theorem color_fits_six_processes :
    let m : UniformMesh := ⟨[8, 6], 1, 0, [false, true], none⟩
    let cells : ColoringDefinition := ⟨[3, 2], [8, 6], [1, 1], [0, 0], [false, true]⟩
    let vertices : ColoringDefinition := ⟨[3, 2], [9, 6], [1, 1], [0, 0], [false, true]⟩
    (primeFactors 12 = .ok [2, 2, 3] ∧ [2, 2, 3].prod = 12) ∧
      (factorColors 6 [6, 6, 0] = .ok [3, 2, 1] ∧
        HandsOut [6, 6, 0] (Nat.primeFactorsList 6).reverse [1, 1, 1] [3, 2, 1]) ∧
      m.color 6 = .ok ⟨[cells, vertices]⟩ ∧
      (⟨[cells, vertices]⟩ : ColoringSpec).colors = .ok 6 ∧
      ∀ g, Group.Reaches (Group.start ((Member.all 6).map fun me =>
          (Topology.new me m.specialization).run)) g →
        g.programs[1]? ≠ some (.done (.error (.reported (.colorCountMismatch 6 6)))) := by
  intro m cells vertices
  have hfactors : primeFactors 12 = .ok [2, 2, 3] := by cbv
  have hgrid : factorColors 6 [6, 6, 0] = .ok [3, 2, 1] := by cbv
  have hcolor : m.color 6 = .ok ⟨[cells, vertices]⟩ := by cbv
  obtain ⟨-, -, hprod⟩ := color_fits_processes.1 12 [2, 2, 3] (by decide) hfactors
  obtain ⟨-, -, hhands⟩ := color_fits_processes.2.1 6 [6, 6, 0] [3, 2, 1] (by decide) (by decide) hgrid
  obtain ⟨-, -, hcolors, hgroup⟩ := color_fits_processes.2.2 m 6 ⟨[cells, vertices]⟩ rfl (by decide)
    (by decide) (by decide) (by decide) hcolor
  exact ⟨⟨hfactors, hprod⟩, ⟨hgrid, (hhands [3, 2, 1]).mpr rfl⟩, hcolor, hcolors,
    fun g hreaches => hgroup g hreaches 1 6 6⟩

end UniformMesh

end HaloMesh
