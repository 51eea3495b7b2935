-- SUMMARY: The copies of all slabs of a color: no ghost slot is filled twice.
import HaloMesh.Proofs.Ghost.Slab

/-!
# Copies in all directions

The runs of a color are the rows of the slabs of all directions, merged where they adjoin. Element by
element they are the cells of the slabs. A ghost slot is a cell of one slab only, that of the
direction given by the zones of its coordinates.
-/

namespace HaloMesh

namespace Ghost

/-- The rows of all slabs. -/
def rowsAt (axes : List AxisDefinition) (position : List Nat) : List Run :=
  (Direction.all axes.length).flatMap (Slab.rows axes position)

/-- The runs of a position: the rows of all slabs, merged where they adjoin. -/
def runsAt (axes : List AxisDefinition) (position : List Nat) : List Run :=
  (Run.joinAll (rowsAt axes position)).reverse

/-- The copies of all slabs. -/
def fillsAt (axes : List AxisDefinition) (position : List Nat) : List Fill :=
  (Direction.all axes.length).flatMap fun direction =>
    (Slab.cells axes position direction).map (Slab.fillOf axes position direction)

variable {axes : List AxisDefinition} {position : List Nat}

theorem flatMap_fills_rowsAt (haxes : axes ≠ []) (hlength : axes.length = position.length) :
    (rowsAt axes position).flatMap Run.fills = fillsAt axes position := by
  rw [rowsAt, fillsAt, List.flatMap_assoc]
  refine List.flatMap_congr fun direction hdirection => ?_
  exact Slab.flatMap_fills_rows haxes hlength (Direction.mem_all.mp hdirection).1

theorem flatMap_fills_runsAt (haxes : axes ≠ []) (hlength : axes.length = position.length) :
    (runsAt axes position).flatMap Run.fills = fillsAt axes position := by
  rw [runsAt, Run.fills_joinAll, flatMap_fills_rowsAt haxes hlength]

theorem mem_fillsAt (hlength : axes.length = position.length) {fill : Fill} :
    fill ∈ fillsAt axes position ↔ ∃ direction ∈ Direction.all axes.length, ∃ xs ys,
      Slab.Copies axes position direction xs ys ∧
        fill = Slab.fillOf axes position direction (xs, ys) := by
  simp only [fillsAt, List.mem_flatMap, List.mem_map]
  refine exists_congr fun direction => and_congr_right fun hdirection => ?_
  have hmem := (Direction.mem_all.mp hdirection).1
  constructor
  · rintro ⟨⟨xs, ys⟩, hcell, rfl⟩
    exact ⟨xs, ys, (Slab.mem_cells hlength hmem).mp hcell, rfl⟩
  · rintro ⟨xs, ys, hcopies, rfl⟩
    exact ⟨(xs, ys), (Slab.mem_cells hlength hmem).mpr hcopies, rfl⟩

theorem length_pos_of_mem_runsAt (haxes : axes ≠ []) (hlength : axes.length = position.length)
    {r : Run} (hr : r ∈ runsAt axes position) : 0 < r.length := by
  refine Run.forall_mem_joinAll (P := fun r => 0 < r.length) ?_ ?_ r (List.mem_reverse.mp hr)
  · intro r hr
    obtain ⟨direction, hdirection, hr⟩ := List.mem_flatMap.mp hr
    exact Slab.length_pos_of_mem_rows haxes hlength (Direction.mem_all.mp hdirection).1 hr
  · exact fun r next hr _ => Nat.add_pos_left hr next.length

/-- No slot is filled twice, neither in one direction nor in two. -/
theorem nodup_dest_fillsAt (hlength : axes.length = position.length) :
    ((fillsAt axes position).map (·.dest)).Nodup := by
  have hcells : ((Direction.all axes.length).flatMap fun direction =>
      (Slab.cells axes position direction).map Prod.fst).Nodup := by
    rw [List.nodup_flatMap]
    refine ⟨fun direction _ => Slab.nodup_map_fst_cells axes position direction, ?_⟩
    refine (Direction.nodup_all _).pairwise_of_forall_ne ?_
    intro direction hdirection other hother hne xs hxs hxs'
    obtain ⟨⟨_, ys⟩, hcell, rfl⟩ := List.mem_map.mp hxs
    obtain ⟨⟨_, ys'⟩, hcell', rfl⟩ := List.mem_map.mp hxs'
    rw [Slab.mem_cells hlength (Direction.mem_all.mp hdirection).1] at hcell
    rw [Slab.mem_cells hlength (Direction.mem_all.mp hother).1] at hcell'
    exact hne (hcell.direction_unique hcell')
  have hdest : (fillsAt axes position).map (·.dest) = ((Direction.all axes.length).flatMap
      fun direction => (Slab.cells axes position direction).map Prod.fst).map
        (Grid.number (Slab.extents axes position)) := by
    simp only [fillsAt, List.map_flatMap, List.map_map]
    rfl
  rw [hdest]
  refine hcells.map_on ?_
  have hwithin : ∀ xs ∈ (Direction.all axes.length).flatMap fun direction =>
      (Slab.cells axes position direction).map Prod.fst,
      Grid.Within (Slab.extents axes position) xs := by
    intro xs hxs
    obtain ⟨direction, hdirection, hxs⟩ := List.mem_flatMap.mp hxs
    obtain ⟨⟨_, ys⟩, hcell, rfl⟩ := List.mem_map.mp hxs
    exact ((Slab.mem_cells hlength (Direction.mem_all.mp hdirection).1).mp hcell).within
  exact fun xs hxs ys hys => Grid.number_inj (hwithin xs hxs) (hwithin ys hys)

end Ghost

end HaloMesh
