-- SUMMARY: The runs of a color of a valid definition: where they come from, where they end, and who takes them.
import HaloMesh.Proofs.CopyPlan.Table
import HaloMesh.Proofs.Ghost.Fills
import Mathlib.Algebra.Order.BigOperators.Group.List
import Mathlib.Algebra.Order.Group.Nat
import Mathlib.Data.List.Perm.Subperm

/-!
# The runs of a color

The runs of a color follow from the definition of the index space and from the position of the color
alone. Each comes from a neighbor, lies in the storage of both colors, and shares no slot with
another. A color that takes a run from another lies one step away from it, so the other finds it
among its own neighbors by the opposite step.
-/

namespace HaloMesh

namespace Run

theorem totalLength_eq_sum (runs : List Run) :
    totalLength runs = (runs.map (·.length)).sum := by
  rw [totalLength, List.sum_eq_foldr, List.foldr_map]

theorem length_flatMap_fills (runs : List Run) : (runs.flatMap fills).length = totalLength runs := by
  rw [List.length_flatMap, totalLength_eq_sum]
  exact congrArg List.sum (List.map_congr_left fun r _ => by simp [fills])

/-- Some of the runs are no longer than all of them. -/
theorem totalLength_filter_le (p : Run → Bool) (runs : List Run) :
    totalLength (runs.filter p) ≤ totalLength runs := by
  rw [totalLength_eq_sum, totalLength_eq_sum]
  exact (List.filter_sublist.map _).sum_le_sum fun _ _ => Nat.zero_le _

theorem length_le_totalLength {runs : List Run} (h : ∀ r ∈ runs, 0 < r.length) :
    runs.length ≤ totalLength runs := by
  rw [totalLength_eq_sum, ← List.length_map (·.length)]
  refine List.length_le_sum_of_one_le _ fun n hn => ?_
  obtain ⟨r, hr, rfl⟩ := List.mem_map.mp hn
  exact h r hr

/-- The ghost slots of a run. -/
def dests (r : Run) : List Nat := (List.range r.length).map (r.dest + ·)

theorem map_dest_fills (r : Run) : r.fills.map (·.dest) = r.dests := by
  rw [fills, List.map_map]
  rfl

theorem mem_dests {r : Run} {slot : Nat} :
    slot ∈ r.dests ↔ r.dest ≤ slot ∧ slot < r.dest + r.length := by
  rw [dests, List.mem_map]
  constructor
  · rintro ⟨i, hi, rfl⟩
    exact ⟨Nat.le_add_right _ _, Nat.add_lt_add_left (List.mem_range.mp hi) _⟩
  · rintro ⟨hlow, hhigh⟩
    exact ⟨slot - r.dest, List.mem_range.mpr (by omega), Nat.add_sub_cancel' hlow⟩

theorem dest_mem_dests {r : Run} {fill : Fill} (hfill : fill ∈ r.fills) : fill.dest ∈ r.dests := by
  rw [← map_dest_fills]
  exact List.mem_map_of_mem hfill

theorem source_of_mem_fills {r : Run} {fill : Fill} (hfill : fill ∈ r.fills) :
    fill.source = r.source := by
  obtain ⟨i, -, rfl⟩ := List.mem_map.mp hfill
  rfl

/-- Two runs fill no common slot. -/
def Apart (r s : Run) : Prop := r.dest + r.length ≤ s.dest ∨ s.dest + s.length ≤ r.dest

theorem Apart.symm {r s : Run} (h : r.Apart s) : s.Apart r := Or.symm h

end Run

namespace Ghost

/-- The runs of a color of an index space. -/
def runsOf (d : ColoringDefinition) (color : Nat) : List Run :=
  runsAt d.axes (Grid.position d.axisColors color)

/-- The colors one step away from a color. -/
def neighborsOf (d : ColoringDefinition) (color : Nat) : List Nat :=
  ordered ((Direction.all d.axes.length).map
    (Slab.source d.axes (Grid.position d.axisColors color)))

/-- The number of slots of a color. -/
def slotsOf (d : ColoringDefinition) (color : Nat) : Nat :=
  (Slab.extents d.axes (Grid.position d.axisColors color)).prod

variable {d : ColoringDefinition} {color : Nat}

theorem length_position (hd : d.Valid) (color : Nat) :
    d.axes.length = (Grid.position d.axisColors color).length :=
  (hd.arePlaced_position color).length_eq

/-! ## Neighbors -/

/-- The number of the neighboring position is that of a color. -/
theorem source_of_direction (hd : d.Valid) {position : List Nat}
    (hposition : Grid.Within d.axisColors position) {direction : Direction}
    (hdirection : direction.length = d.axes.length) :
    Slab.source d.axes position direction < d.axisColors.prod ∧
      Grid.position d.axisColors (Slab.source d.axes position direction) =
        Slab.sourceAt d.axes position direction := by
  have hlength : direction.length = d.axisColors.length := by
    rw [hdirection, hd.axisColors_eq, List.length_map]
  have hwithin := Direction.within_target hposition hlength
  rw [Slab.source, Slab.sourceAt, ← hd.axisColors_eq]
  exact ⟨Grid.number_lt_prod hwithin, Grid.position_number hwithin⟩

/-- The opposite direction leads back to the color. -/
theorem source_opposite (hd : d.Valid) (hcolor : color < d.axisColors.prod) {direction : Direction}
    (hdirection : direction.length = d.axes.length) :
    Slab.source d.axes (Grid.position d.axisColors
      (Slab.source d.axes (Grid.position d.axisColors color) direction)) direction.opposite =
        color := by
  have hwithin := Grid.within_position hd.colors_pos color
  have hlength : direction.length = d.axisColors.length := by
    rw [hdirection, hd.axisColors_eq, List.length_map]
  rw [(source_of_direction hd hwithin hdirection).2, Slab.source, Slab.sourceAt, Slab.sourceAt,
    ← hd.axisColors_eq, Direction.target_opposite hwithin hlength]
  exact Grid.number_position hcolor

theorem lt_of_mem_neighborsOf (hd : d.Valid) {dest : Nat} (hdest : dest ∈ neighborsOf d color) :
    dest < d.axisColors.prod := by
  rw [neighborsOf, mem_ordered, List.mem_map] at hdest
  obtain ⟨direction, hdirection, rfl⟩ := hdest
  exact (source_of_direction hd (Grid.within_position hd.colors_pos color)
    (Direction.mem_all.mp hdirection).1).1

/-! ## Runs -/

theorem length_pos_of_mem_runsOf (hd : d.Valid) {r : Run} (hr : r ∈ runsOf d color) : 0 < r.length :=
  length_pos_of_mem_runsAt (List.ne_nil_of_length_pos hd.dimension_pos) (length_position hd color) hr

theorem flatMap_fills_runsOf (hd : d.Valid) (color : Nat) :
    (runsOf d color).flatMap Run.fills = fillsAt d.axes (Grid.position d.axisColors color) :=
  flatMap_fills_runsAt (List.ne_nil_of_length_pos hd.dimension_pos) (length_position hd color)

/-- Every run comes from the neighbor in some direction. -/
theorem exists_direction_of_mem_runsOf (hd : d.Valid) {r : Run} (hr : r ∈ runsOf d color) :
    ∃ direction ∈ Direction.all d.axes.length,
      r.source = Slab.source d.axes (Grid.position d.axisColors color) direction := by
  have hfill : ⟨r.dest + 0, r.source, r.src + 0⟩ ∈ (runsOf d color).flatMap Run.fills :=
    List.mem_flatMap.mpr ⟨r, hr, List.mem_map.mpr
      ⟨0, List.mem_range.mpr (length_pos_of_mem_runsOf hd hr), rfl⟩⟩
  rw [flatMap_fills_runsOf hd, mem_fillsAt (length_position hd color)] at hfill
  obtain ⟨direction, hdirection, xs, ys, -, heq⟩ := hfill
  exact ⟨direction, hdirection, congrArg Fill.source heq⟩

theorem source_lt_of_mem_runsOf (hd : d.Valid) {r : Run} (hr : r ∈ runsOf d color) :
    r.source < d.axisColors.prod := by
  obtain ⟨direction, hdirection, heq⟩ := exists_direction_of_mem_runsOf hd hr
  rw [heq]
  exact (source_of_direction hd (Grid.within_position hd.colors_pos color)
    (Direction.mem_all.mp hdirection).1).1

/-- Both ends of a run lie in storage. -/
theorem bounds_of_mem_runsOf (hd : d.Valid) {r : Run} (hr : r ∈ runsOf d color) :
    r.dest + r.length ≤ slotsOf d color ∧ r.src + r.length ≤ slotsOf d r.source := by
  refine Run.stop_le_of_fills (length_pos_of_mem_runsOf hd hr) fun fill hfill => ?_
  have hfillSource : fill.source = r.source := by
    obtain ⟨i, _, rfl⟩ := List.mem_map.mp hfill
    rfl
  have hmem : fill ∈ (runsOf d color).flatMap Run.fills := List.mem_flatMap.mpr ⟨r, hr, hfill⟩
  rw [flatMap_fills_runsOf hd, mem_fillsAt (length_position hd color)] at hmem
  obtain ⟨direction, hdirection, xs, ys, hcopies, rfl⟩ := hmem
  have hsource := (source_of_direction hd (Grid.within_position hd.colors_pos color)
    hcopies.length_eq).2
  rw [← hfillSource, slotsOf, slotsOf, Slab.fillOf, hsource]
  exact ⟨Grid.number_lt_prod hcopies.within,
    Grid.number_lt_prod (hcopies.within_src (hd.arePlaced_position color))⟩

/-- No two runs of a color fill a common slot. -/
theorem pairwise_runsOf (hd : d.Valid) (color : Nat) : (runsOf d color).Pairwise Run.Apart := by
  have hnodup := nodup_dest_fillsAt (length_position hd color)
  rw [← flatMap_fills_runsOf hd, List.map_flatMap, List.nodup_flatMap] at hnodup
  refine hnodup.2.imp_of_mem fun {r s} hr hs hdisjoint => ?_
  have hrpos := length_pos_of_mem_runsOf hd hr
  have hspos := length_pos_of_mem_runsOf hd hs
  have hmem : ∀ (r : Run) (slot : Nat), r.dest ≤ slot → slot < r.dest + r.length →
      slot ∈ r.fills.map (·.dest) := fun r slot hlow hhigh =>
    r.map_dest_fills ▸ Run.mem_dests.mpr ⟨hlow, hhigh⟩
  -- Otherwise the later of the two starts is a common slot.
  rcases Nat.lt_or_ge s.dest (r.dest + r.length) with hlt | hge
  · rcases Nat.lt_or_ge r.dest (s.dest + s.length) with hlt' | hge
    · refine absurd (hmem s (max r.dest s.dest) ?_ ?_)
        (hdisjoint (hmem r (max r.dest s.dest) ?_ ?_))
      all_goals omega
    · exact .inr hge
  · exact .inl hge

/-- A value is taken from a slot that its color does not fill. -/
theorem src_not_mem_dests (hd : d.Valid) {fill : Fill}
    (hfill : fill ∈ fillsAt d.axes (Grid.position d.axisColors color)) :
    fill.src ∉ (fillsAt d.axes (Grid.position d.axisColors fill.source)).map (·.dest) := by
  obtain ⟨direction, -, xs, ys, hcopies, rfl⟩ := (mem_fillsAt (length_position hd color)).mp hfill
  obtain ⟨-, hposition⟩ := source_of_direction hd (Grid.within_position hd.colors_pos color)
    hcopies.length_eq
  intro hmem
  obtain ⟨other, hother, hslot⟩ := List.mem_map.mp hmem
  obtain ⟨direction', hdirection', xs', ys', hcopies', rfl⟩ :=
    (mem_fillsAt (length_position hd _)).mp hother
  simp only [Slab.fillOf, hposition] at hslot hcopies'
  obtain rfl := Grid.number_inj hcopies'.within (hcopies.within_src (hd.arePlaced_position color)) hslot
  -- The slot of the value is owned, so it is copied in no direction.
  obtain ⟨-, step, hstep, hne⟩ := Direction.mem_all.mp hdirection'
  exact hne (hcopies.eq_stay_of_src (hd.arePlaced_position color) hcopies' step hstep)

/-- A color does not have more ghost slots than slots. -/
theorem totalLength_runsOf_le (hd : d.Valid) (color : Nat) :
    Run.totalLength (runsOf d color) ≤ slotsOf d color := by
  have hnodup := nodup_dest_fillsAt (length_position hd color)
  rw [← flatMap_fills_runsOf hd] at hnodup
  have hsubset : ((runsOf d color).flatMap Run.fills).map (·.dest) ⊆
      List.range (slotsOf d color) := by
    intro slot hslot
    obtain ⟨fill, hfill, rfl⟩ := List.mem_map.mp hslot
    obtain ⟨r, hr, hfill⟩ := List.mem_flatMap.mp hfill
    obtain ⟨i, hi, rfl⟩ := List.mem_map.mp hfill
    rw [List.mem_range] at hi ⊢
    exact Nat.lt_of_lt_of_le (Nat.add_lt_add_left hi r.dest) (bounds_of_mem_runsOf hd hr).1
  have hle := (List.subperm_of_subset hnodup hsubset).length_le
  rwa [List.length_map, Run.length_flatMap_fills, List.length_range] at hle

/-- A color that takes a run from another is one step away from it. -/
theorem mem_neighborsOf (hd : d.Valid) (hcolor : color < d.axisColors.prod) {r : Run}
    (hr : r ∈ runsOf d color) : color ∈ neighborsOf d r.source := by
  obtain ⟨direction, hdirection, heq⟩ := exists_direction_of_mem_runsOf hd hr
  rw [neighborsOf, mem_ordered, List.mem_map]
  refine ⟨direction.opposite, Direction.opposite_mem_all hdirection, ?_⟩
  rw [heq]
  exact source_opposite hd hcolor (Direction.mem_all.mp hdirection).1

end Ghost

end HaloMesh
