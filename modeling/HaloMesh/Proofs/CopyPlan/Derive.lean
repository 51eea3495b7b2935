-- SUMMARY: The plan of every color of a representable spec is derived without a fault.
import HaloMesh.Proofs.CopyPlan.Mirror
import HaloMesh.Proofs.CopyPlan.Placement
import HaloMesh.Proofs.Ghost.Intervals

/-!
# Deriving copy plans

On a representable spec no step of the derivation of a plan faults, the invariants of the plan hold,
and the plan is `planOf`, which both ends of an exchange read off each other.
-/

namespace HaloMesh

/-! ## The runs of a color -/

namespace Ghost

section
variable {coloring : Coloring} {space : Nat} {d : ColoringDefinition} {parts : List IndexColoring}
  {color : Nat}

/-- Both ends of a run lie in storage. -/
theorem stop_le_of_mem_runsOf (h : coloring.HasSpace space d parts) (hcolor : color < parts.length)
    {r : Run} (hr : r ∈ runsOf d color) : ∃ hsource : r.source < parts.length,
      r.dest + r.length ≤ parts[color].extents.prod ∧
        r.src + r.length ≤ parts[r.source].extents.prod := by
  have hsource := source_lt_of_mem_runsOf h.valid hr
  rw [← h.partsOf.length_eq] at hsource
  rw [h.extents_prod_eq hcolor]
  exact ⟨hsource, h.extents_prod_eq hsource ▸ bounds_of_mem_runsOf h.valid hr⟩

theorem neighbors_eq_ok (h : coloring.HasSpace space d parts) (color : Nat) :
    neighbors coloring space color = .ok (neighborsOf d color) := by
  have hmap : (Direction.all d.dimension).mapM (neighbor d (Grid.position d.axisColors color)) =
      .ok ((Direction.all d.axes.length).map
        (Slab.source d.axes (Grid.position d.axisColors color))) := by
    rw [h.valid.dimension_eq]
    exact Checked.mapM_eq_ok fun direction hdirection =>
      neighbor_eq_ok h (Grid.within_position h.valid.colors_pos color)
        (Direction.mem_all.mp hdirection).1
  rw [neighbors, fetch_eq_ok_iff.mpr h.definition, Checked.ok_bind,
    Grid.coords_eq_ok h.valid.colors_pos, Checked.ok_bind, hmap]
  rfl

end

end Ghost

/-! ## Plans -/

namespace CopyPlan

section
variable {coloring : Coloring} {space : Nat} {d : ColoringDefinition} {parts : List IndexColoring}
  {color : Nat}

/-- What a color sends is what the other end receives, in the same order. -/
theorem sendsTo_planOf (h : coloring.HasSpace space d parts) {dest : Nat}
    (hdest : dest < parts.length) (part part' : IndexColoring) (color : Nat) :
    (planOf space d part color).sendsTo dest =
      (planOf space d part' dest).runs.filter (·.source == color) := by
  rw [sendsTo_eq_sentTo h.valid (h.partsOf.length_eq ▸ hdest), filter_runs_eq_sentTo]

theorem mem_destinations_planOf (h : coloring.HasSpace space d parts) {part : IndexColoring}
    {dest : Nat} : dest ∈ (planOf space d part color).destinations ↔
      dest < parts.length ∧ sentTo d color dest ≠ [] := by
  rw [mem_destinations_iff h.valid, h.partsOf.length_eq]

theorem sendTable_eq_ok (h : coloring.HasSpace space d parts) (color : Nat) :
    sendTable coloring space color = .ok (sendOf d color) := by
  have hmap : (Ghost.neighborsOf d color).mapM (fun dest => do
      return (dest, ← runsBetween coloring space color dest)) =
        .ok ((Ghost.neighborsOf d color).map fun dest => (dest, sentTo d color dest)) := by
    refine Checked.mapM_eq_ok fun dest hdest => ?_
    have hlt := Ghost.lt_of_mem_neighborsOf h.valid hdest
    rw [← h.partsOf.length_eq] at hlt
    rw [runsBetween, Ghost.intervals_eq_ok h hlt]
    rfl
  rw [sendTable, Ghost.neighbors_eq_ok h, Checked.ok_bind, hmap, Checked.ok_bind, List.filter_map]
  rfl

/-- The runs of a plan do not overlap and end within storage. -/
theorem check_planOf (h : coloring.HasSpace space d parts) (hcolor : color < parts.length) :
    (planOf space d parts[color] color).check = .ok () := by
  have hmem : ∀ r ∈ (planOf space d parts[color] color).runs, r ∈ Ghost.runsOf d color :=
    fun r hr => RunTable.mem_flatMap_bySource.mp hr
  have hstop : ∀ r ∈ (planOf space d parts[color] color).runs,
      r.dest + r.length ≤ parts[color].extents.prod :=
    fun r hr => (Ghost.stop_le_of_mem_runsOf h hcolor (hmem r hr)).2.1
  have hlength : ∀ r ∈ (planOf space d parts[color] color).runs, 0 < r.length :=
    fun r hr => Ghost.length_pos_of_mem_runsOf h.valid (hmem r hr)
  have hfits : ∀ r ∈ (planOf space d parts[color] color).runs, r.dest + r.length < Word.limit :=
    fun r hr => Word.lt_limit (Nat.lt_of_le_of_lt (hstop r hr) (h.slots_lt color hcolor))
  refine (exact_check hlength hfits).accepts_iff.mpr ⟨?_, fun range hrange => ?_⟩
  · have hapart := RunTable.pairwise_flatMap_bySource (fun h => h.symm)
      (Ghost.pairwise_runsOf h.valid color)
    refine hapart.map Run.target fun r s hrs => ?_
    rcases hrs with hle | hle
    · exact SlotRange.disjoint_of_stop_le hle
    · exact (SlotRange.disjoint_of_stop_le hle).symm
  · obtain ⟨r, hr, rfl⟩ := List.mem_map.mp hrange
    exact hstop r hr

/-- The slots of a color are counted without a fault. -/
theorem size_eq_ok (h : coloring.HasSpace space d parts) (hcolor : color < parts.length) :
    parts[color].size = .ok parts[color].extents.prod := by
  refine Word.product_eq_ok ?_ (Word.lt_limit (h.slots_lt color hcolor))
  rw [(h.partsOf.describes color hcolor).extents]
  exact Slab.extents_pos (h.valid.arePlaced_position color)

theorem ofColoring_eq_ok (h : coloring.HasSpace space d parts) (hcolor : color < parts.length) :
    ofColoring coloring space color = .ok (planOf space d parts[color] color) := by
  have hspace : space < coloring.indexSpaces := (List.getElem?_eq_some_iff.mp h.records).1
  have hslots := size_eq_ok h hcolor
  have hcheck : assertInvariants (planOf space d parts[color] color).check = .ok () := by
    rw [check_planOf h hcolor]
    rfl
  rw [ofColoring, if_pos hspace, derive, Ghost.intervals_eq_ok h hcolor, Checked.ok_bind,
    sendTable_eq_ok h, Checked.ok_bind, fetch_eq_ok_iff.mpr h.records, Checked.ok_bind,
    fetch_eq_ok_iff.mpr (List.getElem?_eq_getElem hcolor), Checked.ok_bind, hslots, Checked.ok_bind]
  change liftM (assertInvariants (planOf space d parts[color] color).check >>= fun _ =>
    pure (planOf space d parts[color] color)) = _
  rw [hcheck]
  rfl

end

end CopyPlan

end HaloMesh
