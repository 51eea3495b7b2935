-- SUMMARY: The plans of a valid definition: what a color sends to another is what the other receives, run by run.
import HaloMesh.CopyPlan
import HaloMesh.Proofs.Ghost.Runs

/-!
# Both ends of an exchange

A plan groups the runs of a color by their source, and lists for every neighbor the runs that the
neighbor takes from the color. `sentTo d color dest` are the runs that `dest` takes from `color`. They
stand in the send table of the one and in the receive table of the other, under the same condition,
which is that there are any. So the two tables can be read off each other.
-/

namespace HaloMesh

namespace CopyPlan

/-! ## Plans -/

/-- The runs that `dest` takes from a color. -/
def sentTo (d : ColoringDefinition) (color dest : Nat) : List Run :=
  (Ghost.runsOf d dest).filter (·.source == color)

/-- The neighbors that take runs from a color, with their runs. -/
def sendOf (d : ColoringDefinition) (color : Nat) : RunTable :=
  ((Ghost.neighborsOf d color).filter fun dest => !(sentTo d color dest).isEmpty).map fun dest =>
    (dest, sentTo d color dest)

/-- The plan of a color of an index space. -/
def planOf (space : Nat) (d : ColoringDefinition) (part : IndexColoring) (color : Nat) : CopyPlan where
  indexSpace := space
  color := color
  slots := part.extents.prod
  tag := tagOf space
  recv := .bySource (Ghost.runsOf d color)
  send := sendOf d color

variable {space : Nat} {d : ColoringDefinition} {color dest source : Nat}

/-! ## Runs between two colors -/

theorem mem_runsOf_of_mem_sentTo {r : Run} (hr : r ∈ sentTo d color dest) :
    r ∈ Ghost.runsOf d dest ∧ r.source = color :=
  ⟨(List.mem_filter.mp hr).1, beq_iff_eq.mp (List.mem_filter.mp hr).2⟩

theorem bounds_of_mem_sentTo (hd : d.Valid) {r : Run} (hr : r ∈ sentTo d color dest) :
    r.dest + r.length ≤ Ghost.slotsOf d dest ∧ r.src + r.length ≤ Ghost.slotsOf d color := by
  obtain ⟨hrun, rfl⟩ := mem_runsOf_of_mem_sentTo hr
  exact Ghost.bounds_of_mem_runsOf hd hrun

theorem totalLength_sentTo_le (hd : d.Valid) (color dest : Nat) :
    Run.totalLength (sentTo d color dest) ≤ Ghost.slotsOf d dest :=
  Nat.le_trans (Run.totalLength_filter_le _ _) (Ghost.totalLength_runsOf_le hd dest)

theorem sentTo_eq_nil_iff : sentTo d color dest = [] ↔
    color ∉ (Ghost.runsOf d dest).map (·.source) := by
  rw [sentTo, List.filter_eq_nil_iff, List.mem_map]
  constructor
  · rintro hnone ⟨r, hr, rfl⟩
    exact hnone r hr (beq_self_eq_true _)
  · rintro hnone r hr heq
    exact hnone ⟨r, hr, beq_iff_eq.mp heq⟩

/-- A color that something is taken from is one of the colors. -/
theorem lt_of_sentTo (hd : d.Valid) (hruns : sentTo d color dest ≠ []) :
    color < d.axisColors.prod := by
  obtain ⟨r, hr⟩ := List.exists_mem_of_ne_nil _ hruns
  obtain ⟨hrun, rfl⟩ := mem_runsOf_of_mem_sentTo hr
  exact Ghost.source_lt_of_mem_runsOf hd hrun

/-- A color that takes something from another is among its neighbors. -/
theorem mem_neighborsOf_of_sentTo (hd : d.Valid) (hdest : dest < d.axisColors.prod)
    (hruns : sentTo d color dest ≠ []) : dest ∈ Ghost.neighborsOf d color := by
  obtain ⟨r, hr⟩ := List.exists_mem_of_ne_nil _ hruns
  obtain ⟨hrun, rfl⟩ := mem_runsOf_of_mem_sentTo hr
  exact Ghost.mem_neighborsOf hd hdest hrun

/-! ## Tables -/

theorem lookup_sendOf (hd : d.Valid) (hdest : dest < d.axisColors.prod) :
    (sendOf d color).lookup dest =
      if sentTo d color dest = [] then none else some (sentTo d color dest) := by
  rw [sendOf, Checked.lookup_map]
  by_cases hruns : sentTo d color dest = []
  · simp [hruns]
  · have hmem := mem_neighborsOf_of_sentTo hd hdest hruns
    simp [hruns, hmem]

theorem sendsTo_eq_sentTo (hd : d.Valid) (hdest : dest < d.axisColors.prod) (part : IndexColoring)
    (color : Nat) : (planOf space d part color).sendsTo dest = sentTo d color dest := by
  rw [sendsTo, RunTable.runsOf, planOf, lookup_sendOf hd hdest]
  split
  · rename_i hnil
    exact hnil.symm
  · rfl

theorem filter_runs_eq_sentTo (part : IndexColoring) (color source : Nat) :
    (planOf space d part color).runs.filter (·.source == source) = sentTo d source color :=
  RunTable.filter_flatMap_bySource _ _

theorem destinations_planOf (part : IndexColoring) : (planOf space d part color).destinations =
    (Ghost.neighborsOf d color).filter fun dest => !(sentTo d color dest).isEmpty := by
  rw [destinations, planOf, sendOf, List.map_map]
  exact List.map_id _

theorem mem_destinations_iff (hd : d.Valid) {part : IndexColoring} :
    dest ∈ (planOf space d part color).destinations ↔
      dest < d.axisColors.prod ∧ sentTo d color dest ≠ [] := by
  rw [destinations_planOf, List.mem_filter, Bool.not_eq_true', List.isEmpty_eq_false_iff]
  constructor
  · exact fun ⟨hmem, hruns⟩ => ⟨Ghost.lt_of_mem_neighborsOf hd hmem, hruns⟩
  · exact fun ⟨hdest, hruns⟩ => ⟨mem_neighborsOf_of_sentTo hd hdest hruns, hruns⟩

theorem mem_sources_planOf {part : IndexColoring} {source : Nat} :
    source ∈ (planOf space d part color).sources ↔ sentTo d source color ≠ [] := by
  rw [sources, planOf, RunTable.keys_bySource, Ghost.mem_ordered, Ne, sentTo_eq_nil_iff, not_not]

end CopyPlan

end HaloMesh
