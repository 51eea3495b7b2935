-- SUMMARY: Deriving the ghost runs of a color does not fault, and gives the runs of its position.
import HaloMesh.Proofs.Coloring.Spec
import HaloMesh.Proofs.Ghost.Runs

/-!
# Deriving ghost intervals

`Ghost.intervals` reads the widths of two colors, looks colors up by the number of their position and
computes slot numbers, each of which could fault. On a representable spec none of this does, and the
result is `Ghost.runsAt`.
-/

namespace HaloMesh

/-! ## Slabs -/

namespace Span

theorem along_eq_ok {me nb : IndexColoring} {a c : Nat} {ax : AxisDefinition} {step : Step}
    (hme : me.Reads a ax c) (hnb : nb.Reads a ax (step.target c ax.colors))
    (hc : ax.HasPosition c) : along me nb a step = .ok (ax.span c step) := by
  have hsource : ax.HasPosition (step.target c ax.colors) :=
    ⟨⟨hc.valid, step.target_lt hc.lt⟩, hc.fits⟩
  rw [along, hnb.localLogical_eq hsource, Checked.ok_bind]
  cases step with
  | back =>
    have hle : ax.ghostLow c ≤ ax.stop (Step.back.target c ax.colors) :=
      Nat.le_trans (hc.ghostLow_le_owned _) (Nat.le_add_left _ _)
    simp only [hme.ghostLow_eq hc, Checked.ok_bind, Word.sub_of_le hle]
    rfl
  | ahead =>
    have hle : ax.ghostHigh c ≤ ax.slots c := Nat.le_add_left _ _
    simp only [hme.ghostHigh_eq hc, Checked.ok_bind, fetch_eq_ok_iff.mpr hme.extent,
      Word.sub_of_le hle]
    rfl
  | stay =>
    simp only [hme.localLogical_eq hc, Checked.ok_bind, hme.owned_eq hc]
    rfl

theorem slabFrom_eq_ok {me nb : IndexColoring} {axes : List AxisDefinition} {position : List Nat}
    {direction : Direction} (h : AxisDefinition.HasPositions axes position)
    (hlength : direction.length = axes.length) {a : Nat}
    (hme : ∀ i ax c, axes[i]? = some ax → position[i]? = some c → me.Reads (a + i) ax c)
    (hnb : ∀ i ax c, axes[i]? = some ax → (Slab.sourceAt axes position direction)[i]? = some c →
      nb.Reads (a + i) ax c) :
    slabFrom me nb a direction =
      .ok (if (Slab.spans axes position direction).any (·.width == 0) then none
        else some (Slab.spans axes position direction)) := by
  induction h generalizing direction a with
  | nil =>
    cases List.eq_nil_of_length_eq_zero hlength
    rfl
  | @cons ax c axes position hc _ ih =>
    obtain ⟨step, direction, rfl⟩ := List.exists_cons_of_length_eq_add_one hlength
    have halong : along me nb a step = .ok (ax.span c step) :=
      along_eq_ok (hme 0 ax c rfl rfl) (hnb 0 ax _ rfl rfl) hc
    have hrest := ih (Nat.succ.inj hlength) (a := a + 1)
      (fun i ax' c' hax hc' => Nat.add_right_comm a 1 i ▸ hme (i + 1) ax' c' hax hc')
      (fun i ax' c' hax hc' => Nat.add_right_comm a 1 i ▸ hnb (i + 1) ax' c' hax hc')
    rw [slabFrom, halong, Checked.ok_bind, hrest, Slab.spans, List.any_cons]
    by_cases hwidth : (ax.span c step).width = 0
    · simp [hwidth]
    · by_cases hany : (Slab.spans axes position direction).any (·.width == 0) = true
      · simp [hwidth, hany]
      · simp [hwidth, hany]

end Span

theorem Coloring.HasSpace.extents_prod_eq {coloring : Coloring} {space : Nat}
    {d : ColoringDefinition} {parts : List IndexColoring} (h : coloring.HasSpace space d parts)
    {color : Nat} (hcolor : color < parts.length) :
    parts[color].extents.prod = Ghost.slotsOf d color := by
  rw [(h.partsOf.describes color hcolor).extents]
  rfl

/-! ## Rows -/

namespace Ghost

theorem shift_eq_ok {starts offsets : List Nat}
    (h : ∀ n ∈ List.zipWith (· + ·) starts offsets, n < Word.limit) :
    shift starts offsets = .ok (List.zipWith (· + ·) starts offsets) := by
  rw [← List.map_uncurry_zip_eq_zipWith]
  refine Checked.mapM_eq_ok fun (start, offset) hmem => ?_
  refine Word.add_of_lt (h _ ?_)
  rw [← List.map_uncurry_zip_eq_zipWith]
  exact List.mem_map_of_mem hmem

/-- The records of a color and of its neighbor in a direction. -/
structure Neighbors (me nb : IndexColoring) (axes : List AxisDefinition) (position : List Nat)
    (direction : Direction) : Prop where
  nonempty : axes ≠ []
  positions : AxisDefinition.HasPositions axes position
  length_eq : direction.length = axes.length
  me_describes : me.Describes axes position
  nb_describes : nb.Describes axes (Slab.sourceAt axes position direction)
  me_lt : me.extents.prod < 2 ^ 63
  nb_lt : nb.extents.prod < 2 ^ 63

namespace Neighbors

variable {me nb : IndexColoring} {axes : List AxisDefinition} {position : List Nat}
  {direction : Direction}

theorem slab_eq_ok (h : Neighbors me nb axes position direction) : Span.slab me nb direction =
    .ok (if (Slab.spans axes position direction).any (·.width == 0) then none
      else some (Slab.spans axes position direction)) := by
  refine Span.slabFrom_eq_ok h.positions h.length_eq ?_ ?_
  · intro i ax c hax hc
    rw [Nat.zero_add]
    exact h.me_describes.reads hax hc
  · intro i ax c hax hc
    rw [Nat.zero_add]
    exact h.nb_describes.reads hax hc

/-- The slots of a cell on both sides are computed from its coordinates. -/
theorem index_eq_ok (h : Neighbors me nb axes position direction) {xs ys : List Nat}
    (hcopies : Slab.Copies axes position direction xs ys) :
    Grid.index me.extents xs = .ok (Grid.number (Slab.extents axes position) xs) ∧
      Grid.index nb.extents ys = .ok
        (Grid.number (Slab.extents axes (Slab.sourceAt axes position direction)) ys) := by
  have hme := h.me_lt
  have hnb := h.nb_lt
  rw [h.me_describes.extents] at hme ⊢
  rw [h.nb_describes.extents] at hnb ⊢
  exact ⟨Grid.index_eq_ok hcopies.within (Word.lt_limit hme),
    Grid.index_eq_ok (hcopies.within_src h.positions.arePlaced) (Word.lt_limit hnb)⟩

theorem row_eq_ok (h : Neighbors me nb axes position direction) {offsets : List Nat}
    (hfull : ¬ (Slab.spans axes position direction).any (·.width == 0) = true)
    (hoffsets : offsets ∈ Grid.cells ((Slab.spans axes position direction).tail.map (·.width))) :
    row me nb (Slab.source axes position direction) (Slab.spans axes position direction) offsets =
      .ok (Slab.row axes position direction offsets) := by
  have hspans : ∃ first rest, Slab.spans axes position direction = first :: rest := by
    obtain ⟨ax, axes, rfl⟩ := List.exists_cons_of_ne_nil h.nonempty
    obtain ⟨step, direction, rfl⟩ := List.exists_cons_of_length_eq_add_one h.length_eq
    cases h.positions
    exact ⟨_, _, rfl⟩
  obtain ⟨first, rest, hspans⟩ := hspans
  have hcell : (List.zipWith (· + ·) ((Slab.spans axes position direction).map (·.dest))
      (0 :: offsets), List.zipWith (· + ·) ((Slab.spans axes position direction).map (·.src))
        (0 :: offsets)) ∈ Slab.cells axes position direction := by
    refine List.mem_map.mpr ⟨0 :: offsets, Grid.mem_cells.mpr ?_, rfl⟩
    rw [hspans] at hfull hoffsets ⊢
    rw [List.any_cons, Bool.or_eq_true, not_or, beq_iff_eq] at hfull
    exact .cons (Nat.pos_of_ne_zero hfull.1) (Grid.mem_cells.mp hoffsets)
  rw [Slab.mem_cells h.positions.length_eq h.length_eq] at hcell
  have hslots : ∀ size ∈ Slab.extents axes position, size < Word.limit :=
    fun size hsize => Word.lt_limit (Slab.extents_lt h.positions size hsize)
  have hslots' : ∀ size ∈ Slab.extents axes (Slab.sourceAt axes position direction),
      size < Word.limit := fun size hsize =>
    Word.lt_limit (Slab.extents_lt (Slab.hasPositions_sourceAt h.positions h.length_eq) size hsize)
  have hdest := shift_eq_ok (hcell.within.lt_of_sizes_lt hslots)
  have hsrc := shift_eq_ok ((hcell.within_src h.positions.arePlaced).lt_of_sizes_lt hslots')
  obtain ⟨hdestIndex, hsrcIndex⟩ := h.index_eq_ok hcell
  have hfirst : fetch (Slab.spans axes position direction) 0 = .ok first := by
    rw [fetch_eq_ok_iff, hspans]
    rfl
  simp only [row, hdest, hsrc, hdestIndex, hsrcIndex, hfirst, Checked.ok_bind]
  rw [Slab.row, hspans]
  rfl

theorem pushSlab_eq (h : Neighbors me nb axes position direction)
    (hfull : ¬ (Slab.spans axes position direction).any (·.width == 0) = true)
    (found : List Run) :
    pushSlab me nb (Slab.source axes position direction) (Slab.spans axes position direction) found =
      (Slab.rows axes position direction).foldlM Run.push found := by
  rw [pushSlab, forRows_eq_foldlM (widths_pos hfull), Slab.rows, if_neg hfull, List.foldlM_map]
  refine Checked.foldlM_congr (fun offsets hoffsets found => ?_) found
  rw [h.row_eq_ok hfull hoffsets, Checked.ok_bind]

theorem stop_le_of_mem_rows (h : Neighbors me nb axes position direction) {r : Run}
    (hr : r ∈ Slab.rows axes position direction) :
    r.dest + r.length ≤ me.extents.prod ∧ r.src + r.length ≤ nb.extents.prod := by
  have hlength := Slab.length_pos_of_mem_rows h.nonempty h.positions.length_eq h.length_eq hr
  refine Run.stop_le_of_fills hlength fun fill hfill => ?_
  have hmem : fill ∈ (Slab.rows axes position direction).flatMap Run.fills :=
    List.mem_flatMap.mpr ⟨r, hr, hfill⟩
  rw [Slab.flatMap_fills_rows h.nonempty h.positions.length_eq h.length_eq, List.mem_map] at hmem
  obtain ⟨⟨xs, ys⟩, hcell, rfl⟩ := hmem
  rw [Slab.mem_cells h.positions.length_eq h.length_eq] at hcell
  rw [h.me_describes.extents, h.nb_describes.extents]
  exact ⟨Grid.number_lt_prod hcell.within, Grid.number_lt_prod (hcell.within_src h.positions.arePlaced)⟩

end Neighbors

/-! ## Intervals -/

section
variable {coloring : Coloring} {space : Nat} {d : ColoringDefinition} {parts : List IndexColoring}

theorem neighbor_eq_ok (h : coloring.HasSpace space d parts) {position : List Nat}
    (hposition : Grid.Within d.axisColors position) {direction : Direction}
    (hdirection : direction.length = d.axes.length) :
    neighbor d position direction = .ok (Slab.source d.axes position direction) := by
  have hlength : direction.length = d.axisColors.length := by
    rw [hdirection, h.valid.axisColors_eq, List.length_map]
  have hwithin := Direction.within_target hposition hlength
  rw [neighbor, Direction.move_eq_ok hposition (h.valid.axisColors_lt h.fits), Checked.ok_bind,
    Grid.index_eq_ok hwithin (Word.lt_limit h.colors_lt), Slab.source, Slab.sourceAt,
    ← h.valid.axisColors_eq]

/-- The records of a color and of its neighbor in a direction belong together. -/
theorem neighbors_of_direction (h : coloring.HasSpace space d parts) {color : Nat}
    (hcolor : color < parts.length) {direction : Direction}
    (hdirection : direction.length = d.axes.length) :
    ∃ hsource : Slab.source d.axes (Grid.position d.axisColors color) direction < parts.length,
      Neighbors parts[color] parts[Slab.source d.axes (Grid.position d.axisColors color) direction]
        d.axes (Grid.position d.axisColors color) direction := by
  obtain ⟨hsource, hposition⟩ := source_of_direction h.valid
    (Grid.within_position h.valid.colors_pos color) hdirection
  rw [← h.partsOf.length_eq] at hsource
  refine ⟨hsource, List.ne_nil_of_length_pos h.valid.dimension_pos,
    h.valid.hasPositions_position h.fits color, hdirection, h.partsOf.describes color hcolor, ?_,
    h.slots_lt color hcolor, h.slots_lt _ hsource⟩
  rw [← hposition]
  exact h.partsOf.describes _ hsource

theorem pushDirection_eq (h : coloring.HasSpace space d parts) {color : Nat}
    (hcolor : color < parts.length) {direction : Direction}
    (hdirection : direction.length = d.axes.length) (found : List Run) :
    pushDirection d parts parts[color] (Grid.position d.axisColors color) found direction =
      (Slab.rows d.axes (Grid.position d.axisColors color) direction).foldlM Run.push found := by
  obtain ⟨hsource, hneighbors⟩ := neighbors_of_direction h hcolor hdirection
  have hneighbor := neighbor_eq_ok h (Grid.within_position h.valid.colors_pos color) hdirection
  have hfetch := fetch_eq_ok_iff.mpr (List.getElem?_eq_getElem hsource)
  rw [pushDirection, hneighbor, Checked.ok_bind, hfetch, Checked.ok_bind, hneighbors.slab_eq_ok,
    Checked.ok_bind]
  by_cases hfull : (Slab.spans d.axes (Grid.position d.axisColors color) direction).any
      (·.width == 0) = true
  · rw [if_pos hfull, Slab.rows, if_pos hfull]
    rfl
  · rw [if_neg hfull]
    exact hneighbors.pushSlab_eq hfull found

theorem fits_of_mem_rowsAt (h : coloring.HasSpace space d parts) {color : Nat}
    (hcolor : color < parts.length) {r : Run}
    (hr : r ∈ rowsAt d.axes (Grid.position d.axisColors color)) : r.Fits := by
  obtain ⟨direction, hdirection, hr⟩ := List.mem_flatMap.mp hr
  obtain ⟨hsource, hneighbors⟩ :=
    neighbors_of_direction h hcolor (Direction.mem_all.mp hdirection).1
  obtain ⟨hdest, hsrc⟩ := hneighbors.stop_le_of_mem_rows hr
  exact ⟨Word.lt_limit (Nat.lt_of_le_of_lt hdest hneighbors.me_lt),
    Word.lt_limit (Nat.lt_of_le_of_lt hsrc hneighbors.nb_lt)⟩

/-- The runs of a color are those of its position. -/
theorem intervals_eq_ok (h : coloring.HasSpace space d parts) {color : Nat}
    (hcolor : color < parts.length) : intervals coloring space color =
      .ok (runsAt d.axes (Grid.position d.axisColors color)) := by
  have hfold : (Direction.all d.dimension).foldlM
      (pushDirection d parts parts[color] (Grid.position d.axisColors color)) [] =
        .ok (Run.joinAll (rowsAt d.axes (Grid.position d.axisColors color))) := by
    rw [← Run.foldlM_push_eq_ok fun r hr => fits_of_mem_rowsAt h hcolor hr, rowsAt,
      Checked.foldlM_flatMap, h.valid.dimension_eq]
    exact Checked.foldlM_congr (fun direction hdirection found =>
      pushDirection_eq h hcolor (Direction.mem_all.mp hdirection).1 found) []
  rw [intervals, fetch_eq_ok_iff.mpr h.definition, Checked.ok_bind, fetch_eq_ok_iff.mpr h.records,
    Checked.ok_bind, fetch_eq_ok_iff.mpr (List.getElem?_eq_getElem hcolor), Checked.ok_bind,
    Grid.coords_eq_ok h.valid.colors_pos, Checked.ok_bind, hfold]
  rfl

end

end Ghost

end HaloMesh
