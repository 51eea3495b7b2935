-- SUMMARY: Ghost runs that were derived from a coloring, however large its numbers, are those of the positions.
import HaloMesh.Proofs.Coloring.Realizable
import HaloMesh.Proofs.Ghost.Runs

/-!
# Runs that were derived

The numbers of a coloring may be so large that the derivation of runs overflows. If it does not, the
runs are `Ghost.runsOf`, as each step either fails or has the value that it has without bounds.
-/

namespace HaloMesh

/-! ## Slabs -/

namespace Span

variable {me nb : IndexColoring} {a : Nat}

theorem gives_along {c : Nat} {ax : AxisDefinition} {step : Step} (hme : me.Records a ax c)
    (hnb : nb.Records a ax (step.target c ax.colors)) (hc : ax.Storable c)
    (hsource : ax.Storable (step.target c ax.colors)) :
    Checked.Gives (along me nb a step) (ax.span c step) := by
  refine (hnb.gives_localLogical hsource).bind ?_
  cases step with
  | back =>
    refine (Checked.Gives.of_eq (hme.ghostLow_eq hc)).bind ?_
    exact (Word.gives_sub _ _).bind (.ok _)
  | ahead =>
    refine (Checked.Gives.of_eq (hme.ghostHigh_eq hc)).bind ?_
    refine (Checked.Gives.of_eq (fetch_eq_ok_iff.mpr hme.extent)).bind ?_
    exact (Word.gives_sub _ _).bind (.ok _)
  | stay =>
    refine (hme.gives_localLogical hc).bind ?_
    exact (hme.gives_owned hc.toColorable).bind (.ok _)

theorem gives_slabFrom {axes : List AxisDefinition} {position : List Nat} {direction : Direction}
    (hlength : axes.length = position.length) (hdirection : direction.length = axes.length)
    (hme : ∀ i ax c, axes[i]? = some ax → position[i]? = some c →
      me.Records (a + i) ax c ∧ ax.Storable c)
    (hnb : ∀ i ax c, axes[i]? = some ax → (Slab.sourceAt axes position direction)[i]? = some c →
      nb.Records (a + i) ax c ∧ ax.Storable c) :
    Checked.Gives (slabFrom me nb a direction)
      (if (Slab.spans axes position direction).any (·.width == 0) then none
        else some (Slab.spans axes position direction)) := by
  induction axes generalizing position direction a with
  | nil =>
    cases List.eq_nil_of_length_eq_zero hlength.symm
    cases List.eq_nil_of_length_eq_zero hdirection
    exact .ok _
  | cons ax axes ih =>
    obtain ⟨c, position, rfl⟩ := List.exists_cons_of_length_eq_add_one hlength.symm
    obtain ⟨step, direction, rfl⟩ := List.exists_cons_of_length_eq_add_one hdirection
    obtain ⟨hmeFirst, hc⟩ := hme 0 ax c rfl rfl
    obtain ⟨hnbFirst, hsource⟩ := hnb 0 ax _ rfl rfl
    refine (gives_along hmeFirst hnbFirst hc hsource).bind ?_
    have hrest := ih (Nat.succ.inj hlength) (Nat.succ.inj hdirection) (a := a + 1)
      (fun i ax' c' hax hc' => Nat.add_right_comm a 1 i ▸ hme (i + 1) ax' c' hax hc')
      (fun i ax' c' hax hc' => Nat.add_right_comm a 1 i ▸ hnb (i + 1) ax' c' hax hc')
    rw [Slab.spans, List.any_cons]
    by_cases hwidth : (ax.span c step).width = 0
    · rw [if_pos hwidth, hwidth]
      exact .ok _
    · rw [if_neg hwidth, beq_eq_false_iff_ne.mpr hwidth, Bool.false_or]
      refine hrest.bind ?_
      cases (Slab.spans axes position direction).any (·.width == 0) <;> exact .ok _

end Span

namespace Ghost

/-! ## Rows -/

theorem gives_shift (starts offsets : List Nat) :
    Checked.Gives (shift starts offsets) (List.zipWith (· + ·) starts offsets) := by
  rw [← List.map_uncurry_zip_eq_zipWith]
  exact .mapM fun pair _ => Word.gives_add pair.1 pair.2

theorem gives_row (me nb : IndexColoring) (source : Nat) (spans : List Span) (offsets : List Nat) :
    Checked.Gives (row me nb source spans offsets) {
      dest := Grid.number me.extents (List.zipWith (· + ·) (spans.map (·.dest)) (0 :: offsets))
      length := (spans.map (·.width)).headD 0
      source := source
      src := Grid.number nb.extents (List.zipWith (· + ·) (spans.map (·.src)) (0 :: offsets)) } := by
  refine (gives_shift _ _).bind ((gives_shift _ _).bind ((Grid.gives_index _ _).bind ?_))
  cases spans with
  | nil => exact .error _ _
  | cons first spans => exact (Grid.gives_index _ _).bind (.ok _)

section
variable {axes : List AxisDefinition} {position : List Nat} {direction : Direction}

theorem gives_pushSlab {me nb : IndexColoring} (hme : me.extents = Slab.extents axes position)
    (hnb : nb.extents = Slab.extents axes (Slab.sourceAt axes position direction))
    (hfull : ¬ (Slab.spans axes position direction).any (·.width == 0) = true) (found : List Run) :
    Checked.Gives
      (pushSlab me nb (Slab.source axes position direction) (Slab.spans axes position direction) found)
      ((Slab.rows axes position direction).foldl Run.join found) := by
  rw [pushSlab, forRows_eq_foldlM (widths_pos hfull), Slab.rows, if_neg hfull, List.foldl_map]
  refine .foldlM (fun offsets _ found => ?_) found
  have hrow := gives_row me nb (Slab.source axes position direction)
    (Slab.spans axes position direction) offsets
  rw [hme, hnb] at hrow
  exact hrow.bind (Run.gives_push found _)

end

/-! ## Intervals -/

section
variable {coloring : Coloring} {space : Nat} {d : ColoringDefinition} {color : Nat}

theorem gives_neighbor (hd : d.Valid) (position : List Nat) (direction : Direction) :
    Checked.Gives (neighbor d position direction) (Slab.source d.axes position direction) := by
  rw [Slab.source, Slab.sourceAt, ← hd.axisColors_eq]
  exact (direction.gives_move position d.axisColors).bind (Grid.gives_index _ _)

theorem fetch_recordsOf {colors : Nat} (hcolor : color < colors) :
    fetch (Coloring.recordsOf d colors) color =
      .ok (IndexColoring.recordAt d.axes (Grid.position d.axisColors color)) := by
  rw [fetch_eq_ok_iff, Coloring.recordsOf, List.getElem?_map, List.getElem?_range hcolor]
  rfl

/-- What the record of a color says about every axis. -/
theorem records_of_stores (h : coloring.Stores space d) (hcolor : color < coloring.colors)
    {position : List Nat} (hposition : Grid.position d.axisColors color = position) {i c : Nat}
    {ax : AxisDefinition} (hax : d.axes[i]? = some ax) (hc : position[i]? = some c) :
    (IndexColoring.recordAt d.axes position).Records (0 + i) ax c ∧ ax.Storable c := by
  subst hposition
  obtain ⟨c', hc', hstorable⟩ := Checked.getElem?_of_forall₂ (h.storable color hcolor) hax
  rw [Nat.zero_add, Option.some.inj (hc.symm.trans hc')]
  exact ⟨IndexColoring.records_recordAt h.valid.dimension_le hax hc', hstorable⟩

theorem gives_pushDirection (h : coloring.Stores space d) (hcolor : color < coloring.colors)
    {direction : Direction} (hdirection : direction.length = d.axes.length) (found : List Run) :
    Checked.Gives (pushDirection d (Coloring.recordsOf d coloring.colors)
        (IndexColoring.recordAt d.axes (Grid.position d.axisColors color))
        (Grid.position d.axisColors color) found direction)
      ((Slab.rows d.axes (Grid.position d.axisColors color) direction).foldl Run.join found) := by
  obtain ⟨hsource, hposition⟩ := source_of_direction h.valid
    (Grid.within_position h.valid.colors_pos color) hdirection
  rw [← h.colors_eq] at hsource
  have hslab := Span.gives_slabFrom (length_position h.valid color) hdirection
    (fun _ _ _ hax hc => records_of_stores h hcolor rfl hax hc)
    (fun _ _ _ hax hc => records_of_stores h hsource hposition hax hc)
  refine (gives_neighbor h.valid _ direction).bind ?_
  rw [fetch_recordsOf hsource, hposition, Checked.ok_bind]
  refine Checked.Gives.bind hslab ?_
  by_cases hfull : (Slab.spans d.axes (Grid.position d.axisColors color) direction).any
      (·.width == 0) = true
  · rw [if_pos hfull, Slab.rows, if_pos hfull]
    exact .ok found
  · rw [if_neg hfull]
    exact gives_pushSlab (IndexColoring.extents_recordAt _ _) (IndexColoring.extents_recordAt _ _)
      hfull found

theorem gives_intervals (h : coloring.Stores space d) (hcolor : color < coloring.colors) :
    Checked.Gives (intervals coloring space color) (runsOf d color) := by
  have hfound : runsOf d color = ((Direction.all d.axes.length).foldl (fun found direction =>
      (Slab.rows d.axes (Grid.position d.axisColors color) direction).foldl Run.join found)
        []).reverse := by
    rw [runsOf, runsAt, Run.joinAll, rowsAt, List.foldl_flatMap]
  rw [intervals, fetch_eq_ok_iff.mpr h.definition, Checked.ok_bind, fetch_eq_ok_iff.mpr h.records,
    Checked.ok_bind, fetch_recordsOf hcolor, Checked.ok_bind, Grid.coords_eq_ok h.valid.colors_pos,
    Checked.ok_bind, hfound, h.valid.dimension_eq]
  refine Checked.Gives.bind (.foldlM (fun direction hdirection found => ?_) []) (.ok _)
  exact gives_pushDirection h hcolor (Direction.mem_all.mp hdirection).1 found

theorem gives_neighbors (h : coloring.Stores space d) (color : Nat) :
    Checked.Gives (neighbors coloring space color) (neighborsOf d color) := by
  rw [neighbors, fetch_eq_ok_iff.mpr h.definition, Checked.ok_bind,
    Grid.coords_eq_ok h.valid.colors_pos, Checked.ok_bind, neighborsOf, h.valid.dimension_eq]
  refine Checked.Gives.bind (.mapM fun direction _ => ?_) (.ok _)
  exact gives_neighbor h.valid _ direction

end

end Ghost

end HaloMesh
