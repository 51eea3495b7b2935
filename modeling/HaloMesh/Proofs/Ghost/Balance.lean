-- SUMMARY: Two colors take equally many slots from each other.
import HaloMesh.Proofs.CopyPlan.Mirror

/-!
# Balance

The slab that a color takes in a direction is as large as the slab that its neighbor takes in the
opposite one, since ghosts have the same depth on both sides of a face. So what a color sends to
another is no more than it has room for itself.
-/

namespace HaloMesh

/-! ## Slabs -/

namespace AxisDefinition

variable {ax : AxisDefinition} {c : Nat}

/-- Only the first position has the last one behind it. -/
theorem touchesHigh_target_back (hc : c < ax.colors) :
    ax.touchesHigh (Step.back.target c ax.colors) = ax.touchesLow c := by
  cases c with
  | zero =>
    have hlast : ax.colors - 1 + 1 = ax.colors := Nat.sub_add_cancel hc
    simp [touchesHigh, touchesLow, Step.target_back_zero hc, hlast]
  | succ c =>
    have hne : c + 1 ≠ ax.colors := Nat.ne_of_lt hc
    simp [touchesHigh, touchesLow, Step.target_back_succ hc, hne]

/-- Only the last position has the first one before it. -/
theorem touchesLow_target_ahead (hc : c < ax.colors) :
    ax.touchesLow (Step.ahead.target c ax.colors) = ax.touchesHigh c := by
  rcases Nat.lt_or_ge (c + 1) ax.colors with hlt | hge
  · simp [touchesHigh, touchesLow, Step.target_ahead_of_lt hlt, Nat.ne_of_lt hlt]
  · have hlast : c + 1 = ax.colors := Nat.le_antisymm hc hge
    simp [touchesHigh, touchesLow, Step.target_ahead_last hlast, hlast]

/-- A span is as wide as the one that leads back. -/
theorem width_opposite (hc : c < ax.colors) (step : Step) :
    (ax.span (step.target c ax.colors) step.opposite).width = (ax.span c step).width := by
  cases step with
  | back => simp only [span, Step.opposite, ghostHigh, ghostLow, touchesHigh_target_back hc]
  | stay => rfl
  | ahead => simp only [span, Step.opposite, ghostHigh, ghostLow, touchesLow_target_ahead hc]

end AxisDefinition

namespace Slab

/-- The widths of the slab in a direction. -/
def widths (axes : List AxisDefinition) (position : List Nat) (direction : Direction) : List Nat :=
  (spans axes position direction).map (·.width)

theorem widths_opposite {axes : List AxisDefinition} {position : List Nat}
    (h : AxisDefinition.ArePlaced axes position) {direction : Direction}
    (hdirection : direction.length = axes.length) :
    widths axes (sourceAt axes position direction) direction.opposite =
      widths axes position direction := by
  induction h generalizing direction with
  | nil => rfl
  | @cons ax c axes position hc _ ih =>
    obtain ⟨step, direction, rfl⟩ := List.exists_cons_of_length_eq_add_one hdirection
    exact List.cons_eq_cons.mpr ⟨AxisDefinition.width_opposite hc.lt step, ih (Nat.succ.inj hdirection)⟩

theorem length_cells (axes : List AxisDefinition) (position : List Nat) (direction : Direction) :
    (cells axes position direction).length = (Grid.cells (widths axes position direction)).length := by
  rw [cells, List.length_map]
  rfl

end Slab

/-! ## Directions between two colors -/

namespace Ghost

/-- Whether the elements of a list pass a test depends on where they come from. -/
private theorem filter_flatMap_eq {α β : Type} {f : α → List β} {p : β → Bool} {q : α → Bool}
    {xs : List α} (h : ∀ x ∈ xs, ∀ y ∈ f x, p y = q x) :
    (xs.flatMap f).filter p = (xs.filter q).flatMap f := by
  induction xs with
  | nil => rfl
  | cons x xs ih =>
    have hx := h x (by simp)
    rw [List.flatMap_cons, List.filter_append, ih fun x' hx' => h x' (by simp [hx'])]
    cases hq : q x with
    | true =>
      rw [List.filter_cons_of_pos hq, List.flatMap_cons,
        List.filter_eq_self.mpr fun y hy => (hx y hy).trans hq]
    | false =>
      rw [List.filter_cons_of_neg (by rw [hq]; decide),
        List.filter_eq_nil_iff.mpr fun y hy => by rw [hx y hy, hq]; decide, List.nil_append]

variable {d : ColoringDefinition} {color dest : Nat}

/-- The directions in which a color has another for its neighbor. -/
def directionsTo (d : ColoringDefinition) (color source : Nat) : List Direction :=
  (Direction.all d.axes.length).filter fun direction =>
    Slab.source d.axes (Grid.position d.axisColors color) direction == source

theorem mem_directionsTo {direction : Direction} {source : Nat} :
    direction ∈ directionsTo d color source ↔ direction ∈ Direction.all d.axes.length ∧
      Slab.source d.axes (Grid.position d.axisColors color) direction = source := by
  rw [directionsTo, List.mem_filter, beq_iff_eq]

theorem opposite_mem_directionsTo (hd : d.Valid) (hcolor : color < d.axisColors.prod)
    {direction : Direction} (h : direction ∈ directionsTo d color dest) :
    direction.opposite ∈ directionsTo d dest color := by
  obtain ⟨hdirection, rfl⟩ := mem_directionsTo.mp h
  refine mem_directionsTo.mpr ⟨Direction.opposite_mem_all hdirection, ?_⟩
  exact source_opposite hd hcolor (Direction.mem_all.mp hdirection).1

/-- The directions from one color to another are those of the way back, turned around. -/
theorem directionsTo_perm (hd : d.Valid) (hcolor : color < d.axisColors.prod)
    (hdest : dest < d.axisColors.prod) :
    (directionsTo d dest color).Perm ((directionsTo d color dest).map Direction.opposite) := by
  have hinvolutive : ∀ direction : Direction, direction.opposite.opposite = direction := by
    intro direction
    rw [Direction.opposite, Direction.opposite, List.map_map]
    exact List.map_id'' Step.opposite_opposite direction
  have hnodup : ∀ color dest, (directionsTo d color dest).Nodup := fun _ _ =>
    (Direction.nodup_all _).filter _
  refine (List.perm_ext_iff_of_nodup (hnodup dest color) ?_).mpr fun direction => ?_
  · refine (hnodup color dest).map fun a b hab => ?_
    rw [← hinvolutive a, hab, hinvolutive b]
  · rw [List.mem_map]
    constructor
    · exact fun h => ⟨direction.opposite, opposite_mem_directionsTo hd hdest h, hinvolutive direction⟩
    · rintro ⟨direction, h, rfl⟩
      exact opposite_mem_directionsTo hd hcolor h

/-- The slots that a color takes from another, direction by direction. -/
theorem totalLength_sentTo_eq_sum (hd : d.Valid) (color dest : Nat) :
    Run.totalLength (CopyPlan.sentTo d color dest) = ((directionsTo d dest color).map fun direction =>
      (Grid.cells (Slab.widths d.axes (Grid.position d.axisColors dest) direction)).length).sum := by
  have hruns : ((runsOf d dest).flatMap Run.fills).filter (·.source == color) =
      (CopyPlan.sentTo d color dest).flatMap Run.fills := by
    refine filter_flatMap_eq fun r _ fill hfill => ?_
    obtain ⟨i, -, rfl⟩ := List.mem_map.mp hfill
    rfl
  have hfills : (fillsAt d.axes (Grid.position d.axisColors dest)).filter (·.source == color) =
      (directionsTo d dest color).flatMap fun direction =>
        (Slab.cells d.axes (Grid.position d.axisColors dest) direction).map
          (Slab.fillOf d.axes (Grid.position d.axisColors dest) direction) := by
    refine filter_flatMap_eq fun direction _ fill hfill => ?_
    obtain ⟨cell, -, rfl⟩ := List.mem_map.mp hfill
    rfl
  rw [← Run.length_flatMap_fills, ← hruns, flatMap_fills_runsOf hd, hfills, List.length_flatMap]
  simp only [List.length_map, Slab.length_cells]

/-- Two colors take equally many slots from each other. -/
theorem totalLength_sentTo_comm (hd : d.Valid) (hcolor : color < d.axisColors.prod)
    (hdest : dest < d.axisColors.prod) : Run.totalLength (CopyPlan.sentTo d color dest) =
      Run.totalLength (CopyPlan.sentTo d dest color) := by
  rw [totalLength_sentTo_eq_sum hd, totalLength_sentTo_eq_sum hd,
    ((directionsTo_perm hd hcolor hdest).map _).sum_eq, List.map_map]
  refine congrArg List.sum (List.map_congr_left fun direction hmem => ?_)
  obtain ⟨hdirection, rfl⟩ := mem_directionsTo.mp hmem
  have hlength := (Direction.mem_all.mp hdirection).1
  rw [Function.comp_apply,
    (source_of_direction hd (Grid.within_position hd.colors_pos color) hlength).2,
    Slab.widths_opposite (hd.arePlaced_position color) hlength]

/-- What a color sends to another is no more than it has slots. -/
theorem totalLength_sentTo_le_source (hd : d.Valid) (hcolor : color < d.axisColors.prod)
    (hdest : dest < d.axisColors.prod) :
    Run.totalLength (CopyPlan.sentTo d color dest) ≤ slotsOf d color := by
  rw [totalLength_sentTo_comm hd hcolor hdest]
  exact CopyPlan.totalLength_sentTo_le hd dest color

end Ghost

end HaloMesh
