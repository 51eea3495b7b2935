-- SUMMARY: The slab of ghost slots in a direction, axis by axis: which slots it has and where their values lie.
import HaloMesh.Proofs.Coloring.Layout
import HaloMesh.Proofs.Ghost.Direction
import HaloMesh.Proofs.Ghost.Rows

/-!
# Slabs

Along one axis a step names a zone of slots: the low ghosts for a step back, the owned range for no
step, the high ghosts for a step ahead. The zones are disjoint, so the zones of the coordinates of a
ghost slot give the one direction whose slab holds the slot. Every slot of a zone takes its value from
an owned slot at the position that the step leads to, and the two have the same global index, up to
the extent where the step wraps around a periodic axis.
-/

namespace HaloMesh

/-! ## One axis -/

namespace AxisDefinition

/-- The span of a slab along an axis, for the color at position `c`. -/
def span (ax : AxisDefinition) (c : Nat) (step : Step) : Span :=
  match step with
  | .back => ⟨0, ax.stop (step.target c ax.colors) - ax.ghostLow c, ax.ghostLow c⟩
  | .stay => ⟨ax.start c, ax.start c, ax.owned c⟩
  | .ahead => ⟨ax.slots c - ax.ghostHigh c, ax.start (step.target c ax.colors), ax.ghostHigh c⟩

/-- Slot `x` takes its value from slot `y` of the position that the step leads to. -/
def Copies (ax : AxisDefinition) (c : Nat) (step : Step) (x y : Nat) : Prop :=
  ∃ i < (ax.span c step).width, x = (ax.span c step).dest + i ∧ y = (ax.span c step).src + i

/-- The slots of a step: low ghosts, owned slots or high ghosts. -/
def zone (ax : AxisDefinition) (c : Nat) : Step → SlotRange
  | .back => ⟨0, ax.ghostLow c⟩
  | .stay => ⟨ax.start c, ax.stop c⟩
  | .ahead => ⟨ax.slots c - ax.ghostHigh c, ax.slots c⟩

variable {ax : AxisDefinition} {c x y : Nat} {step : Step}

theorem zone_eq_span (ax : AxisDefinition) (c : Nat) (step : Step) :
    ax.zone c step = ⟨(ax.span c step).dest, (ax.span c step).dest + (ax.span c step).width⟩ := by
  cases step with
  | back => simp [zone, span]
  | stay => simp [zone, span, stop]
  | ahead =>
    have hle : ax.ghostHigh c ≤ ax.slots c := Nat.le_add_left _ _
    simp [zone, span, Nat.sub_add_cancel hle]

theorem exists_copies_iff :
    (∃ y, ax.Copies c step x y) ↔ (ax.zone c step).start ≤ x ∧ x < (ax.zone c step).stop := by
  rw [zone_eq_span]
  constructor
  · rintro ⟨y, i, hi, rfl, -⟩
    exact ⟨Nat.le_add_right _ _, Nat.add_lt_add_left hi _⟩
  · rintro ⟨hstart, hstop⟩
    obtain ⟨i, rfl⟩ := Nat.exists_eq_add_of_le hstart
    exact ⟨_, i, Nat.lt_of_add_lt_add_left hstop, rfl, rfl⟩

namespace Copies

/-- The zones of different steps are disjoint. -/
theorem step_unique {step' : Step} {y' : Nat} (h : ax.Copies c step x y)
    (h' : ax.Copies c step' x y') : step = step' := by
  have hzone := exists_copies_iff.mp ⟨y, h⟩
  have hzone' := exists_copies_iff.mp ⟨y', h'⟩
  have hlow : ax.ghostLow c ≤ ax.start c := Nat.le_add_right _ _
  have hstart : ax.start c ≤ ax.stop c := Nat.le_add_right _ _
  have hstop : ax.stop c ≤ ax.slots c - ax.ghostHigh c := by
    unfold slots
    omega
  cases step <;> cases step' <;> simp only [zone] at hzone hzone' <;> first | rfl | omega

theorem lt_slots (h : ax.Copies c step x y) : x < ax.slots c := by
  have hzone := (exists_copies_iff.mp ⟨y, h⟩).2
  have hstop : ax.stop c ≤ ax.slots c := by
    unfold slots
    omega
  have hlow : ax.ghostLow c ≤ ax.stop c := by
    unfold stop start
    omega
  cases step <;> simp only [zone] at hzone <;> omega

/-- The values of a zone are owned by the position that the step leads to. -/
theorem src_owned (h : ax.Copies c step x y) (hc : ax.Placed c) :
    ax.start (step.target c ax.colors) ≤ y ∧ y < ax.stop (step.target c ax.colors) := by
  obtain ⟨i, hi, -, rfl⟩ := h
  have hlow := hc.ghostLow_le_owned (step.target c ax.colors)
  have hhigh := hc.ghostHigh_le_owned (step.target c ax.colors)
  cases step <;> simp only [span, stop] at hi ⊢
  case back => omega
  case stay => exact ⟨Nat.le_add_right _ _, Nat.add_lt_add_left hi _⟩
  case ahead => omega

theorem global_back (h : ax.Copies c .back x y) (hc : ax.HasPosition c) :
    ∃ k : Int, (ax.periodic = false → k = 0) ∧
      ax.globalAt c x = ax.globalAt (Step.back.target c ax.colors) y + k * ax.extent := by
  obtain ⟨i, hi, rfl, rfl⟩ := h
  simp only [span] at hi ⊢
  have hlow := hc.ghostLow_le_owned (Step.back.target c ax.colors)
  have htouch : ax.touchesLow c = false := by
    rcases Bool.eq_false_or_eq_true (ax.touchesLow c) with ht | ht
    · rw [ghostLow, if_pos ht] at hi
      omega
    · exact ht
  have hstart : ax.start c = ax.ghostLow c := by
    rw [start, padLow, htouch]
    rfl
  -- The low ghosts end where the block before ends, or where the axis does.
  have hend : ∃ k : Int, (ax.periodic = false → k = 0) ∧ (ax.offset c : Int) =
      ax.offset (Step.back.target c ax.colors) + ax.owned (Step.back.target c ax.colors) +
        k * ax.extent := by
    rcases c with - | c
    · rw [Step.target_back_zero hc.lt]
      have hposition : ax.HasPosition (ax.colors - 1) :=
        ⟨⟨hc.valid, Nat.sub_lt hc.lt Nat.one_pos⟩, hc.fits⟩
      have hstop := hposition.stop_eq_extent_iff.mpr (Nat.sub_add_cancel hc.lt)
      have hzero : ax.offset 0 = 0 := Block.offsetAt_zero
      refine ⟨-1, fun hp => ?_, ?_⟩
      · simp [touchesLow, hp] at htouch
      · rw [← Int.natCast_add, hstop, hzero]
        omega
    · rw [Step.target_back_succ hc.lt]
      have hnext : ax.offset (c + 1) = ax.offset c + ax.owned c := Block.offsetAt_succ c
      exact ⟨0, fun _ => rfl, by rw [hnext]; omega⟩
  obtain ⟨k, hk, hend⟩ := hend
  refine ⟨k, hk, ?_⟩
  rw [globalAt, globalAt, hstart, hend, stop]
  omega

theorem global_ahead (h : ax.Copies c .ahead x y) (hc : ax.HasPosition c) :
    ∃ k : Int, (ax.periodic = false → k = 0) ∧
      ax.globalAt c x = ax.globalAt (Step.ahead.target c ax.colors) y + k * ax.extent := by
  obtain ⟨i, hi, rfl, rfl⟩ := h
  simp only [span] at hi ⊢
  have htouch : ax.touchesHigh c = false := by
    rcases Bool.eq_false_or_eq_true (ax.touchesHigh c) with ht | ht
    · rw [ghostHigh, if_pos ht] at hi
      omega
    · exact ht
  have hslots : ax.slots c - ax.ghostHigh c = ax.stop c := by
    rw [slots, padHigh, htouch]
    simp
  -- The high ghosts start where the next block starts, or where the axis does.
  have hend : ∃ k : Int, (ax.periodic = false → k = 0) ∧ (ax.offset c + ax.owned c : Int) =
      ax.offset (Step.ahead.target c ax.colors) + k * ax.extent := by
    rcases Nat.lt_or_ge (c + 1) ax.colors with hlt | hge
    · rw [Step.target_ahead_of_lt hlt]
      have hnext : ax.offset (c + 1) = ax.offset c + ax.owned c := Block.offsetAt_succ c
      exact ⟨0, fun _ => rfl, by rw [hnext]; omega⟩
    · have hlast : c + 1 = ax.colors := by
        have := hc.lt
        omega
      have hstop := hc.stop_eq_extent_iff.mpr hlast
      have hzero : ax.offset 0 = 0 := Block.offsetAt_zero
      rw [Step.target_ahead_last hlast]
      refine ⟨1, fun hp => ?_, ?_⟩
      · simp [touchesHigh, hp, hlast] at htouch
      · rw [← Int.natCast_add, hstop, hzero]
        omega
  obtain ⟨k, hk, hend⟩ := hend
  refine ⟨k, hk, ?_⟩
  rw [globalAt, globalAt, hslots, stop]
  omega

/-- A slot and the slot of its value have the same global index, up to the extent of a periodic
axis. -/
theorem global_eq (h : ax.Copies c step x y) (hc : ax.HasPosition c) :
    ∃ k : Int, (ax.periodic = false → k = 0) ∧
      ax.globalAt c x = ax.globalAt (step.target c ax.colors) y + k * ax.extent := by
  cases step with
  | back => exact h.global_back hc
  | ahead => exact h.global_ahead hc
  | stay =>
    obtain ⟨i, -, rfl, rfl⟩ := h
    refine ⟨0, fun _ => rfl, ?_⟩
    simp [span, Step.target]

end Copies

end AxisDefinition

/-! ## All axes -/

namespace Slab

/-- The spans of the slab in a direction. -/
def spans : List AxisDefinition → List Nat → Direction → List Span
  | ax :: axes, c :: position, step :: direction =>
    ax.span c step :: spans axes position direction
  | _, _, _ => []

/-- The position that the values of a slab come from. -/
def sourceAt (axes : List AxisDefinition) (position : List Nat) (direction : Direction) : List Nat :=
  direction.target position (axes.map (·.colors))

/-- The local extents at a position. -/
def extents (axes : List AxisDefinition) (position : List Nat) : List Nat :=
  List.zipWith AxisDefinition.slots axes position

/-- On every axis, slot `xs` takes its value from slot `ys` of the position that the direction leads
to. -/
inductive Copies : List AxisDefinition → List Nat → Direction → List Nat → List Nat → Prop
  | nil : Copies [] [] [] [] []
  | cons {ax : AxisDefinition} {axes : List AxisDefinition} {c : Nat} {position : List Nat}
      {step : Step} {direction : Direction} {x y : Nat} {xs ys : List Nat} :
      ax.Copies c step x y → Copies axes position direction xs ys →
        Copies (ax :: axes) (c :: position) (step :: direction) (x :: xs) (y :: ys)

variable {axes : List AxisDefinition} {position : List Nat} {direction : Direction}
  {xs ys : List Nat}

theorem extents_lt (h : AxisDefinition.HasPositions axes position) :
    ∀ size ∈ extents axes position, size < 2 ^ 63 := by
  induction h with
  | nil => exact fun _ hmem => nomatch hmem
  | cons hc _ ih => exact List.forall_mem_cons.mpr ⟨hc.slots_lt, ih⟩

theorem extents_pos (h : AxisDefinition.ArePlaced axes position) :
    ∀ size ∈ extents axes position, 0 < size := by
  induction h with
  | nil => exact fun _ hmem => nomatch hmem
  | cons hc _ ih => exact List.forall_mem_cons.mpr ⟨hc.slots_pos, ih⟩

theorem hasPositions_sourceAt (h : AxisDefinition.HasPositions axes position)
    (hdirection : direction.length = axes.length) :
    AxisDefinition.HasPositions axes (sourceAt axes position direction) := by
  induction h generalizing direction with
  | nil =>
    cases List.eq_nil_of_length_eq_zero hdirection
    exact .nil
  | cons hc _ ih =>
    obtain ⟨step, direction, rfl⟩ := List.exists_cons_of_length_eq_add_one hdirection
    exact .cons ⟨⟨hc.valid, step.target_lt hc.lt⟩, hc.fits⟩ (ih (Nat.succ.inj hdirection))

namespace Copies

theorem length_eq (h : Copies axes position direction xs ys) : direction.length = axes.length := by
  induction h with
  | nil => rfl
  | cons _ _ ih => exact congrArg Nat.succ ih

theorem direction_unique {direction' : Direction} {ys' : List Nat}
    (h : Copies axes position direction xs ys) (h' : Copies axes position direction' xs ys') :
    direction = direction' := by
  induction h generalizing direction' ys' with
  | nil =>
    cases h'
    rfl
  | cons hx _ ih =>
    cases h' with
    | cons hx' h' => rw [hx.step_unique hx', ih h']

/-- What the copies say about one axis. -/
theorem getElem? (h : Copies axes position direction xs ys) {a : Nat} {ax : AxisDefinition}
    (hax : axes[a]? = some ax) : ∃ c step x y, position[a]? = some c ∧ direction[a]? = some step ∧
      xs[a]? = some x ∧ ys[a]? = some y ∧
        (sourceAt axes position direction)[a]? = some (step.target c ax.colors) ∧
          ax.Copies c step x y := by
  induction h generalizing a with
  | nil => cases hax
  | cons hx _ ih =>
    cases a with
    | zero =>
      cases hax
      exact ⟨_, _, _, _, rfl, rfl, rfl, rfl, rfl, hx⟩
    | succ a => exact ih hax

theorem length_xs (h : Copies axes position direction xs ys) : xs.length = axes.length := by
  induction h with
  | nil => rfl
  | cons _ _ ih => exact congrArg Nat.succ ih

theorem length_ys (h : Copies axes position direction xs ys) : ys.length = axes.length := by
  induction h with
  | nil => rfl
  | cons _ _ ih => exact congrArg Nat.succ ih

theorem within (h : Copies axes position direction xs ys) :
    Grid.Within (extents axes position) xs := by
  induction h with
  | nil => exact .nil
  | cons hx _ ih => exact .cons hx.lt_slots ih

theorem within_src (h : Copies axes position direction xs ys)
    (hposition : AxisDefinition.ArePlaced axes position) :
    Grid.Within (extents axes (sourceAt axes position direction)) ys := by
  induction h with
  | nil => exact .nil
  | @cons ax _ c _ step _ _ _ _ _ hx _ ih =>
    cases hposition with
    | cons hc hrest =>
      have hstop : ax.stop (step.target c ax.colors) ≤ ax.slots (step.target c ax.colors) := by
        unfold AxisDefinition.slots
        omega
      exact .cons (Nat.lt_of_lt_of_le (hx.src_owned hc).2 hstop) (ih hrest)

/-- What a value is taken from takes its own value from nowhere else. -/
theorem eq_stay_of_src (h : Copies axes position direction xs ys)
    (hposition : AxisDefinition.ArePlaced axes position) {direction' : Direction} {zs : List Nat}
    (h' : Copies axes (sourceAt axes position direction) direction' ys zs) :
    ∀ step ∈ direction', step = .stay := by
  induction h generalizing direction' zs with
  | nil =>
    cases h'
    exact nofun
  | cons hx _ ih =>
    cases hposition with
    | cons hc hrest =>
      cases h' with
      | cons hy h' =>
        have howned := hx.src_owned hc
        obtain ⟨z, hz⟩ := (@AxisDefinition.exists_copies_iff _ _ _ .stay).mpr howned
        exact List.forall_mem_cons.mpr ⟨hy.step_unique hz, ih hrest h'⟩

end Copies

/-- Coordinates in a zone of every axis are copied in one direction. -/
theorem exists_copies (hlength : axes.length = position.length) (hxs : xs.length = axes.length)
    (hzones : ∀ (a : Nat) (ax : AxisDefinition) (c x : Nat), axes[a]? = some ax →
      position[a]? = some c → xs[a]? = some x →
        ∃ step, (ax.zone c step).start ≤ x ∧ x < (ax.zone c step).stop) :
    ∃ direction ys, Copies axes position direction xs ys := by
  induction axes generalizing position xs with
  | nil =>
    cases List.eq_nil_of_length_eq_zero hlength.symm
    cases List.eq_nil_of_length_eq_zero hxs
    exact ⟨[], [], .nil⟩
  | cons ax axes ih =>
    obtain ⟨c, position, rfl⟩ := List.exists_cons_of_length_eq_add_one hlength.symm
    obtain ⟨x, xs, rfl⟩ := List.exists_cons_of_length_eq_add_one hxs
    obtain ⟨step, hzone⟩ := hzones 0 ax c x rfl rfl rfl
    obtain ⟨y, hx⟩ := AxisDefinition.exists_copies_iff.mpr hzone
    obtain ⟨direction, ys, hrest⟩ := ih (Nat.succ.inj hlength) (Nat.succ.inj hxs)
      fun a ax c x hax hc hx => hzones (a + 1) ax c x hax hc hx
    exact ⟨step :: direction, y :: ys, .cons hx hrest⟩

/-! ## Cells of a slab -/

/-- The slots of a slab with the slots that hold their values, axis 0 running fastest. -/
def cells (axes : List AxisDefinition) (position : List Nat) (direction : Direction) :
    List (List Nat × List Nat) :=
  (Grid.cells ((spans axes position direction).map (·.width))).map fun offsets =>
    (List.zipWith (· + ·) ((spans axes position direction).map (·.dest)) offsets,
      List.zipWith (· + ·) ((spans axes position direction).map (·.src)) offsets)

theorem mem_cells (hlength : axes.length = position.length)
    (hdirection : direction.length = axes.length) :
    (xs, ys) ∈ cells axes position direction ↔ Copies axes position direction xs ys := by
  simp only [cells, List.mem_map, Grid.mem_cells, Prod.mk.injEq]
  constructor
  · rintro ⟨offsets, hoffsets, rfl, rfl⟩
    induction axes generalizing position direction offsets with
    | nil =>
      rw [List.length_nil] at hlength hdirection
      rw [List.eq_nil_of_length_eq_zero hlength.symm, List.eq_nil_of_length_eq_zero hdirection]
      exact .nil
    | cons ax axes ih =>
      obtain ⟨c, position, rfl⟩ := List.exists_cons_of_length_eq_add_one hlength.symm
      obtain ⟨step, direction, rfl⟩ := List.exists_cons_of_length_eq_add_one hdirection
      obtain ⟨i, rest, hi, hrest, rfl⟩ := List.forall₂_cons_left_iff.mp hoffsets
      exact .cons ⟨i, hi, rfl, rfl⟩ (ih (Nat.succ.inj hlength) (Nat.succ.inj hdirection) rest hrest)
  · intro h
    clear hlength hdirection
    induction h with
    | nil => exact ⟨[], .nil, rfl, rfl⟩
    | cons hx _ ih =>
      obtain ⟨i, hi, rfl, rfl⟩ := hx
      obtain ⟨offsets, hoffsets, rfl, rfl⟩ := ih
      exact ⟨i :: offsets, .cons hi hoffsets, rfl, rfl⟩

private theorem zipWith_add_inj {starts xs ys : List Nat} (hxs : xs.length = starts.length)
    (hys : ys.length = starts.length)
    (h : List.zipWith (· + ·) starts xs = List.zipWith (· + ·) starts ys) : xs = ys := by
  induction starts generalizing xs ys with
  | nil => rw [List.eq_nil_of_length_eq_zero hxs, List.eq_nil_of_length_eq_zero hys]
  | cons start starts ih =>
    obtain ⟨x, xs, rfl⟩ := List.exists_cons_of_length_eq_add_one hxs
    obtain ⟨y, ys, rfl⟩ := List.exists_cons_of_length_eq_add_one hys
    obtain ⟨hhead, htail⟩ := List.cons_eq_cons.mp h
    rw [Nat.add_left_cancel hhead, ih (Nat.succ.inj hxs) (Nat.succ.inj hys) htail]

theorem nodup_map_fst_cells (axes : List AxisDefinition) (position : List Nat)
    (direction : Direction) : ((cells axes position direction).map Prod.fst).Nodup := by
  rw [cells, List.map_map]
  refine (Grid.nodup_cells _).map_on ?_
  intro offsets hoffsets others hothers heq
  have hlength := (Grid.mem_cells.mp hoffsets).length_eq
  have hlength' := (Grid.mem_cells.mp hothers).length_eq
  rw [List.length_map] at hlength hlength'
  exact zipWith_add_inj (by rw [List.length_map, hlength]) (by rw [List.length_map, hlength']) heq

/-! ## Elements of a slab -/

/-- The color that the values of a slab come from. -/
def source (axes : List AxisDefinition) (position : List Nat) (direction : Direction) : Nat :=
  Grid.number (axes.map (·.colors)) (sourceAt axes position direction)

/-- The copy of one slot of a slab. -/
def fillOf (axes : List AxisDefinition) (position : List Nat) (direction : Direction)
    (cell : List Nat × List Nat) : Fill where
  dest := Grid.number (extents axes position) cell.1
  source := source axes position direction
  src := Grid.number (extents axes (sourceAt axes position direction)) cell.2

/-- The row of a slab at given offsets along the axes after axis 0. -/
def row (axes : List AxisDefinition) (position : List Nat) (direction : Direction)
    (offsets : List Nat) : Run where
  dest := Grid.number (extents axes position)
    (List.zipWith (· + ·) ((spans axes position direction).map (·.dest)) (0 :: offsets))
  length := ((spans axes position direction).map (·.width)).headD 0
  source := source axes position direction
  src := Grid.number (extents axes (sourceAt axes position direction))
    (List.zipWith (· + ·) ((spans axes position direction).map (·.src)) (0 :: offsets))

/-- The rows of the slab in a direction. There are none if a span is empty. -/
def rows (axes : List AxisDefinition) (position : List Nat) (direction : Direction) : List Run :=
  if (spans axes position direction).any (·.width == 0) then []
  else (Grid.cells ((spans axes position direction).tail.map (·.width))).map
    (row axes position direction)

/-- A box with an empty side has no cells. -/
theorem cells_eq_nil {widths : List Nat} (h : 0 ∈ widths) : Grid.cells widths = [] := by
  refine List.eq_nil_iff_forall_not_mem.mpr fun cs hcs => ?_
  exact absurd ((Grid.mem_cells.mp hcs).pos 0 h) (Nat.lt_irrefl 0)

/-- The elements of the rows are the cells of the slab, in order. -/
theorem flatMap_fills_rows (haxes : axes ≠ []) (hlength : axes.length = position.length)
    (hdirection : direction.length = axes.length) :
    (rows axes position direction).flatMap Run.fills =
      (cells axes position direction).map (fillOf axes position direction) := by
  obtain ⟨ax, axes, rfl⟩ := List.exists_cons_of_ne_nil haxes
  obtain ⟨c, position, rfl⟩ := List.exists_cons_of_length_eq_add_one hlength.symm
  obtain ⟨step, direction, rfl⟩ := List.exists_cons_of_length_eq_add_one hdirection
  rw [rows]
  split
  · rename_i hempty
    have hmem : 0 ∈ (spans (ax :: axes) (c :: position) (step :: direction)).map (·.width) := by
      simpa [List.mem_map] using hempty
    rw [cells, cells_eq_nil hmem]
    rfl
  · simp only [cells, spans, List.map_cons, List.tail_cons, Grid.cells, List.map_flatMap,
      List.flatMap_map]
    refine List.flatMap_congr fun offsets _ => ?_
    rw [Run.fills, List.map_map, List.map_map]
    refine List.map_congr_left fun i _ => ?_
    -- Along a row both numbers grow with the offset on axis 0.
    refine Fill.mk.injEq .. ▸ ⟨?_, rfl, ?_⟩
    · exact (Grid.number_cons_add _ _ _ _ _).symm
    · exact (Grid.number_cons_add _ _ _ _ _).symm

theorem length_pos_of_mem_rows (haxes : axes ≠ []) (hlength : axes.length = position.length)
    (hdirection : direction.length = axes.length) {r : Run}
    (hr : r ∈ rows axes position direction) : 0 < r.length := by
  obtain ⟨ax, axes, rfl⟩ := List.exists_cons_of_ne_nil haxes
  obtain ⟨c, position, rfl⟩ := List.exists_cons_of_length_eq_add_one hlength.symm
  obtain ⟨step, direction, rfl⟩ := List.exists_cons_of_length_eq_add_one hdirection
  rw [rows] at hr
  split at hr
  · cases hr
  · rename_i hfull
    obtain ⟨offsets, _, rfl⟩ := List.mem_map.mp hr
    refine Nat.pos_of_ne_zero fun hzero => hfull ?_
    rw [spans, List.any_cons, Bool.or_eq_true]
    exact .inl (beq_iff_eq.mpr hzero)

end Slab

end HaloMesh
