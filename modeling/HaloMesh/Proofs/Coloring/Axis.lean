-- SUMMARY: What one color stores along one axis, in plain numbers, and that coloring an axis computes it.
import HaloMesh.Coloring.IndexColoring
import HaloMesh.Proofs.Coloring.Block

/-!
# Coloring one axis

An axis that passes validation can be split, and if its extent with padding on both sides is a
global coordinate, no step of the coloring faults. The widths of ghosts, padding and owned block at
a position are stated here in plain numbers, and `AxisColoring.of` is shown to compute them.
-/

namespace HaloMesh

namespace AxisDefinition

/-! ## Axes that can be colored -/

/-- There are colors, each gets an index, and ghosts reach no further than the smallest block. -/
structure Valid (ax : AxisDefinition) : Prop where
  colors_pos : 0 < ax.colors
  colors_le : ax.colors ≤ ax.extent
  halo_le : ax.hasGhosts = true → ax.halo ≤ ax.extent / ax.colors

/-- The extent with ghosts and padding on both sides is a global coordinate. -/
def Fits (ax : AxisDefinition) : Prop := ax.extent + 2 * (ax.halo + ax.boundary) < 2 ^ 63

/-- A position on an axis that can be split. -/
structure Placed (ax : AxisDefinition) (c : Nat) : Prop where
  valid : ax.Valid
  lt : c < ax.colors

/-- A position on an axis that can be colored. -/
structure HasPosition (ax : AxisDefinition) (c : Nat) : Prop extends ax.Placed c where
  fits : ax.Fits

theorem valid_of_checkAxis {a : Nat} {ax : AxisDefinition}
    (h : ColoringDefinition.checkAxis a ax = .ok ()) : ax.Valid := by
  unfold ColoringDefinition.checkAxis at h
  split at h
  · cases h
  split at h
  · cases h
  split at h
  · cases h
  rename_i hcolors hextent hhalo
  refine ⟨Nat.pos_of_ne_zero hcolors, Nat.le_of_not_lt hextent, fun hghosts => ?_⟩
  simpa [hghosts] using hhalo

/-! ## Widths along an axis -/

section
variable (ax : AxisDefinition) (c : Nat)

/-- The global index at which the block starts. -/
def offset : Nat := Block.offsetAt ax.extent ax.colors c

/-- The number of owned indices. -/
def owned : Nat := Block.sizeAt ax.extent ax.colors c

def touchesLow : Bool := !ax.periodic && c == 0

def touchesHigh : Bool := !ax.periodic && c + 1 == ax.colors

def ghostLow : Nat := if ax.touchesLow c then 0 else ax.halo

def ghostHigh : Nat := if ax.touchesHigh c then 0 else ax.halo

def padLow : Nat := if ax.touchesLow c then ax.boundary else 0

def padHigh : Nat := if ax.touchesHigh c then ax.boundary else 0

/-- The first owned slot. -/
def start : Nat := ax.ghostLow c + ax.padLow c

/-- The first slot after the owned ones. -/
def stop : Nat := ax.start c + ax.owned c

/-- The global index of a slot. It lies outside the axis if the slot is not owned. -/
def globalAt (slot : Nat) : Int := (ax.offset c : Int) - ax.start c + slot

/-- The number of slots. -/
def slots : Nat := ax.stop c + ax.padHigh c + ax.ghostHigh c

end

variable {ax : AxisDefinition} {c : Nat}

theorem ghostLow_add_padLow_le (ax : AxisDefinition) (c : Nat) :
    ax.ghostLow c + ax.padLow c ≤ ax.halo + ax.boundary := by
  unfold ghostLow padLow
  split <;> omega

theorem padHigh_add_ghostHigh_le (ax : AxisDefinition) (c : Nat) :
    ax.padHigh c + ax.ghostHigh c ≤ ax.halo + ax.boundary := by
  unfold ghostHigh padHigh
  split <;> omega

namespace Placed

theorem owned_pos (h : ax.Placed c) : 0 < ax.owned c :=
  Block.sizeAt_pos h.valid.colors_pos h.valid.colors_le c

theorem slots_pos (h : ax.Placed c) : 0 < ax.slots c := by
  have := h.owned_pos
  unfold slots stop
  omega

theorem offset_add_owned_le (h : ax.Placed c) : ax.offset c + ax.owned c ≤ ax.extent :=
  Block.offsetAt_add_sizeAt_le h.lt

/-- The block starts at index 0 exactly at position 0. -/
theorem offset_eq_zero_iff (h : ax.Placed c) : ax.offset c = 0 ↔ c = 0 := by
  constructor
  · intro hzero
    rcases Nat.eq_zero_or_pos c with hc | hc
    · exact hc
    · have := Block.offsetAt_pos h.valid.colors_pos h.valid.colors_le hc
      unfold offset at hzero
      omega
  · rintro rfl
    exact Block.offsetAt_zero

/-- The block ends at the extent exactly at the last position. -/
theorem stop_eq_extent_iff (h : ax.Placed c) :
    ax.offset c + ax.owned c = ax.extent ↔ c + 1 = ax.colors := by
  have hlt := h.lt
  constructor
  · intro hstop
    rcases Nat.lt_or_ge (c + 1) ax.colors with hc | hc
    · have := Block.stop_lt_of_not_last h.valid.colors_pos h.valid.colors_le hc
      unfold offset owned at hstop
      omega
    · omega
  · intro hlast
    rw [offset, owned, ← Block.offsetAt_succ, hlast]
    exact Block.offsetAt_colors h.valid.colors_pos

/-- Ghosts lie only where the axis borders on another color or wraps around, so they are no wider
than any block. -/
theorem ghostLow_le_owned (h : ax.Placed c) (d : Nat) : ax.ghostLow c ≤ ax.owned d := by
  have hlt := h.lt
  unfold ghostLow
  split
  · exact Nat.zero_le _
  · rename_i hlow
    have hghosts : ax.hasGhosts = true := by
      simp only [touchesLow, AxisDefinition.hasGhosts] at hlow ⊢
      rcases Bool.eq_false_or_eq_true ax.periodic with hp | hp
      · simp [hp]
      · simp only [hp, Bool.not_false, Bool.true_and, beq_iff_eq] at hlow
        simp only [gt_iff_lt, Bool.or_eq_true, decide_eq_true_eq]
        omega
    exact Nat.le_trans (h.valid.halo_le hghosts) (Block.div_le_sizeAt d)

theorem ghostHigh_le_owned (h : ax.Placed c) (d : Nat) : ax.ghostHigh c ≤ ax.owned d := by
  have hlt := h.lt
  unfold ghostHigh
  split
  · exact Nat.zero_le _
  · rename_i hhigh
    have hghosts : ax.hasGhosts = true := by
      simp only [touchesHigh, AxisDefinition.hasGhosts] at hhigh ⊢
      rcases Bool.eq_false_or_eq_true ax.periodic with hp | hp
      · simp [hp]
      · simp only [hp, Bool.not_false, Bool.true_and, beq_iff_eq] at hhigh
        simp only [gt_iff_lt, Bool.or_eq_true, decide_eq_true_eq]
        omega
    exact Nat.le_trans (h.valid.halo_le hghosts) (Block.div_le_sizeAt d)

end Placed

theorem HasPosition.slots_lt (h : ax.HasPosition c) : ax.slots c < 2 ^ 63 := by
  have hblock := h.offset_add_owned_le
  have hlow := ghostLow_add_padLow_le ax c
  have hhigh := padHigh_add_ghostHigh_le ax c
  have hfits := h.fits
  unfold Fits at hfits
  unfold slots stop start
  omega

/-! ## The coloring of an axis -/

/-- What the color at position `c` stores of the axis. -/
def coloring (ax : AxisDefinition) (c : Nat) : AxisColoring where
  global := ax.extent
  offset := ax.offset c
  extent := ax.slots c
  logicalLow := ax.offset c
  logicalHigh := (ax.offset c + ax.owned c : Nat)
  extendedLow := ax.offset c - ax.padLow c
  extendedHigh := (ax.offset c + ax.owned c + ax.padHigh c : Nat)
  low := ax.touchesLow c
  high := ax.touchesHigh c

/-- What the color at position `c` stores of the axis, with global coordinates that wrap around. -/
def recorded (ax : AxisDefinition) (c : Nat) : AxisColoring where
  global := ax.extent
  offset := ax.offset c
  extent := ax.slots c
  logicalLow := Signed.ofSize (ax.offset c)
  logicalHigh := Signed.ofSize (ax.offset c + ax.owned c)
  extendedLow := Signed.ofSize (ax.offset c) - Signed.ofSize (ax.padLow c)
  extendedHigh := Signed.ofSize (ax.offset c + ax.owned c + ax.padHigh c)
  low := ax.touchesLow c
  high := ax.touchesHigh c

/-- No number that is computed for the position leaves its range. -/
structure Colorable (ax : AxisDefinition) (c : Nat) : Prop where
  slots_lt : ax.slots c < Word.limit
  high_lt : ax.offset c + ax.owned c + ax.padHigh c < Word.limit
  low_inRange : Signed.InRange (Signed.ofSize (ax.offset c) - Signed.ofSize (ax.padLow c))

/-- Besides, the distance of the corners of owned block and padding is a global coordinate. -/
structure Storable (ax : AxisDefinition) (c : Nat) : Prop extends ax.Colorable c where
  extended_inRange : Signed.InRange (Signed.ofSize (ax.offset c + ax.owned c + ax.padHigh c) -
    (Signed.ofSize (ax.offset c) - Signed.ofSize (ax.padLow c)))

variable {ax : AxisDefinition} {c : Nat}

theorem sum_widths (ax : AxisDefinition) (c : Nat) :
    [ax.ghostLow c, ax.padLow c, ax.owned c, ax.padHigh c, ax.ghostHigh c].sum = ax.slots c := by
  simp only [List.sum_cons, List.sum_nil, slots, stop, start]
  omega

namespace HasPosition

theorem high_lt (h : ax.HasPosition c) : ax.offset c + ax.owned c + ax.padHigh c < 2 ^ 63 := by
  have hfits := h.fits
  have hstop := h.offset_add_owned_le
  have hhigh := padHigh_add_ghostHigh_le ax c
  unfold Fits at hfits
  omega

theorem padLow_lt (h : ax.HasPosition c) : ax.padLow c < 2 ^ 63 := by
  have hfits := h.fits
  have hlow := ghostLow_add_padLow_le ax c
  unfold Fits at hfits
  omega

theorem colorable (h : ax.HasPosition c) : ax.Colorable c where
  slots_lt := Word.lt_limit h.slots_lt
  high_lt := Word.lt_limit h.high_lt
  low_inRange := by
    have hhigh := h.high_lt
    have hpad := h.padLow_lt
    rw [Signed.ofSize_of_lt (by omega), Signed.ofSize_of_lt (by omega)]
    unfold Signed.InRange
    omega

theorem storable (h : ax.HasPosition c) : ax.Storable c where
  toColorable := h.colorable
  extended_inRange := by
    have hhigh := h.high_lt
    have hpad := h.padLow_lt
    rw [Signed.ofSize_of_lt hhigh, Signed.ofSize_of_lt (by omega), Signed.ofSize_of_lt hpad]
    have hslots := h.slots_lt
    unfold slots stop start at hslots
    unfold Signed.InRange
    omega

/-- On an axis that fits no coordinate wraps around. -/
theorem recorded_eq (h : ax.HasPosition c) : ax.recorded c = ax.coloring c := by
  have hhigh := h.high_lt
  have hpad := h.padLow_lt
  simp only [recorded, Signed.ofSize_of_lt hhigh, Signed.ofSize_of_lt hpad,
    Signed.ofSize_of_lt (Nat.lt_of_le_of_lt (Nat.le_add_right _ _) hhigh),
    Signed.ofSize_of_lt (Nat.lt_of_le_of_lt (Nat.le_add_right _ _)
      (Nat.lt_of_le_of_lt (Nat.le_add_right _ _) hhigh))]
  rfl

end HasPosition

end AxisDefinition

/-- Coloring an axis faults exactly if a number leaves its range. -/
theorem AxisColoring.of_eq_ok_iff {ax : AxisDefinition} {c : Nat} {part : AxisColoring}
    (h : ax.Placed c) : AxisColoring.of ax c = .ok part ↔ ax.Colorable c ∧ part = ax.recorded c := by
  have htouchLow : (!ax.periodic && ax.offset c == 0) = ax.touchesLow c := by
    rw [AxisDefinition.touchesLow, Bool.eq_iff_iff]
    simp [h.offset_eq_zero_iff]
  have htouchHigh : (!ax.periodic && ax.offset c + ax.owned c == ax.extent) = ax.touchesHigh c := by
    rw [AxisDefinition.touchesHigh, Bool.eq_iff_iff]
    simp [h.stop_eq_extent_iff]
  unfold AxisColoring.of
  constructor
  · intro hof
    obtain ⟨block, hblock, hof⟩ := Checked.bind_eq_ok_iff.mp hof
    obtain ⟨-, rfl⟩ := (Block.of_eq_ok_iff h.valid.colors_pos).mp hblock
    obtain ⟨stop, hstop, hof⟩ := Checked.bind_eq_ok_iff.mp hof
    obtain ⟨-, rfl⟩ := Word.add_eq_ok_iff.mp hstop
    simp only [← AxisDefinition.offset.eq_1, ← AxisDefinition.owned.eq_1, htouchLow, htouchHigh,
      ← AxisDefinition.padLow.eq_1, ← AxisDefinition.padHigh.eq_1,
      ← AxisDefinition.ghostLow.eq_1, ← AxisDefinition.ghostHigh.eq_1] at hof
    obtain ⟨slots, hsum, hof⟩ := Checked.bind_eq_ok_iff.mp hof
    obtain ⟨hslots, hsum⟩ := Word.sum_eq_ok_iff.mp hsum
    obtain ⟨low, hsub, hof⟩ := Checked.bind_eq_ok_iff.mp hof
    obtain ⟨hlow, hsub⟩ := Signed.sub_eq_ok_iff.mp hsub
    obtain ⟨high, hadd, hof⟩ := Checked.bind_eq_ok_iff.mp hof
    obtain ⟨hhigh, hadd⟩ := Word.add_eq_ok_iff.mp hadd
    rw [AxisDefinition.sum_widths] at hslots hsum
    rw [hsum, hsub, hadd] at hof
    exact ⟨⟨hslots, hhigh, hlow⟩, (Except.ok.inj hof).symm⟩
  · rintro ⟨⟨hslots, hhigh, hlow⟩, rfl⟩
    have hstop : ax.offset c + ax.owned c < Word.limit :=
      Nat.lt_of_le_of_lt (Nat.le_add_right _ _) hhigh
    have hblock : Block.of ax.extent ax.colors c = .ok ⟨ax.offset c, ax.owned c⟩ :=
      (Block.of_eq_ok_iff h.valid.colors_pos).mpr ⟨⟨Nat.lt_of_le_of_lt (Nat.le_add_right _ _) hstop,
        Nat.lt_of_le_of_lt (Nat.le_add_left _ _) hstop⟩, rfl⟩
    have hsum : Word.sum [ax.ghostLow c, ax.padLow c, ax.owned c, ax.padHigh c, ax.ghostHigh c] =
        .ok (ax.slots c) :=
      Word.sum_eq_ok_iff.mpr ⟨(AxisDefinition.sum_widths ax c).symm ▸ hslots,
        (AxisDefinition.sum_widths ax c).symm⟩
    simp only [hblock, Checked.ok_bind, Word.add_of_lt hstop, htouchLow, htouchHigh,
      ← AxisDefinition.padLow.eq_1, ← AxisDefinition.padHigh.eq_1, ← AxisDefinition.ghostLow.eq_1,
      ← AxisDefinition.ghostHigh.eq_1, hsum, Signed.sub_eq_ok_iff.mpr ⟨hlow, rfl⟩,
      Word.add_of_lt hhigh]
    rfl

end HaloMesh
