-- SUMMARY: The records of a coloring can be written and read back, since their numbers fit the widths of their layouts.
import HaloMesh.Codec.Records
import HaloMesh.Proofs.Codec.Delimited
import HaloMesh.Proofs.Coloring.Layout

/-!
# Writing records

A record can be written if its lists are not too long and its numbers fit the widths at which they
are written. Then its layout delimits it. The coloring input of a valid index space that fits the
global coordinates can be written, and so can what a color stores of it.
-/

namespace HaloMesh

/-! ## Records that can be written -/

namespace Codec

/-- The numbers of a list, and how many there are, are sizes. -/
def Words (ns : List Nat) : Prop := ns.length < Word.limit ∧ ∀ n ∈ ns, n < Word.limit

/-- The numbers of a list are global coordinates, and how many there are is a size. -/
def Coordinates (zs : List Int) : Prop := zs.length < Word.limit ∧ ∀ z ∈ zs, Signed.InRange z

instance (ns : List Nat) : Decidable (Words ns) := inferInstanceAs (Decidable (_ ∧ _))

instance (zs : List Int) : Decidable (Coordinates zs) := inferInstanceAs (Decidable (_ ∧ _))

theorem delimitsAt_words {ns : List Nat} (h : Words ns) : (list word).DelimitsAt ns :=
  delimitsAt_list h.1 fun n hn => delimitsAt_word (h.2 n hn)

theorem delimitsAt_coordinates {zs : List Int} (h : Coordinates zs) : (list signed).DelimitsAt zs :=
  delimitsAt_list h.1 fun z hz => delimitsAt_signed (h.2 z hz)

/-- The same number of each of several axes. -/
theorem words_map {α : Type} {f : α → Nat} {as : List α} (hlength : as.length < Word.limit)
    (h : ∀ a ∈ as, f a < Word.limit) : Words (as.map f) := by
  refine ⟨by rwa [List.length_map], fun n hn => ?_⟩
  obtain ⟨a, ha, rfl⟩ := List.mem_map.mp hn
  exact h a ha

theorem coordinates_map {α : Type} {f : α → Int} {as : List α} (hlength : as.length < Word.limit)
    (h : ∀ a ∈ as, Signed.InRange (f a)) : Coordinates (as.map f) := by
  refine ⟨by rwa [List.length_map], fun n hn => ?_⟩
  obtain ⟨a, ha, rfl⟩ := List.mem_map.mp hn
  exact h a ha

end Codec

open Codec

namespace ColoringDefinition

structure Writable (d : ColoringDefinition) : Prop where
  axisColors : Words d.axisColors
  axisExtents : Words d.axisExtents
  haloDepths : Words d.haloDepths
  boundaryDepths : Words d.boundaryDepths
  periodic : d.periodic.length < Word.limit

theorem delimitsAt_codec {d : ColoringDefinition} (h : d.Writable) : codec.DelimitsAt d := by
  unfold codec
  refine DelimitsAt.iso ?_ rfl
  have hperiodic : (list bool).DelimitsAt d.periodic :=
    delimitsAt_list h.periodic fun b _ => delimitsAt_bool b
  exact (delimitsAt_words h.axisColors).pair ((delimitsAt_words h.axisExtents).pair
    ((delimitsAt_words h.haloDepths).pair ((delimitsAt_words h.boundaryDepths).pair hperiodic)))

end ColoringDefinition

namespace ColoringSpec

structure Writable (spec : ColoringSpec) : Prop where
  length_lt : spec.indexSpaces.length < Word.limit
  space : ∀ d ∈ spec.indexSpaces, d.Writable

theorem delimitsAt_codec {spec : ColoringSpec} (h : spec.Writable) : codec.DelimitsAt spec := by
  refine DelimitsAt.iso ?_ rfl
  exact delimitsAt_list h.length_lt fun d hd => ColoringDefinition.delimitsAt_codec (h.space d hd)

end ColoringSpec

namespace Hypercube

structure Writable (box : Hypercube) : Prop where
  low : Coordinates box.low
  high : Coordinates box.high

theorem delimitsAt_codec {box : Hypercube} (h : box.Writable) : codec.DelimitsAt box := by
  refine DelimitsAt.iso ?_ rfl
  exact (delimitsAt_coordinates h.low).pair (delimitsAt_coordinates h.high)

end Hypercube

namespace IndexColoring

structure Writable (ic : IndexColoring) : Prop where
  global : Words ic.global
  offset : Words ic.offset
  extents : Words ic.extents
  logical : ic.logical.Writable
  extended : ic.extended.Writable
  faces : ic.faces < 2 ^ 32

theorem delimitsAt_codec {ic : IndexColoring} (h : ic.Writable) : codec.DelimitsAt ic := by
  unfold codec
  refine DelimitsAt.iso ?_ rfl
  exact (delimitsAt_words h.global).pair ((delimitsAt_words h.offset).pair ((delimitsAt_words h.extents).pair
    ((Hypercube.delimitsAt_codec h.logical).pair ((Hypercube.delimitsAt_codec h.extended).pair
      (delimitsAt_word32 h.faces)))))

end IndexColoring

namespace ColorMeta

structure Writable (m : ColorMeta) : Prop where
  color : m.color < Word.limit
  length_lt : m.spaces.length < Word.limit
  space : ∀ ic ∈ m.spaces, ic.Writable

theorem delimitsAt_codec {m : ColorMeta} (h : m.Writable) : codec.DelimitsAt m := by
  refine DelimitsAt.iso ?_ rfl
  exact (delimitsAt_word h.color).pair
    (delimitsAt_list h.length_lt fun ic hic => IndexColoring.delimitsAt_codec (h.space ic hic))

end ColorMeta

/-! ## Coloring inputs -/

/-- The input of an index space that fits the global coordinates. -/
theorem ColoringDefinition.Valid.writable {d : ColoringDefinition} (h : d.Valid) (hfits : d.Fits) :
    d.Writable := by
  have hlength : d.axes.length < Word.limit := Nat.lt_of_le_of_lt h.dimension_le (by decide)
  have haxis : ∀ ax ∈ d.axes, ax.colors < 2 ^ 63 ∧ ax.extent < 2 ^ 63 ∧ ax.halo < 2 ^ 63 ∧
      ax.boundary < 2 ^ 63 := by
    intro ax hax
    have hle := (h.axis_valid ax hax).colors_le
    have hfit := hfits ax hax
    unfold AxisDefinition.Fits at hfit
    omega
  rw [← h.ofAxes_axes]
  exact {
    axisColors := words_map hlength fun ax hax => Word.lt_limit (haxis ax hax).1
    axisExtents := words_map hlength fun ax hax => Word.lt_limit (haxis ax hax).2.1
    haloDepths := words_map hlength fun ax hax => Word.lt_limit (haxis ax hax).2.2.1
    boundaryDepths := words_map hlength fun ax hax => Word.lt_limit (haxis ax hax).2.2.2
    periodic := by
      show (d.axes.map (·.periodic)).length < Word.limit
      rwa [List.length_map] }

/-! ## The records of colors -/

/-- What a color stores of an axis is in range. -/
structure AxisColoring.Writable (part : AxisColoring) : Prop where
  global : part.global < Word.limit
  offset : part.offset < Word.limit
  extent : part.extent < Word.limit
  logicalLow : Signed.InRange part.logicalLow
  logicalHigh : Signed.InRange part.logicalHigh
  extendedLow : Signed.InRange part.extendedLow
  extendedHigh : Signed.InRange part.extendedHigh

/-- Every number that is stored has been checked when it was computed, apart from the extent. -/
theorem AxisColoring.writable_of {ax : AxisDefinition} {c : Nat} {part : AxisColoring}
    (h : of ax c = .ok part) (hextent : ax.extent < Word.limit) : part.Writable := by
  simp only [of, Block.of, Checked.bind_eq_ok_iff, Checked.pure_eq_ok, Except.ok.injEq] at h
  obtain ⟨_, ⟨base, _, extra, _, size, hsize, _, _, offset, hoffset, rfl⟩, stop, hstop, extent, hsum,
    low, hlow, high, hhigh, rfl⟩ := h
  obtain ⟨hoffsetLt, hoffsetEq⟩ := Word.add_eq_ok_iff.mp hoffset
  obtain ⟨hlowRange, hlowEq⟩ := Signed.sub_eq_ok_iff.mp hlow
  constructor
  case global => exact hextent
  case offset => exact hoffsetEq ▸ hoffsetLt
  case extent => exact Word.lt_limit_of_sum hsum
  case extendedLow => exact hlowEq ▸ hlowRange
  all_goals
    dsimp only
    exact Signed.inRange_ofSize _

namespace IndexColoring

/-- The face bits of all axes fit the mask. -/
theorem foldl_or_lt {parts : List (AxisColoring × Nat)} (h : ∀ part ∈ parts, part.2 < 2 ^ 32)
    {mask : Nat} (hmask : mask < 2 ^ 32) :
    parts.foldl (fun mask part => mask ||| part.2) mask < 2 ^ 32 := by
  induction parts generalizing mask with
  | nil => exact hmask
  | cons part parts ih =>
    rw [List.foldl_cons]
    apply ih
    · exact fun part' hpart' => h part' (by simp [hpart'])
    · exact Nat.or_lt_two_pow hmask (h part (by simp))

theorem faceBits_lt {part : AxisColoring} {a bits : Nat} (h : part.faceBits a = .ok bits) :
    bits < 2 ^ 32 := by
  unfold AxisColoring.faceBits at h
  split at h
  · rename_i ha
    cases h
    have hlow := Bool.toNat_le part.low
    have hhigh := Bool.toNat_le part.high
    have hfour : part.low.toNat + 2 * part.high.toNat < 2 ^ 2 := by omega
    have hexp : 2 * a + 2 ≤ 32 := by omega
    calc (part.low.toNat + 2 * part.high.toNat) <<< (2 * a)
        = (part.low.toNat + 2 * part.high.toNat) * 2 ^ (2 * a) := Nat.shiftLeft_eq ..
      _ < 2 ^ 2 * 2 ^ (2 * a) := Nat.mul_lt_mul_of_pos_right hfour (Nat.two_pow_pos _)
      _ = 2 ^ (2 * a + 2) := by rw [Nat.pow_add, Nat.mul_comm]
      _ ≤ 2 ^ 32 := Nat.pow_le_pow_right (by decide) hexp
  · cases h

theorem writable_ofParts {parts : List (AxisColoring × Nat)} (hlength : parts.length < Word.limit)
    (h : ∀ part ∈ parts, part.1.Writable ∧ part.2 < 2 ^ 32) : (ofParts parts).Writable where
  global := words_map hlength fun part hpart => (h part hpart).1.global
  offset := words_map hlength fun part hpart => (h part hpart).1.offset
  extents := words_map hlength fun part hpart => (h part hpart).1.extent
  logical := ⟨coordinates_map hlength fun part hpart => (h part hpart).1.logicalLow,
    coordinates_map hlength fun part hpart => (h part hpart).1.logicalHigh⟩
  extended := ⟨coordinates_map hlength fun part hpart => (h part hpart).1.extendedLow,
    coordinates_map hlength fun part hpart => (h part hpart).1.extendedHigh⟩
  faces := foldl_or_lt (fun part hpart => (h part hpart).2) (by decide)

/-- What a color stores of an index space can be written if the input of the space can. -/
theorem writable_of {d : ColoringDefinition} (hd : d.Writable) {color : Nat} {ic : IndexColoring}
    (h : of d color = .ok ic) : ic.Writable := by
  simp only [of, Checked.bind_eq_ok_iff, Checked.pure_eq_ok, Except.ok.injEq] at h
  obtain ⟨position, hposition, parts, hparts, rfl⟩ := h
  rw [Checked.mapM_eq_ok_iff] at hparts
  apply writable_ofParts
  · rw [← hparts.length_eq, List.length_zipIdx, Grid.length_of_coords hposition]
    exact hd.axisColors.1
  · intro part hpart
    obtain ⟨a, ha⟩ := List.mem_iff_getElem?.mp hpart
    obtain ⟨_, _, hstep⟩ := Checked.getElem?_of_forall₂ hparts.flip ha
    simp only [axisPart, Checked.bind_eq_ok_iff, Checked.pure_eq_ok, Except.ok.injEq] at hstep
    obtain ⟨ax, hax, axis, haxis, bits, hbits, rfl⟩ := hstep
    simp only [ColoringDefinition.axis, Checked.bind_eq_ok_iff, Checked.pure_eq_ok,
      Except.ok.injEq] at hax
    obtain ⟨_, _, extent, hextent, _, _, _, _, _, _, rfl⟩ := hax
    have hextent := hd.axisExtents.2 extent (List.mem_of_getElem? (fetch_eq_ok_iff.mp hextent))
    exact ⟨AxisColoring.writable_of haxis hextent, faceBits_lt hbits⟩

end IndexColoring

end HaloMesh
