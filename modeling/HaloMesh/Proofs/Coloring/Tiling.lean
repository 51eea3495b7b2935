-- SUMMARY: The colors of a valid spec tile the global index space.
import HaloMesh.Proofs.Coloring.Spec

/-!
# Tilings

The owned boxes of the colors of an index space are products of blocks, one per axis. An axis is cut
into its blocks, so a global index lies in one block of each axis, the blocks give a position in the
color grid, and the position is that of one color. The coloring of a spec therefore splits every
index space among the colors, with no index left over and none given out twice.
-/

namespace HaloMesh

/-! ## Boxes -/

namespace Hypercube

/-- A global index vector lies between the corners of a box on every axis. -/
def Contains (box : Hypercube) (g : List Int) : Prop :=
  List.Forall₂ (· ≤ ·) box.low g ∧ List.Forall₂ (· < ·) g box.high

/-- On every axis the box has an index. -/
def HasVolume (box : Hypercube) : Prop := List.Forall₂ (· < ·) box.low box.high

/-- On every axis the box starts and stops within the bounds of another. -/
def Inside (box other : Hypercube) : Prop :=
  List.Forall₂ (· ≤ ·) other.low box.low ∧ List.Forall₂ (· ≤ ·) box.high other.high

end Hypercube

/-- The global index space, which starts at index 0 on every axis. -/
def ColoringDefinition.box (d : ColoringDefinition) : Hypercube where
  low := d.axisExtents.map fun _ => 0
  high := d.axisExtents.map Int.ofNat

/-! ## Blocks of an axis -/

/-- The positions of an axis own consecutive blocks of the given sizes, which get no larger from one
position to the next, differ by at most one and use the extent up. -/
structure AxisDefinition.SplitInto (ax : AxisDefinition) (size : Nat → Nat) : Prop where
  antitone : ∀ {c c' : Nat}, c ≤ c' → c' < ax.colors → size c' ≤ size c
  even : ∀ {c c' : Nat}, c < ax.colors → c' < ax.colors → size c ≤ size c' + 1
  total : ((List.range ax.colors).map size).sum = ax.extent
  block_eq : ∀ {c : Nat}, c < ax.colors →
    Block.of ax.extent ax.colors c = .ok ⟨((List.range c).map size).sum, size c⟩

theorem AxisDefinition.splitInto_owned {ax : AxisDefinition} (h : ax.Valid) (hfits : ax.Fits) :
    ax.SplitInto ax.owned where
  antitone hle _ := Block.sizeAt_antitone hle
  even _ _ := Block.sizeAt_le_succ _ _
  total := by
    have hsum : ax.offset ax.colors = _ := Block.offsetAt_eq_sum ax.colors
    rw [AxisDefinition.offset, Block.offsetAt_colors h.colors_pos] at hsum
    exact hsum.symm
  block_eq := by
    intro c hc
    have hextent : ax.extent < 2 ^ 63 := by
      unfold AxisDefinition.Fits at hfits
      omega
    rw [Block.of_eq_ok hc (Word.lt_limit hextent), Block.offsetAt_eq_sum]
    rfl

/-! ## Owned boxes -/

namespace IndexColoring

/-- An index vector lies in the owned box of exactly one position. -/
theorem existsUnique_ownedBox {axes : List AxisDefinition} (haxes : ∀ ax ∈ axes, ax.Valid)
    {g : List Int} (hg : (ColoringDefinition.ofAxes axes).box.Contains g) :
    ∃! position, Grid.Within (axes.map (·.colors)) position ∧
      (ownedBox axes position).Contains g := by
  induction axes generalizing g with
  | nil =>
    cases List.forall₂_nil_left_iff.mp hg.1
    refine ⟨[], ⟨.nil, .nil, .nil⟩, ?_⟩
    rintro position ⟨hposition, -⟩
    exact List.forall₂_nil_left_iff.mp hposition
  | cons ax axes ih =>
    obtain ⟨hlows, hhighs⟩ := hg
    obtain ⟨i, g, hlow, hbelow, rfl⟩ := List.forall₂_cons_left_iff.mp hlows
    obtain ⟨hhigh, habove⟩ := List.forall₂_cons.mp hhighs
    have hvalid := haxes ax (by simp)
    obtain ⟨position, ⟨hwithin, hbelow, habove⟩, hunique⟩ :=
      ih (fun ax hax => haxes ax (by simp [hax])) ⟨hbelow, habove⟩
    obtain ⟨n, rfl⟩ := Int.eq_ofNat_of_zero_le hlow
    obtain ⟨c, ⟨hc, hstart, hstop⟩, hblock⟩ :=
      Block.existsUnique_block hvalid.colors_pos (Int.ofNat_lt.mp hhigh)
    refine ⟨c :: position, ⟨.cons hc hwithin, .cons (Int.ofNat_le.mpr hstart) hbelow,
      .cons (Int.ofNat_lt.mpr hstop) habove⟩, ?_⟩
    rintro other ⟨hother, hbelow', habove'⟩
    obtain ⟨c', rest, hc', hrest, rfl⟩ := List.forall₂_cons_left_iff.mp hother
    obtain ⟨hstart', hbelow'⟩ := List.forall₂_cons.mp hbelow'
    obtain ⟨hstop', habove'⟩ := List.forall₂_cons.mp habove'
    rw [hblock c' ⟨hc', Int.ofNat_le.mp hstart', Int.ofNat_lt.mp hstop'⟩,
      hunique rest ⟨hrest, hbelow', habove'⟩]

theorem hasVolume_ownedBox {axes : List AxisDefinition} {position : List Nat}
    (h : AxisDefinition.HasPositions axes position) : (ownedBox axes position).HasVolume := by
  induction h with
  | nil => exact .nil
  | cons hc _ ih =>
    have := hc.owned_pos
    exact .cons (Int.ofNat_lt.mpr (by omega)) ih

theorem ownedBox_inside {axes : List AxisDefinition} {position : List Nat}
    (h : AxisDefinition.HasPositions axes position) :
    (ownedBox axes position).Inside (ColoringDefinition.ofAxes axes).box := by
  induction h with
  | nil => exact ⟨.nil, .nil⟩
  | cons hc _ ih =>
    exact ⟨.cons (Int.natCast_nonneg _) ih.1, .cons (Int.ofNat_le.mpr hc.offset_add_owned_le) ih.2⟩

end IndexColoring

/-! ## Colorings -/

namespace Coloring

/-- The owned boxes of the colors split an index space, along each axis into the blocks of the
axis. -/
structure Tiles (d : ColoringDefinition) (parts : List IndexColoring) : Prop where
  length_eq : d.colors = .ok parts.length
  hasVolume : ∀ part ∈ parts, part.logical.HasVolume
  inside : ∀ part ∈ parts, part.logical.Inside d.box
  unique : ∀ g, d.box.Contains g →
    ∃! color : Nat, ∃ part, parts[color]? = some part ∧ part.logical.Contains g
  blocks : ∀ a ax, d.axis a = .ok ax → ∃ size, ax.SplitInto size ∧
    ∀ color part position c, parts[color]? = some part →
      Grid.coords d.axisColors color = .ok position → position[a]? = some c →
        part.offset[a]? = some ((List.range c).map size).sum ∧ part.owned a = .ok (size c)

theorem PartsOf.tiles {d : ColoringDefinition} {parts : List IndexColoring} (h : PartsOf d parts)
    (hd : d.Valid) (hfits : d.Fits) (hcolors : d.axisColors.prod < 2 ^ 63) : Tiles d parts where
  length_eq := by
    rw [h.length_eq]
    exact Word.product_eq_ok hd.colors_pos (Word.lt_limit hcolors)
  hasVolume := by
    intro part hpart
    obtain ⟨color, hcolor, rfl⟩ := List.mem_iff_getElem.mp hpart
    rw [(h.describes color hcolor).logical]
    exact IndexColoring.hasVolume_ownedBox (hd.hasPositions_position hfits color)
  inside := by
    intro part hpart
    obtain ⟨color, hcolor, rfl⟩ := List.mem_iff_getElem.mp hpart
    have hinside := IndexColoring.ownedBox_inside (hd.hasPositions_position hfits color)
    rw [hd.ofAxes_axes] at hinside
    rw [(h.describes color hcolor).logical]
    exact hinside
  unique := by
    intro g hg
    rw [← hd.ofAxes_axes] at hg
    obtain ⟨position, ⟨hwithin, hcontains⟩, hunique⟩ :=
      IndexColoring.existsUnique_ownedBox hd.axis_valid hg
    rw [← hd.axisColors_eq] at hwithin
    have hlt : Grid.number d.axisColors position < parts.length :=
      h.length_eq ▸ Grid.number_lt_prod hwithin
    refine ⟨_, ⟨_, List.getElem?_eq_getElem hlt, ?_⟩, ?_⟩
    · rw [(h.describes _ hlt).logical, Grid.position_number hwithin]
      exact hcontains
    · rintro color ⟨part, hpart, hother⟩
      obtain ⟨hcolor, rfl⟩ := List.getElem?_eq_some_iff.mp hpart
      rw [(h.describes color hcolor).logical] at hother
      rw [← hunique _ ⟨hd.axisColors_eq ▸ Grid.within_position hd.colors_pos color, hother⟩,
        Grid.number_position (h.length_eq ▸ hcolor)]
  blocks := by
    intro a ax hax
    have haxis := hd.getElem?_axes hax
    have hmem : ax ∈ d.axes := List.mem_of_getElem? haxis
    refine ⟨ax.owned, ax.splitInto_owned (hd.axis_valid ax hmem) (hfits ax hmem), ?_⟩
    intro color part position c hpart hcoords hc
    obtain ⟨hcolor, rfl⟩ := List.getElem?_eq_some_iff.mp hpart
    rw [Grid.coords_eq_ok hd.colors_pos, Except.ok.injEq] at hcoords
    subst hcoords
    have hread := (h.describes color hcolor).reads haxis hc
    have hposition := (hd.hasPositions_position hfits color).hasPosition haxis hc
    exact ⟨hread.offset.trans (congrArg some (Block.offsetAt_eq_sum c)), hread.owned_eq hposition⟩

/-- The coloring of a valid spec whose numbers fit is derived, keeps its invariants and tiles every
index space, if a list of records for all colors can exist. -/
theorem ofSpec_tiles {spec : ColoringSpec} (hvalid : spec.validate = .ok ()) (hfits : spec.Fits)
    (hlist : IndexColoring.footprint * spec.axisColors.prod ≤ Word.bufferLimit) :
    ∃ coloring, ofSpec spec = .ok coloring ∧ coloring.check = .ok () ∧
      List.Forall₂ Tiles spec.indexSpaces coloring.parts := by
  obtain ⟨coloring, hof⟩ := exists_ofSpec hvalid hfits hlist
  obtain ⟨hspec, hrealizes⟩ := realizes_of_ofSpec hfits hof
  refine ⟨coloring, hof, hrealizes.check_eq_ok hspec hfits, ?_⟩
  obtain ⟨hlength, hparts⟩ := List.forall₂_iff_get.mp hrealizes.parts
  refine List.forall₂_iff_get.mpr ⟨hlength, fun s hs hs' => ?_⟩
  have hmem : spec.indexSpaces.get ⟨s, hs⟩ ∈ spec.indexSpaces := List.get_mem _ _
  refine (hparts s hs hs').tiles (hspec.space_valid _ hmem) (hfits.space hmem) ?_
  rw [hspec.axisColors_eq _ hmem]
  exact hfits.colors

/-- Two axes with uneven blocks and two colors each, one of them periodic. -/
theorem ofSpec_tiles_two_by_two :
    let spec : ColoringSpec := ⟨[⟨[2, 2], [5, 3], [1, 1], [0, 2], [true, false]⟩]⟩
    spec.validate = .ok () ∧ spec.Fits ∧
      IndexColoring.footprint * spec.axisColors.prod ≤ Word.bufferLimit ∧
        ∃ coloring, ofSpec spec = .ok coloring ∧ coloring.check = .ok () ∧
          List.Forall₂ Tiles spec.indexSpaces coloring.parts := by
  intro spec
  have hvalid : spec.validate = .ok () := by decide
  have hfits : spec.Fits := ⟨by decide, by decide⟩
  have hlist : IndexColoring.footprint * spec.axisColors.prod ≤ Word.bufferLimit := by decide
  exact ⟨hvalid, hfits, hlist, ofSpec_tiles hvalid hfits hlist⟩

/-- The list of records of `2 ^ 57` colors cannot exist, though the color count and all coordinates
are in range. -/
theorem ofSpec_too_many_colors :
    let spec : ColoringSpec := ⟨[⟨[2 ^ 57], [2 ^ 57], [0], [0], [false]⟩]⟩
    spec.validate = .ok () ∧ spec.Fits ∧ ofSpec spec = .error (.fault .capacity) := by
  intro spec
  exact ⟨by decide, ⟨by decide, by decide⟩, rfl⟩

end Coloring

end HaloMesh
