-- SUMMARY: Valid specs, exactly which of them have a coloring, and what the coloring holds.
import HaloMesh.Coloring.Basic
import HaloMesh.Proofs.Coloring.Queries

/-!
# Realizable specs

All index spaces of a valid spec are valid and share one color grid. A valid spec has a coloring
exactly if no number that is computed on the way leaves its range and a list of records for all
colors can exist. Coordinates are taken modulo `2 ^ 64` on the way and may wrap around. Blocks that
follow one another still do so then, and the only invariant that can fail is the one that reads
ghost widths back.
-/

namespace HaloMesh

/-! ## Valid specs -/

namespace ColoringSpec

structure Valid (spec : ColoringSpec) : Prop where
  nonempty : spec.indexSpaces ≠ []
  space_valid : ∀ d ∈ spec.indexSpaces, d.Valid
  axisColors_eq : ∀ d ∈ spec.indexSpaces, d.axisColors = spec.axisColors

theorem valid_of_checkSpace {first d : ColoringDefinition} {s : Nat}
    (h : checkSpace first s d = .ok ()) : d.Valid ∧ d.axisColors = first.axisColors := by
  simp only [checkSpace, Checked.bind_eq_ok_iff] at h
  obtain ⟨_, hvalid, _, _, hgrid⟩ := h
  refine ⟨ColoringDefinition.valid_of_validate hvalid, ?_⟩
  unfold checkGrid at hgrid
  split at hgrid
  · assumption
  · cases hgrid

theorem valid_of_validate {spec : ColoringSpec} (h : spec.validate = .ok ()) : spec.Valid := by
  obtain ⟨spaces⟩ := spec
  cases spaces with
  | nil => cases h
  | cons first rest =>
    have hspace : ∀ d ∈ first :: rest, d.Valid ∧ d.axisColors = first.axisColors := by
      intro d hd
      obtain ⟨s, hs⟩ := List.mem_iff_getElem?.mp hd
      exact valid_of_checkSpace
        (Checked.forM_eq_ok_iff.mp h (d, s) (List.mem_zipIdx_iff_getElem?.mpr hs))
    exact ⟨List.cons_ne_nil _ _, fun d hd => (hspace d hd).1, fun d hd => (hspace d hd).2⟩

variable {spec : ColoringSpec}

theorem Valid.colors_pos (h : spec.Valid) : ∀ n ∈ spec.axisColors, 0 < n := by
  obtain ⟨d, hd⟩ := List.exists_mem_of_ne_nil _ h.nonempty
  rw [← h.axisColors_eq d hd]
  exact (h.space_valid d hd).colors_pos

theorem Valid.colors_eq_ok (h : spec.Valid) (hlt : spec.axisColors.prod < Word.limit) :
    spec.colors = .ok spec.axisColors.prod := by
  have hpos := h.colors_pos
  obtain ⟨spaces⟩ := spec
  cases spaces with
  | nil => exact absurd rfl h.nonempty
  | cons first rest => exact Word.product_eq_ok hpos hlt

theorem Valid.eq_prod_of_colors (h : spec.Valid) {n : Nat} (hcolors : spec.colors = .ok n) :
    n = spec.axisColors.prod := by
  obtain ⟨spaces⟩ := spec
  cases spaces with
  | nil => exact absurd rfl h.nonempty
  | cons first rest => exact (Word.eq_prod_of_product hcolors).1

/-- A list of records for all colors can exist, and every axis of every color can be stored. -/
structure Realizable (spec : ColoringSpec) : Prop where
  list_le : IndexColoring.footprint * spec.axisColors.prod ≤ Word.bufferLimit
  storable : ∀ d ∈ spec.indexSpaces, ∀ color < spec.axisColors.prod,
    List.Forall₂ AxisDefinition.Storable d.axes (Grid.position d.axisColors color)

theorem colors_lt_of_list_le (h : IndexColoring.footprint * spec.axisColors.prod ≤ Word.bufferLimit) :
    spec.axisColors.prod < Word.limit :=
  Word.lt_limit_of_le (Nat.le_trans (Nat.le_mul_of_pos_left _ (by decide)) h)

end ColoringSpec

namespace Coloring

/-! ## The records of an index space -/

/-- The records of the first colors of an index space. -/
def recordsOf (d : ColoringDefinition) (colors : Nat) : List IndexColoring :=
  (List.range colors).map fun color =>
    IndexColoring.recordAt d.axes (Grid.position d.axisColors color)

theorem length_recordsOf (d : ColoringDefinition) (colors : Nat) :
    (recordsOf d colors).length = colors := by
  rw [recordsOf, List.length_map, List.length_range]

theorem getElem_recordsOf {d : ColoringDefinition} {colors color : Nat}
    (h : color < (recordsOf d colors).length) :
    (recordsOf d colors)[color] = IndexColoring.recordAt d.axes (Grid.position d.axisColors color) := by
  simp only [recordsOf, List.getElem_map, List.getElem_range]

theorem partsOfSpace_eq_ok_iff {d : ColoringDefinition} (hd : d.Valid) {colors : Nat}
    {parts : List IndexColoring} : partsOfSpace colors d = .ok parts ↔
      IndexColoring.footprint * colors ≤ Word.bufferLimit ∧
        (∀ color < colors, List.Forall₂ AxisDefinition.Colorable d.axes
          (Grid.position d.axisColors color)) ∧ parts = recordsOf d colors := by
  rw [partsOfSpace, Checked.bind_eq_ok_iff]
  constructor
  · rintro ⟨⟨⟩, hreserve, hparts⟩
    rw [Checked.mapM_eq_ok_iff, List.forall₂_iff_get] at hparts
    obtain ⟨hlength, hof⟩ := hparts
    rw [List.length_range] at hlength
    have hpart : ∀ color (h : color < colors), _ := fun color h =>
      (IndexColoring.of_eq_ok_iff hd).mp (hof color (by rwa [List.length_range]) (hlength ▸ h))
    simp only [List.get_eq_getElem, List.getElem_range] at hpart
    refine ⟨Word.reserve_eq_ok_iff.mp hreserve, fun color h => (hpart color h).1, ?_⟩
    refine List.ext_getElem (by rw [length_recordsOf, hlength]) fun color h _ => ?_
    rw [getElem_recordsOf]
    exact (hpart color (hlength ▸ h)).2
  · rintro ⟨hreserve, hcolorable, rfl⟩
    refine ⟨(), Word.reserve_eq_ok_iff.mpr hreserve, Checked.mapM_eq_ok fun color hcolor => ?_⟩
    exact (IndexColoring.of_eq_ok_iff hd).mpr ⟨hcolorable color (List.mem_range.mp hcolor), rfl⟩

/-! ## Invariants -/

section
variable {d : ColoringDefinition}

/-- The color that stands at position `c` of axis `a`, and at position 0 of the other axes. -/
theorem exists_colorOnAxis (hd : d.Valid) (hcolors : d.axisColors.prod < Word.limit) {a : Nat}
    {ax : AxisDefinition} (hax : d.axes[a]? = some ax) {c : Nat} (hc : c < ax.colors) :
    ∃ color < d.axisColors.prod, colorOnAxis d a c = .ok color ∧
      (Grid.position d.axisColors color)[a]? = some c := by
  have hlength : a < d.axisColors.length := by
    rw [hd.axisColors_eq, List.length_map]
    exact (List.getElem?_eq_some_iff.mp hax).1
  have hwithin : Grid.Within d.axisColors ((List.replicate d.dimension 0).set a c) := by
    refine List.forall₂_iff_get.mpr ⟨by simp [ColoringDefinition.dimension], fun b hb _ => ?_⟩
    simp only [List.get_eq_getElem, List.getElem_set, List.getElem_replicate]
    split
    · rename_i hab
      subst hab
      have hsize : d.axisColors[a]? = some ax.colors := by
        rw [hd.axisColors_eq, List.getElem?_map, hax]
        rfl
      rw [List.getElem?_eq_getElem hb, Option.some.injEq] at hsize
      omega
    · exact hd.colors_pos _ (List.getElem_mem _)
  refine ⟨_, Grid.number_lt_prod hwithin, Grid.index_eq_ok hwithin hcolors, ?_⟩
  rw [Grid.position_number hwithin]
  simp [ColoringDefinition.dimension, hlength]

theorem records_getElem_recordsOf (hd : d.Valid) {colors color : Nat}
    (hcolor : color < (recordsOf d colors).length) {a c : Nat} {ax : AxisDefinition}
    (hax : d.axes[a]? = some ax) (hc : (Grid.position d.axisColors color)[a]? = some c) :
    (recordsOf d colors)[color].Records a ax c := by
  rw [getElem_recordsOf]
  exact IndexColoring.records_recordAt hd.dimension_le hax hc

/-- Each block starts where the one before it ends, also if coordinates wrap around. -/
theorem checkAxisBlocks_eq_ok (hd : d.Valid) (hcolors : d.axisColors.prod < Word.limit) (s : Nat)
    {a : Nat} (ha : a < d.dimension) :
    checkAxisBlocks s d (recordsOf d d.axisColors.prod) a = .ok () := by
  have haxes : a < d.axes.length := hd.dimension_eq ▸ ha
  have hax : d.axes[a]? = some d.axes[a] := List.getElem?_eq_getElem haxes
  obtain ⟨hfetchColors, hfetchExtent, -⟩ := hd.fetch_eq_ok hax
  have hvalid := hd.axis_valid _ (List.getElem_mem haxes)
  have hblock : ∀ c < d.axes[a].colors, checkBlock s d (recordsOf d d.axisColors.prod) a c
      (Signed.ofSize (d.axes[a].offset c)) = .ok (Signed.ofSize (d.axes[a].offset (c + 1))) := by
    intro c hc
    obtain ⟨color, hlt, hcolor, hposition⟩ := exists_colorOnAxis hd hcolors hax hc
    have hlt' : color < (recordsOf d d.axisColors.prod).length := by rwa [length_recordsOf]
    have hrecords := records_getElem_recordsOf hd hlt' hax hposition
    have hnext : d.axes[a].offset c + d.axes[a].owned c = d.axes[a].offset (c + 1) :=
      (Block.offsetAt_succ c).symm
    rw [checkBlock, hcolor, Checked.liftM_ok, Checked.ok_bind,
      fetch_eq_ok_iff.mpr (List.getElem?_eq_getElem hlt'), Checked.liftM_ok,
      Checked.ok_bind, fetch_eq_ok_iff.mpr hrecords.logicalLow, Checked.liftM_ok, Checked.ok_bind,
      if_pos rfl, fetch_eq_ok_iff.mpr hrecords.logicalHigh, hnext, Checked.liftM_ok]
  have hcount : countUpTo d.axes[a].colors (checkBlock s d (recordsOf d d.axisColors.prod) a) 0 =
      .ok (Signed.ofSize (d.axes[a].offset d.axes[a].colors)) := by
    have h0 : Signed.ofSize (d.axes[a].offset 0) = 0 := by
      rw [AxisDefinition.offset, Block.offsetAt_zero, Signed.ofSize_of_lt (by decide)]
      rfl
    have hloop := @Checked.countUpTo_eq_ok _ _ _
      (fun c => Signed.ofSize (d.axes[a].offset c)) _ hblock
    rwa [h0] at hloop
  have hstop : d.axes[a].offset d.axes[a].colors = d.axes[a].extent :=
    Block.offsetAt_colors hvalid.colors_pos
  rw [checkAxisBlocks, hfetchColors, Checked.liftM_ok, Checked.ok_bind, hcount, Checked.ok_bind,
    hfetchExtent, Checked.liftM_ok, Checked.ok_bind, hstop, if_neg (not_not_intro rfl)]
  rfl

/-- Ghost widths are those that the halo depth gives, if they can be read. -/
theorem checkGhosts_eq_ok_iff {ic : IndexColoring} (hd : d.Valid) {a c : Nat} {ax : AxisDefinition}
    (hax : d.axes[a]? = some ax) (hrecords : ic.Records a ax c) (hc : ax.Colorable c) (s : Nat) :
    checkGhosts s d ic a = .ok () ↔ ax.Storable c := by
  obtain ⟨-, -, hfetch⟩ := hd.fetch_eq_ok hax
  simp only [checkGhosts, hfetch, Checked.liftM_ok, Checked.ok_bind, hrecords.isLow, hrecords.isHigh]
  rw [Checked.bind_eq_ok_iff]
  constructor
  · rintro ⟨ghosts, hghosts, -⟩
    exact ((hrecords.ghosts_eq_ok_iff hc).mp (Checked.liftM_eq_ok_iff.mp hghosts)).1
  · intro hs
    have hghosts := (hrecords.ghosts_eq_ok_iff hc).mpr ⟨hs, rfl⟩
    refine ⟨_, Checked.liftM_eq_ok_iff.mpr hghosts, ?_⟩
    rw [if_neg (by simp [AxisDefinition.ghostLow, AxisDefinition.ghostHigh])]
    rfl

/-- The ghost widths of a color can be read if every axis of the color can be stored. -/
theorem forM_checkGhosts_eq_ok_iff (hd : d.Valid) {position : List Nat}
    (hcolorable : List.Forall₂ AxisDefinition.Colorable d.axes position) (s : Nat) :
    ((List.range (IndexColoring.recordAt d.axes position).dimension).forM
        (checkGhosts s d (IndexColoring.recordAt d.axes position)) = .ok ()) ↔
      List.Forall₂ AxisDefinition.Storable d.axes position := by
  obtain ⟨hlength, hget⟩ := List.forall₂_iff_get.mp hcolorable
  rw [Checked.forM_eq_ok_iff, IndexColoring.dimension_recordAt hlength, List.forall₂_iff_get]
  have haxis : ∀ a (ha : a < d.axes.length) (hc : a < position.length),
      checkGhosts s d (IndexColoring.recordAt d.axes position) a = .ok () ↔
        (d.axes.get ⟨a, ha⟩).Storable (position.get ⟨a, hc⟩) := by
    intro a ha hc
    have hax := List.getElem?_eq_getElem ha
    refine checkGhosts_eq_ok_iff hd hax ?_ (hget a ha hc) s
    exact IndexColoring.records_recordAt hd.dimension_le hax (List.getElem?_eq_getElem hc)
  constructor
  · exact fun h => ⟨hlength, fun a ha hc => (haxis a ha hc).mp (h a (List.mem_range.mpr ha))⟩
  · intro h a ha
    rw [List.mem_range] at ha
    exact (haxis a ha (hlength ▸ ha)).mpr (h.2 a ha (hlength ▸ ha))

end

/-! ## The coloring of a spec -/

/-- The coloring of a valid spec, with records for all colors of all index spaces. -/
def realized (spec : ColoringSpec) : Coloring where
  spec := spec
  colors := spec.axisColors.prod
  parts := spec.indexSpaces.map (recordsOf · spec.axisColors.prod)

section
variable {spec : ColoringSpec} {coloring : Coloring}

/-- What is left to check of an index space is that ghost widths can be read back. -/
theorem checkSpace_realized (hspec : spec.Valid) (hcolors : spec.axisColors.prod < Word.limit)
    {d : ColoringDefinition} {s : Nat} (hs : spec.indexSpaces[s]? = some d) :
    (realized spec).checkSpace d s = (recordsOf d spec.axisColors.prod).forM fun part =>
      (List.range part.dimension).forM (checkGhosts s d part) := by
  have hd : d ∈ spec.indexSpaces := List.mem_of_getElem? hs
  have hgrid := hspec.axisColors_eq d hd
  have hfetch : fetch (realized spec).parts s = .ok (recordsOf d spec.axisColors.prod) := by
    rw [fetch_eq_ok_iff, realized, List.getElem?_map, hs]
    rfl
  have hblocks : (List.range d.dimension).forM
      (checkAxisBlocks s d (recordsOf d spec.axisColors.prod)) = .ok () := by
    rw [← hgrid]
    exact Checked.forM_eq_ok fun a ha =>
      checkAxisBlocks_eq_ok (hspec.space_valid d hd) (hgrid ▸ hcolors) s (List.mem_range.mp ha)
  have hlength : ¬ (recordsOf d spec.axisColors.prod).length ≠ (realized spec).colors :=
    not_not_intro (length_recordsOf d _)
  rw [checkSpace, hfetch, Checked.liftM_ok, Checked.ok_bind, if_neg hlength]
  change ((List.range d.dimension).forM _ >>= fun _ => _) = _
  rw [hblocks, Checked.ok_bind]

theorem check_realized_eq_ok_iff (hspec : spec.Valid) (hcolors : spec.axisColors.prod < Word.limit)
    (hcolorable : ∀ d ∈ spec.indexSpaces, ∀ color < spec.axisColors.prod,
      List.Forall₂ AxisDefinition.Colorable d.axes (Grid.position d.axisColors color)) :
    (realized spec).check = .ok () ↔ ∀ d ∈ spec.indexSpaces, ∀ color < spec.axisColors.prod,
      List.Forall₂ AxisDefinition.Storable d.axes (Grid.position d.axisColors color) := by
  have hspace : ∀ d s, spec.indexSpaces[s]? = some d →
      ((realized spec).checkSpace d s = .ok () ↔ ∀ color < spec.axisColors.prod,
        List.Forall₂ AxisDefinition.Storable d.axes (Grid.position d.axisColors color)) := by
    intro d s hs
    have hd : d ∈ spec.indexSpaces := List.mem_of_getElem? hs
    rw [checkSpace_realized hspec hcolors hs, Checked.forM_eq_ok_iff]
    simp only [recordsOf, List.mem_map, List.mem_range, forall_exists_index, and_imp,
      forall_apply_eq_imp_iff₂]
    exact forall₂_congr fun color hcolor =>
      forM_checkGhosts_eq_ok_iff (hspec.space_valid d hd) (hcolorable d hd color hcolor) s
  rw [check, Checked.forM_eq_ok_iff]
  constructor
  · intro h d hd
    obtain ⟨s, hs⟩ := List.mem_iff_getElem?.mp hd
    exact (hspace d s hs).mp (h (d, s) (List.mem_zipIdx_iff_getElem?.mpr hs))
  · intro h (d, s) hmem
    have hs : spec.indexSpaces[s]? = some d := List.mem_zipIdx_iff_getElem?.mp hmem
    exact (hspace d s hs).mpr (h d (List.mem_of_getElem? hs))

theorem partsOf_eq_ok_iff (hspec : spec.Valid) {parts : List (List IndexColoring)} :
    partsOf spec spec.axisColors.prod = .ok parts ↔
      IndexColoring.footprint * spec.axisColors.prod ≤ Word.bufferLimit ∧
        (∀ d ∈ spec.indexSpaces, ∀ color < spec.axisColors.prod,
          List.Forall₂ AxisDefinition.Colorable d.axes (Grid.position d.axisColors color)) ∧
            parts = (realized spec).parts := by
  have hspace := fun d hd parts =>
    @partsOfSpace_eq_ok_iff d (hspec.space_valid d hd) spec.axisColors.prod parts
  rw [partsOf, Checked.mapM_eq_ok_iff]
  constructor
  · intro h
    obtain ⟨hlength, hget⟩ := List.forall₂_iff_get.mp h
    have hall := fun s hs => (hspace _ (List.get_mem _ _) _).mp (hget s hs (hlength ▸ hs))
    refine ⟨?_, fun d hd => ?_, ?_⟩
    · exact (hall 0 (List.length_pos_iff.mpr hspec.nonempty)).1
    · obtain ⟨s, hs, rfl⟩ := List.mem_iff_getElem.mp hd
      exact (hall s hs).2.1
    · refine List.ext_getElem (by simp [realized, hlength]) fun s hs _ => ?_
      simpa [realized] using (hall s (hlength ▸ hs)).2.2
  · rintro ⟨hlist, hcolorable, rfl⟩
    rw [realized, List.forall₂_map_right_iff, List.forall₂_same]
    exact fun d hd => (hspace d hd _).mpr ⟨hlist, hcolorable d hd, rfl⟩

/-- The steps of a derivation that succeeds. -/
theorem ofSpec_eq_ok_iff : ofSpec spec = .ok coloring ↔ spec.validate = .ok () ∧ ∃ colors parts,
    spec.colors = .ok colors ∧ partsOf spec colors = .ok parts ∧
      (check ⟨spec, colors, parts⟩) = .ok () ∧ coloring = ⟨spec, colors, parts⟩ := by
  have hassert : ∀ {check : Except Failure Unit}, assertInvariants check = .ok () ↔ check = .ok () := by
    intro check
    rcases check with (_ | _) | _ <;> simp [assertInvariants]
  simp only [ofSpec, Checked.bind_eq_ok_iff, Checked.liftM_eq_ok_iff,
    Checked.liftM_reported_eq_ok_iff, Checked.pure_eq_ok, Except.ok.injEq]
  constructor
  · rintro ⟨_, hvalid, colors, hcolors, parts, hparts, _, hcheck, rfl⟩
    exact ⟨hvalid, colors, parts, hcolors, hparts, hassert.mp hcheck, rfl⟩
  · rintro ⟨hvalid, colors, parts, hcolors, hparts, hcheck, rfl⟩
    exact ⟨(), hvalid, colors, hcolors, parts, hparts, (), hassert.mpr hcheck, rfl⟩

/-- A spec has a coloring exactly if it is valid and can be realized. -/
theorem ofSpec_eq_ok_iff_realizable : ofSpec spec = .ok coloring ↔
    spec.validate = .ok () ∧ spec.Realizable ∧ coloring = realized spec := by
  rw [ofSpec_eq_ok_iff]
  refine and_congr_right fun hvalid => ?_
  have hspec := ColoringSpec.valid_of_validate hvalid
  constructor
  · rintro ⟨colors, parts, hcolors, hparts, hcheck, rfl⟩
    cases hspec.eq_prod_of_colors hcolors
    obtain ⟨hlist, hcolorable, rfl⟩ := (partsOf_eq_ok_iff hspec).mp hparts
    have hlt := ColoringSpec.colors_lt_of_list_le hlist
    exact ⟨⟨hlist, (check_realized_eq_ok_iff hspec hlt hcolorable).mp hcheck⟩, rfl⟩
  · rintro ⟨hrealizable, rfl⟩
    have hlt := ColoringSpec.colors_lt_of_list_le hrealizable.list_le
    have hcolorable : ∀ d ∈ spec.indexSpaces, ∀ color < spec.axisColors.prod,
        List.Forall₂ AxisDefinition.Colorable d.axes (Grid.position d.axisColors color) :=
      fun d hd color hcolor => (hrealizable.storable d hd color hcolor).imp fun _ _ h => h.toColorable
    exact ⟨_, _, hspec.colors_eq_ok hlt,
      (partsOf_eq_ok_iff hspec).mpr ⟨hrealizable.list_le, hcolorable, rfl⟩,
      (check_realized_eq_ok_iff hspec hlt hcolorable).mpr hrealizable.storable, rfl⟩

/-- The list of records of a coloring is one that can be allocated. -/
theorem footprint_mul_colors_le (h : ofSpec spec = .ok coloring) :
    IndexColoring.footprint * coloring.colors ≤ Word.bufferLimit := by
  obtain ⟨-, hrealizable, rfl⟩ := ofSpec_eq_ok_iff_realizable.mp h
  exact hrealizable.list_le

end

/-! ## Index spaces of a coloring -/

/-- Index space `s` of the coloring of a valid spec. -/
structure Stores (coloring : Coloring) (s : Nat) (d : ColoringDefinition) : Prop where
  definition : coloring.spec.indexSpaces[s]? = some d
  records : coloring.parts[s]? = some (recordsOf d coloring.colors)
  valid : d.Valid
  colors_eq : coloring.colors = d.axisColors.prod
  storable : ∀ color < coloring.colors,
    List.Forall₂ AxisDefinition.Storable d.axes (Grid.position d.axisColors color)

theorem exists_stores {spec : ColoringSpec} {coloring : Coloring} (hof : ofSpec spec = .ok coloring)
    {s : Nat} (hs : s < coloring.indexSpaces) : ∃ d, coloring.Stores s d := by
  obtain ⟨hvalid, hrealizable, rfl⟩ := ofSpec_eq_ok_iff_realizable.mp hof
  have hspec := ColoringSpec.valid_of_validate hvalid
  have hlt : s < spec.indexSpaces.length := by simpa [indexSpaces, realized] using hs
  have hmem : spec.indexSpaces[s] ∈ spec.indexSpaces := List.getElem_mem hlt
  refine ⟨spec.indexSpaces[s], List.getElem?_eq_getElem hlt, ?_, hspec.space_valid _ hmem, ?_,
    hrealizable.storable _ hmem⟩
  · simp [realized, hlt]
  · rw [hspec.axisColors_eq _ hmem]
    rfl

end Coloring

end HaloMesh
