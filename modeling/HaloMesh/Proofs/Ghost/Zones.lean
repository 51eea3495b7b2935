-- SUMMARY: Owned slots and padding are not among the ghost slots that the runs of a color fill.
import HaloMesh.Proofs.Ghost.Geometry

/-!
# Slots that are no ghosts

On every axis the owned range and the padding lie apart from the ghosts. Different local coordinates
have different slots, so the slot of an owned element or of padding is none that a run fills.
-/

namespace HaloMesh

namespace IndexColoring

/-- Local coordinates of a slot of the padding. -/
structure IsPadding (ic : IndexColoring) (x : List Nat) : Prop where
  length_eq : x.length = ic.dimension
  stored : ∀ a i, x[a]? = some i → Domain.all.Holds ic a i
  padding : ∃ a i, x[a]? = some i ∧
    (Domain.boundaryLow.Holds ic a i ∨ Domain.boundaryHigh.Holds ic a i)

variable {ic : IndexColoring}

/-! ## Ranges of an axis -/

section
variable {a c : Nat} {ax : AxisDefinition}

theorem Reads.bounds_eq (h : ic.Reads a ax c) (hc : ax.HasPosition c) :
    Domain.all.range ic a = .ok ⟨0, ax.slots c⟩ ∧
      Domain.boundaryLow.range ic a = .ok ⟨ax.ghostLow c, ax.start c⟩ ∧
      Domain.boundaryHigh.range ic a = .ok ⟨ax.stop c, ax.stop c + ax.padHigh c⟩ := by
  have hslots : ax.slots c < Word.limit := Word.lt_limit hc.slots_lt
  have hpad : ax.stop c + ax.padHigh c ≤ ax.slots c := Nat.le_add_right _ _
  have hstop : ax.stop c ≤ ax.stop c + ax.padHigh c := Nat.le_add_right _ _
  have hstart : ax.start c ≤ ax.stop c := Nat.le_add_right _ _
  have hpadLimit := Nat.lt_of_le_of_lt hpad hslots
  have hstopLimit := Nat.lt_of_le_of_lt hstop hpadLimit
  have hall : Word.add 0 (ax.slots c) = .ok (ax.slots c) := by
    rw [Word.add_of_lt (by rwa [Nat.zero_add]), Nat.zero_add]
  have haddStart : Word.add (ax.ghostLow c) (ax.padLow c) = .ok (ax.start c) :=
    Word.add_of_lt (Nat.lt_of_le_of_lt hstart hstopLimit)
  have haddStop : Word.add (ax.start c) (ax.owned c) = .ok (ax.stop c) := Word.add_of_lt hstopLimit
  have haddPad := Word.add_of_lt hpadLimit
  refine ⟨?_, ?_, ?_⟩
  all_goals
    simp only [Domain.range, Domain.bounds, h.ghosts_eq hc, h.boundaryLow_eq hc, h.boundaryHigh_eq hc,
      h.owned_eq hc, fetch_eq_ok_iff.mpr h.extent, Checked.ok_bind, Checked.pure_eq_ok, hall, haddStart,
      haddStop, haddPad]

theorem Reads.lt_slots_of_all (h : ic.Reads a ax c) (hc : ax.HasPosition c) {i : Nat}
    (hi : Domain.all.Holds ic a i) : i < ax.slots c := by
  obtain ⟨_, hrange, -, hlt⟩ := hi
  rw [(h.bounds_eq hc).1] at hrange
  cases hrange
  exact hlt

/-- Padding lies next to the owned range. -/
theorem Reads.padding_bounds (h : ic.Reads a ax c) (hc : ax.HasPosition c) {i : Nat}
    (hi : Domain.boundaryLow.Holds ic a i ∨ Domain.boundaryHigh.Holds ic a i) :
    (ax.ghostLow c ≤ i ∧ i < ax.start c) ∨ (ax.stop c ≤ i ∧ i < ax.stop c + ax.padHigh c) := by
  obtain ⟨-, hlow, hhigh⟩ := h.bounds_eq hc
  rcases hi with ⟨_, hrange, hi⟩ | ⟨_, hrange, hi⟩
  · rw [hlow] at hrange
    cases hrange
    exact .inl hi
  · rw [hhigh] at hrange
    cases hrange
    exact .inr hi

theorem Reads.zone_bounds (h : ic.Reads a ax c) (hc : ax.HasPosition c) {i : Nat} :
    (Domain.ghostLow.Holds ic a i ↔ i < ax.ghostLow c) ∧
      (Domain.logical.Holds ic a i ↔ ax.start c ≤ i ∧ i < ax.stop c) ∧
      (Domain.ghostHigh.Holds ic a i ↔ ax.stop c + ax.padHigh c ≤ i ∧ i < ax.slots c) := by
  have hhigh : ax.slots c - ax.ghostHigh c = ax.stop c + ax.padHigh c := Nat.add_sub_cancel ..
  refine ⟨(h.holds_iff hc .back).trans ?_, h.holds_iff hc .stay, (h.holds_iff hc .ahead).trans ?_⟩
  · exact and_iff_right (Nat.zero_le _)
  · rw [← hhigh]
    exact Iff.rfl

/-- No axis has a coordinate that is owned or padding and also a ghost. -/
theorem Reads.not_ghost (h : ic.Reads a ax c) (hc : ax.HasPosition c) {i : Nat}
    (hi : Domain.logical.Holds ic a i) :
    ¬ (Domain.ghostLow.Holds ic a i ∨ Domain.ghostHigh.Holds ic a i) := by
  obtain ⟨hback, hstay, hahead⟩ := @Reads.zone_bounds ic a c ax h hc i
  rw [hback, hahead]
  obtain ⟨hlow, hhigh⟩ := hstay.mp hi
  have hstart : ax.ghostLow c ≤ ax.start c := Nat.le_add_right _ _
  omega

theorem Reads.not_zone (h : ic.Reads a ax c) (hc : ax.HasPosition c) {i : Nat}
    (hi : Domain.boundaryLow.Holds ic a i ∨ Domain.boundaryHigh.Holds ic a i) :
    ¬ (Domain.ghostLow.Holds ic a i ∨ Domain.logical.Holds ic a i ∨ Domain.ghostHigh.Holds ic a i) := by
  obtain ⟨hback, hstay, hahead⟩ := @Reads.zone_bounds ic a c ax h hc i
  rw [hback, hstay, hahead]
  have hstop : ax.start c ≤ ax.stop c := Nat.le_add_right _ _
  have hstart : ax.ghostLow c ≤ ax.start c := Nat.le_add_right _ _
  have hpadding := h.padding_bounds hc hi
  omega

end

/-! ## Coordinates -/

variable {axes : List AxisDefinition} {position : List Nat} {x : List Nat}

/-- Every axis of a record stands at a position. -/
theorem Describes.exists_reads (h : ic.Describes axes position)
    (hpositions : AxisDefinition.HasPositions axes position) (hx : x.length = ic.dimension)
    {a i : Nat} (hi : x[a]? = some i) : ∃ ax c, ic.Reads a ax c ∧ ax.HasPosition c ∧
      ic.extents[a]? = some (ax.slots c) := by
  have hlt : a < axes.length := h.dimension ▸ hx ▸ (List.getElem?_eq_some_iff.mp hi).1
  have hax := List.getElem?_eq_getElem hlt
  obtain ⟨c, hc, hposition⟩ := Checked.getElem?_of_forall₂ hpositions hax
  exact ⟨_, c, h.reads hax hc, hposition, (h.reads hax hc).extent⟩

theorem Describes.within (h : ic.Describes axes position)
    (hpositions : AxisDefinition.HasPositions axes position) (hx : x.length = ic.dimension)
    (hlt : ∀ a ax c i, ic.Reads a ax c → ax.HasPosition c → x[a]? = some i → i < ax.slots c) :
    Grid.Within ic.extents x := by
  have hlength : ic.extents.length = x.length := by
    rw [h.extents, List.length_zipWith, ← hpositions.length_eq, Nat.min_self, hx, h.dimension]
  refine List.forall₂_iff_get.mpr ⟨hlength, fun a ha ha' => ?_⟩
  have hi := List.getElem?_eq_getElem ha'
  obtain ⟨ax, c, hread, hposition, hextent⟩ := h.exists_reads hpositions hx hi
  have hslot := hlt a ax c _ hread hposition hi
  rw [List.getElem?_eq_getElem ha, Option.some.injEq] at hextent
  exact Nat.lt_of_lt_of_eq hslot hextent.symm

/-- Coordinates of a slot that no exchange may change. -/
theorem within_and_not_isGhost (h : ic.Describes axes position)
    (hpositions : AxisDefinition.HasPositions axes position) (hx : ic.IsOwned x ∨ ic.IsPadding x) :
    Grid.Within ic.extents x ∧ ¬ ic.IsGhost x := by
  rcases hx with ⟨hlength, howned⟩ | ⟨hlength, hstored, a, i, hi, hpadding⟩
  · refine ⟨h.within hpositions hlength fun a ax c i hread hposition hi => ?_, ?_⟩
    · obtain ⟨-, hstay, -⟩ := @Reads.zone_bounds ic a c ax hread hposition i
      have hstop : ax.stop c ≤ ax.slots c := Nat.le_trans (Nat.le_add_right _ _) (Nat.le_add_right _ _)
      exact Nat.lt_of_lt_of_le (hstay.mp (howned a i hi)).2 hstop
    · rintro ⟨-, -, a, i, hi, hghost⟩
      obtain ⟨ax, c, hread, hposition, -⟩ := h.exists_reads hpositions hlength hi
      exact hread.not_ghost hposition (howned a i hi) hghost
  · refine ⟨h.within hpositions hlength fun a ax c i hread hposition hi => ?_, ?_⟩
    · exact hread.lt_slots_of_all hposition (hstored a i hi)
    · rintro ⟨-, hzone, -⟩
      obtain ⟨ax, c, hread, hposition, -⟩ := h.exists_reads hpositions hlength hi
      exact hread.not_zone hposition hpadding (hzone a i hi)

end IndexColoring

/-! ## Slots -/

namespace Ghost

section
variable {coloring : Coloring} {space : Nat} {d : ColoringDefinition} {parts : List IndexColoring}
  {color : Nat}

theorem linear_eq_ok (h : coloring.HasSpace space d parts) (hcolor : color < parts.length)
    {x : List Nat} (hx : Grid.Within parts[color].extents x) :
    parts[color].linear x = .ok (Grid.number parts[color].extents x) :=
  Grid.index_eq_ok hx (Word.lt_limit (h.slots_lt color hcolor))

/-- Different coordinates have different slots. -/
theorem eq_of_linear (h : coloring.HasSpace space d parts) (hcolor : color < parts.length)
    {x y : List Nat} (hx : Grid.Within parts[color].extents x)
    (hy : Grid.Within parts[color].extents y) {slot : Nat} (hslot : parts[color].linear x = .ok slot)
    (hslot' : parts[color].linear y = .ok slot) : x = y := by
  rw [linear_eq_ok h hcolor hx, Except.ok.injEq] at hslot
  rw [linear_eq_ok h hcolor hy, Except.ok.injEq] at hslot'
  exact Grid.number_inj hx hy (hslot.trans hslot'.symm)

theorem within_of_isGhost (h : coloring.HasSpace space d parts) (hcolor : color < parts.length)
    {x : List Nat} (hx : parts[color].IsGhost x) : Grid.Within parts[color].extents x := by
  have hdescribes := h.partsOf.describes color hcolor
  obtain ⟨direction, -, ys, hcopies⟩ :=
    hx.exists_copies hdescribes (h.valid.hasPositions_position h.fits color)
  exact hdescribes.extents ▸ hcopies.within

/-- Owned slots and padding are not filled. -/
theorem not_mem_dests (h : coloring.HasSpace space d parts) (hcolor : color < parts.length)
    {x : List Nat} (hx : parts[color].IsOwned x ∨ parts[color].IsPadding x) {slot : Nat}
    (hslot : parts[color].linear x = .ok slot) :
    slot ∉ (fillsAt d.axes (Grid.position d.axisColors color)).map (·.dest) := by
  obtain ⟨hwithin, hghost⟩ := IndexColoring.within_and_not_isGhost (h.partsOf.describes color hcolor)
    (h.valid.hasPositions_position h.fits color) hx
  intro hmem
  obtain ⟨fill, hfill, rfl⟩ := List.mem_map.mp hmem
  obtain ⟨_, y, _, -, hy, hyslot, -⟩ := (covers_fillsAt h hcolor).source fill hfill
  have hxy := eq_of_linear h hcolor hwithin (within_of_isGhost h hcolor hy) hslot hyslot
  exact hghost (hxy ▸ hy)

end

end Ghost

end HaloMesh
