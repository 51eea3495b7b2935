-- SUMMARY: Specs whose numbers fit their ranges: they have a coloring, and what its lists hold.
import HaloMesh.Proofs.Coloring.Realizable

/-!
# Specs that fit

If the numbers of a valid spec fit their ranges, no coordinate wraps around, and the coloring of the
spec holds for every index space and every color the record that describes the color. So the coloring
is derived as soon as the lists of records can exist.
-/

namespace HaloMesh

/-! ## Specs that fit -/

namespace ColoringSpec

/-- Every axis with its padding is a range of global coordinates, and the number of colors is one. -/
structure Fits (spec : ColoringSpec) : Prop where
  axis : ∀ d ∈ spec.indexSpaces, ∀ ax ∈ d.axes, ax.extent + 2 * (ax.halo + ax.boundary) < 2 ^ 63
  colors : spec.axisColors.prod < 2 ^ 63

/-- Besides, the storage of every color has fewer than `2 ^ 63` slots. -/
structure Representable (spec : ColoringSpec) : Prop extends spec.Fits where
  slots : ∀ d ∈ spec.indexSpaces, ∀ color < spec.axisColors.prod, ∀ part,
    IndexColoring.of d color = .ok part → part.extents.prod < 2 ^ 63

instance (spec : ColoringSpec) : Decidable spec.Fits :=
  decidable_of_iff _ ⟨fun h => ⟨h.1, h.2⟩, fun h => And.intro h.axis h.colors⟩

instance {α : Type} (x : Except Fault α) (p : α → Prop) [DecidablePred p] :
    Decidable (∀ a, x = .ok a → p a) :=
  match x with
  | .ok a => decidable_of_iff (p a) ⟨fun h _ heq => by cases heq; exact h, fun h => h a rfl⟩
  | .error _ => isTrue fun _ heq => nomatch heq

instance (spec : ColoringSpec) : Decidable spec.Representable :=
  decidable_of_iff _ ⟨fun h => ⟨h.1, h.2⟩, fun h => And.intro h.toFits h.slots⟩

variable {spec : ColoringSpec}

theorem Fits.space (h : spec.Fits) {d : ColoringDefinition} (hd : d ∈ spec.indexSpaces) : d.Fits :=
  h.axis d hd

end ColoringSpec

/-! ## The records of an index space -/

namespace Coloring

/-- The list holds for every color the record that describes it. -/
structure PartsOf (d : ColoringDefinition) (parts : List IndexColoring) : Prop where
  length_eq : parts.length = d.axisColors.prod
  of_eq : ∀ color (h : color < parts.length), IndexColoring.of d color = .ok parts[color]
  describes : ∀ color (h : color < parts.length),
    parts[color].Describes d.axes (Grid.position d.axisColors color)

theorem partsOf_recordsOf {d : ColoringDefinition} (hd : d.Valid) (hfits : d.Fits) :
    PartsOf d (recordsOf d d.axisColors.prod) where
  length_eq := length_recordsOf _ _
  of_eq color hcolor := by
    have hpositions := hd.hasPositions_position hfits color
    rw [IndexColoring.of_eq_ok_iff hd, getElem_recordsOf]
    exact ⟨hpositions.imp fun _ _ hc => hc.colorable, rfl⟩
  describes color hcolor := by
    rw [getElem_recordsOf]
    exact IndexColoring.describes_recordAt (hd.hasPositions_position hfits color) hd.dimension_le

/-- Records are determined by their color. -/
theorem PartsOf.eq_recordsOf {d : ColoringDefinition} {parts : List IndexColoring}
    (h : PartsOf d parts) (hd : d.Valid) : parts = recordsOf d d.axisColors.prod := by
  refine List.ext_getElem (by rw [h.length_eq, length_recordsOf]) fun color hcolor _ => ?_
  rw [getElem_recordsOf]
  exact ((IndexColoring.of_eq_ok_iff hd).mp (h.of_eq color hcolor)).2

/-! ## The records of a coloring -/

/-- The coloring holds the records of every index space of a spec. -/
structure Realizes (coloring : Coloring) (spec : ColoringSpec) : Prop where
  spec_eq : coloring.spec = spec
  colors_eq : coloring.colors = spec.axisColors.prod
  parts : List.Forall₂ PartsOf spec.indexSpaces coloring.parts

/-- The records of index space `s`. -/
theorem Realizes.space {coloring : Coloring} {spec : ColoringSpec} (h : coloring.Realizes spec)
    {s : Nat} {d : ColoringDefinition} (hs : spec.indexSpaces[s]? = some d) :
    ∃ parts, coloring.parts[s]? = some parts ∧ PartsOf d parts :=
  Checked.getElem?_of_forall₂ h.parts hs

theorem realizes_realized {spec : ColoringSpec} (hspec : spec.Valid) (hfits : spec.Fits) :
    (realized spec).Realizes spec where
  spec_eq := rfl
  colors_eq := rfl
  parts := by
    rw [realized, List.forall₂_map_right_iff, List.forall₂_same]
    intro d hd
    rw [← hspec.axisColors_eq d hd]
    exact partsOf_recordsOf (hspec.space_valid d hd) (hfits.space hd)

/-- A coloring that was derived holds the records of its spec. -/
theorem realizes_of_ofSpec {spec : ColoringSpec} (hfits : spec.Fits) {coloring : Coloring}
    (h : ofSpec spec = .ok coloring) : spec.Valid ∧ coloring.Realizes spec := by
  obtain ⟨hvalid, -, rfl⟩ := ofSpec_eq_ok_iff_realizable.mp h
  have hspec := ColoringSpec.valid_of_validate hvalid
  exact ⟨hspec, realizes_realized hspec hfits⟩

theorem Realizes.eq_realized {coloring : Coloring} {spec : ColoringSpec} (h : coloring.Realizes spec)
    (hspec : spec.Valid) : coloring = realized spec := by
  have hparts : coloring.parts = (realized spec).parts := by
    refine Checked.eq_map_of_forall₂ h.parts fun d hd parts hparts => ?_
    rw [← hspec.axisColors_eq d hd]
    exact hparts.eq_recordsOf (hspec.space_valid d hd)
  calc coloring = ⟨coloring.spec, coloring.colors, coloring.parts⟩ := rfl
    _ = realized spec := by rw [h.spec_eq, h.colors_eq, hparts, realized]

/-- On axes that fit nothing leaves its range. -/
theorem storable_of_fits {spec : ColoringSpec} (hspec : spec.Valid) (hfits : spec.Fits) :
    ∀ d ∈ spec.indexSpaces, ∀ color < spec.axisColors.prod,
      List.Forall₂ AxisDefinition.Storable d.axes (Grid.position d.axisColors color) := by
  intro d hd color _
  have hpositions := (hspec.space_valid d hd).hasPositions_position (hfits.space hd) color
  exact hpositions.imp fun _ _ hc => hc.storable

theorem Realizes.check_eq_ok {coloring : Coloring} {spec : ColoringSpec} (h : coloring.Realizes spec)
    (hspec : spec.Valid) (hfits : spec.Fits) : coloring.check = .ok () := by
  have hstorable := storable_of_fits hspec hfits
  rw [h.eq_realized hspec]
  refine (check_realized_eq_ok_iff hspec (Word.lt_limit hfits.colors) ?_).mpr hstorable
  exact fun d hd color hcolor => (hstorable d hd color hcolor).imp fun _ _ hc => hc.toColorable

/-- Index space `s` of a coloring that was derived from a representable spec. -/
structure HasSpace (coloring : Coloring) (s : Nat) (d : ColoringDefinition)
    (parts : List IndexColoring) : Prop where
  definition : coloring.spec.indexSpaces[s]? = some d
  records : coloring.parts[s]? = some parts
  valid : d.Valid
  fits : d.Fits
  partsOf : PartsOf d parts
  colors_eq : parts.length = coloring.colors
  colors_lt : d.axisColors.prod < 2 ^ 63
  slots_lt : ∀ color (h : color < parts.length), parts[color].extents.prod < 2 ^ 63

theorem exists_hasSpace {spec : ColoringSpec} (hrep : spec.Representable) {coloring : Coloring}
    (hof : ofSpec spec = .ok coloring) {s : Nat} (hs : s < coloring.indexSpaces) :
    ∃ d parts, coloring.HasSpace s d parts := by
  obtain ⟨hspec, hrealizes⟩ := realizes_of_ofSpec hrep.toFits hof
  have hlt : s < spec.indexSpaces.length := hrealizes.parts.length_eq ▸ hs
  have hspace := List.getElem?_eq_getElem hlt
  have hmem : spec.indexSpaces[s] ∈ spec.indexSpaces := List.getElem_mem hlt
  have hgrid := hspec.axisColors_eq _ hmem
  obtain ⟨parts, hfetch, hparts⟩ := hrealizes.space hspace
  refine ⟨_, parts, hrealizes.spec_eq ▸ hspace, hfetch, hspec.space_valid _ hmem,
    hrep.toFits.space hmem, hparts, ?_, hgrid ▸ hrep.colors, fun color hcolor => ?_⟩
  · rw [hparts.length_eq, hrealizes.colors_eq, hgrid]
  · refine hrep.slots _ hmem color ?_ _ (hparts.of_eq color hcolor)
    rw [← hgrid, ← hparts.length_eq]
    exact hcolor

/-- A valid spec whose numbers fit has a coloring if each of its lists of records can exist. -/
theorem exists_ofSpec {spec : ColoringSpec} (hvalid : spec.validate = .ok ()) (hfits : spec.Fits)
    (hlist : IndexColoring.footprint * spec.axisColors.prod ≤ Word.bufferLimit) :
    ∃ coloring, ofSpec spec = .ok coloring := by
  have hspec := ColoringSpec.valid_of_validate hvalid
  exact ⟨_, ofSpec_eq_ok_iff_realizable.mpr ⟨hvalid, ⟨hlist, storable_of_fits hspec hfits⟩, rfl⟩⟩

end Coloring

end HaloMesh
