-- SUMMARY: The ghost runs of a color fill every ghost slot once, from the owned slot of the same global index.
import HaloMesh.Proofs.Ghost.Intervals

/-!
# Geometry of ghost intervals

A ghost slot has local coordinates that lie in the low ghosts, the owned range or the high ghosts of
every axis, and in ghosts of at least one. Padding is not among them. The runs of a color name every
ghost slot once and nothing else. Each value comes from a slot that its color owns, and on every axis
the two slots have the same global index, modulo the extent if the axis is periodic.
-/

namespace HaloMesh

/-! ## Zones of local storage -/

/-- A slot of an axis belongs to a domain. -/
def Domain.Holds (domain : Domain) (ic : IndexColoring) (axis slot : Nat) : Prop :=
  ∃ r, domain.range ic axis = .ok r ∧ r.start ≤ slot ∧ slot < r.stop

namespace IndexColoring

/-- Local coordinates of an owned slot. -/
def IsOwned (ic : IndexColoring) (x : List Nat) : Prop :=
  x.length = ic.dimension ∧ ∀ a i, x[a]? = some i → Domain.logical.Holds ic a i

/-- Local coordinates of a ghost slot. -/
structure IsGhost (ic : IndexColoring) (x : List Nat) : Prop where
  length_eq : x.length = ic.dimension
  zone : ∀ a i, x[a]? = some i → Domain.ghostLow.Holds ic a i ∨ Domain.logical.Holds ic a i ∨
    Domain.ghostHigh.Holds ic a i
  ghost : ∃ a i, x[a]? = some i ∧ (Domain.ghostLow.Holds ic a i ∨ Domain.ghostHigh.Holds ic a i)

end IndexColoring

/-- The domain that a step names. -/
def Step.domain : Step → Domain
  | .back => .ghostLow
  | .stay => .logical
  | .ahead => .ghostHigh

namespace IndexColoring

variable {ic : IndexColoring}

theorem Reads.range_eq {a c : Nat} {ax : AxisDefinition} (h : ic.Reads a ax c)
    (hc : ax.HasPosition c) (step : Step) : step.domain.range ic a = .ok (ax.zone c step) := by
  have hslots : ax.slots c < Word.limit := Word.lt_limit hc.slots_lt
  have hstop : ax.stop c ≤ ax.slots c := by
    unfold AxisDefinition.slots
    omega
  have hstart : ax.start c ≤ ax.stop c := Nat.le_add_right _ _
  have hlow : ax.ghostLow c ≤ ax.start c := Nat.le_add_right _ _
  have hhigh : ax.ghostHigh c ≤ ax.slots c := Nat.le_add_left _ _
  cases step with
  | back =>
    have hadd : Word.add 0 (ax.ghostLow c) = .ok (ax.ghostLow c) := by
      rw [Word.add_of_lt (by omega), Nat.zero_add]
    simp only [Step.domain, Domain.range, Domain.bounds, h.ghosts_eq hc, h.boundaryLow_eq hc,
      h.boundaryHigh_eq hc, h.owned_eq hc, Checked.ok_bind, Checked.pure_eq_ok, hadd]
    rfl
  | stay =>
    have haddStart : Word.add (ax.ghostLow c) (ax.padLow c) = .ok (ax.start c) :=
      Word.add_of_lt (Nat.lt_of_le_of_lt (Nat.le_trans hstart hstop) hslots)
    have haddStop : Word.add (ax.start c) (ax.owned c) = .ok (ax.stop c) :=
      Word.add_of_lt (Nat.lt_of_le_of_lt hstop hslots)
    simp only [Step.domain, Domain.range, Domain.bounds, h.ghosts_eq hc, h.boundaryLow_eq hc,
      h.boundaryHigh_eq hc, h.owned_eq hc, Checked.ok_bind, Checked.pure_eq_ok, haddStart, haddStop]
    rfl
  | ahead =>
    have hadd : Word.add (ax.slots c - ax.ghostHigh c) (ax.ghostHigh c) = .ok (ax.slots c) := by
      rw [Word.add_of_lt (by omega), Nat.sub_add_cancel hhigh]
    simp only [Step.domain, Domain.range, Domain.bounds, h.ghosts_eq hc, h.boundaryLow_eq hc,
      h.boundaryHigh_eq hc, h.owned_eq hc, Checked.ok_bind, Checked.pure_eq_ok,
      fetch_eq_ok_iff.mpr h.extent, Word.sub_of_le hhigh, hadd]
    rfl

theorem Reads.holds_iff {a c : Nat} {ax : AxisDefinition} (h : ic.Reads a ax c)
    (hc : ax.HasPosition c) (step : Step) {i : Nat} :
    step.domain.Holds ic a i ↔ (ax.zone c step).start ≤ i ∧ i < (ax.zone c step).stop := by
  rw [Domain.Holds, h.range_eq hc]
  constructor
  · rintro ⟨_, heq, hi⟩
    cases heq
    exact hi
  · exact fun hi => ⟨_, rfl, hi⟩

variable {axes : List AxisDefinition} {position : List Nat}

/-- Every ghost slot is copied in the direction that its zones name. -/
theorem IsGhost.exists_copies {xs : List Nat} (hghost : ic.IsGhost xs) (h : ic.Describes axes position)
    (hpositions : AxisDefinition.HasPositions axes position) :
    ∃ direction ∈ Direction.all axes.length, ∃ ys, Slab.Copies axes position direction xs ys := by
  obtain ⟨hxs, hzone, a, i, hi, hghost⟩ := hghost
  rw [h.dimension] at hxs
  obtain ⟨direction, ys, hcopies⟩ := Slab.exists_copies hpositions.length_eq hxs (by
    intro a ax c x hax hc hx
    have hread := h.reads hax hc
    have hposition := hpositions.hasPosition hax hc
    rcases hzone a x hx with hlow | howned | hhigh
    · exact ⟨.back, (hread.holds_iff hposition .back).mp hlow⟩
    · exact ⟨.stay, (hread.holds_iff hposition .stay).mp howned⟩
    · exact ⟨.ahead, (hread.holds_iff hposition .ahead).mp hhigh⟩)
  have hlt : a < axes.length := hxs ▸ (List.getElem?_eq_some_iff.mp hi).1
  have hax := List.getElem?_eq_getElem hlt
  obtain ⟨c, step, x, y, hc, hstep, hx, -, -, hcopy⟩ := hcopies.getElem? hax
  cases hi.symm.trans hx
  have hread := h.reads hax hc
  have hposition := hpositions.hasPosition hax hc
  -- The zone of the ghost coordinate decides the step, which is not the one that stays.
  have hne : step ≠ .stay := by
    rintro rfl
    rcases hghost with hlow | hhigh
    · obtain ⟨y', hback⟩ :=
        AxisDefinition.exists_copies_iff.mpr ((hread.holds_iff hposition .back).mp hlow)
      exact nomatch hcopy.step_unique hback
    · obtain ⟨y', hahead⟩ :=
        AxisDefinition.exists_copies_iff.mpr ((hread.holds_iff hposition .ahead).mp hhigh)
      exact nomatch hcopy.step_unique hahead
  have hmem : direction ∈ Direction.all axes.length :=
    Direction.mem_all.mpr ⟨hcopies.length_eq, step, List.mem_of_getElem? hstep, hne⟩
  exact ⟨direction, hmem, ys, hcopies⟩

/-- On every axis the slot that a direction copies lies in the zone that its step names. -/
theorem holds_of_copies (h : ic.Describes axes position)
    (hpositions : AxisDefinition.HasPositions axes position) {direction : Direction}
    {xs ys : List Nat} (hcopies : Slab.Copies axes position direction xs ys) {a i : Nat}
    (hi : xs[a]? = some i) : ∃ step : Step, direction[a]? = some step ∧ step.domain.Holds ic a i := by
  have hlt : a < axes.length := hcopies.length_xs ▸ (List.getElem?_eq_some_iff.mp hi).1
  have hax := List.getElem?_eq_getElem hlt
  obtain ⟨c, step, x, y, hc, hstep, hx, -, -, hcopy⟩ := hcopies.getElem? hax
  cases hi.symm.trans hx
  refine ⟨step, hstep, ((h.reads hax hc).holds_iff (hpositions.hasPosition hax hc) step).mpr ?_⟩
  exact AxisDefinition.exists_copies_iff.mp ⟨y, hcopy⟩

theorem isGhost_of_copies (h : ic.Describes axes position)
    (hpositions : AxisDefinition.HasPositions axes position) {direction : Direction}
    (hdirection : direction ∈ Direction.all axes.length) {xs ys : List Nat}
    (hcopies : Slab.Copies axes position direction xs ys) : ic.IsGhost xs := by
  refine ⟨h.dimension ▸ hcopies.length_xs, fun a i hi => ?_, ?_⟩
  · obtain ⟨step, -, hholds⟩ := holds_of_copies h hpositions hcopies hi
    cases step with
    | back => exact .inl hholds
    | stay => exact .inr (.inl hholds)
    | ahead => exact .inr (.inr hholds)
  · obtain ⟨-, step, hmem, hne⟩ := Direction.mem_all.mp hdirection
    obtain ⟨a, ha⟩ := List.mem_iff_getElem?.mp hmem
    have hlt : a < xs.length := by
      rw [hcopies.length_xs, ← hcopies.length_eq]
      exact (List.getElem?_eq_some_iff.mp ha).1
    have hi := List.getElem?_eq_getElem hlt
    obtain ⟨step', hstep', hholds⟩ := holds_of_copies h hpositions hcopies hi
    cases ha.symm.trans hstep'
    refine ⟨a, _, hi, ?_⟩
    cases step with
    | back => exact .inl hholds
    | stay => exact absurd rfl hne
    | ahead => exact .inr hholds

/-- The slot of a value is owned by the color that it comes from. -/
theorem isOwned_of_copies {nb : IndexColoring} {direction : Direction}
    (h : nb.Describes axes (Slab.sourceAt axes position direction))
    (hpositions : AxisDefinition.HasPositions axes position) {xs ys : List Nat}
    (hcopies : Slab.Copies axes position direction xs ys) : nb.IsOwned ys := by
  refine ⟨h.dimension ▸ hcopies.length_ys, fun a i hi => ?_⟩
  have hlt : a < axes.length := hcopies.length_ys ▸ (List.getElem?_eq_some_iff.mp hi).1
  have hax := List.getElem?_eq_getElem hlt
  obtain ⟨c, step, x, y, hc, -, -, hy, hsource, hcopy⟩ := hcopies.getElem? hax
  cases hi.symm.trans hy
  have hsourcePosition := (Slab.hasPositions_sourceAt hpositions hcopies.length_eq).hasPosition
    hax hsource
  exact ((h.reads hax hsource).holds_iff hsourcePosition .stay).mpr
    (hcopy.src_owned (hpositions.hasPosition hax hc).toPlaced)

end IndexColoring

/-! ## Global coordinates -/

/-- On every axis the slots of two colors have the same global index, modulo the extent if the axis
is periodic. -/
def ColoringDefinition.SameGlobal (d : ColoringDefinition) (me nb : IndexColoring) (x y : List Nat) :
    Prop :=
  ∀ a ax, d.axis a = .ok ax → ∃ i j g h, x[a]? = some i ∧ y[a]? = some j ∧
    me.globalId a i = .ok g ∧ nb.globalId a j = .ok h ∧
      if ax.periodic then g % ax.extent = h % ax.extent else g = h

theorem ColoringDefinition.sameGlobal_of_copies {d : ColoringDefinition} (hd : d.Valid)
    {me nb : IndexColoring} {position : List Nat} {direction : Direction}
    (hme : me.Describes d.axes position)
    (hnb : nb.Describes d.axes (Slab.sourceAt d.axes position direction))
    (hpositions : AxisDefinition.HasPositions d.axes position) {xs ys : List Nat}
    (hcopies : Slab.Copies d.axes position direction xs ys) : d.SameGlobal me nb xs ys := by
  intro a ax haxis
  have hax := hd.getElem?_axes haxis
  obtain ⟨c, step, x, y, hc, -, hx, hy, hsource, hcopy⟩ := hcopies.getElem? hax
  have hposition := hpositions.hasPosition hax hc
  have hsourcePosition := (Slab.hasPositions_sourceAt hpositions hcopies.length_eq).hasPosition
    hax hsource
  have hstop : ax.stop (step.target c ax.colors) ≤ ax.slots (step.target c ax.colors) := by
    unfold AxisDefinition.slots
    omega
  have hy_lt := Nat.lt_of_lt_of_le (hcopy.src_owned hposition.toPlaced).2 hstop
  refine ⟨x, y, _, _, hx, hy, (hme.reads hax hc).globalId_eq hposition hcopy.lt_slots,
    (hnb.reads hax hsource).globalId_eq hsourcePosition hy_lt, ?_⟩
  obtain ⟨k, hk, hglobal⟩ := hcopy.global_eq hposition
  split
  · rw [hglobal, Int.add_mul_emod_self_right]
  · rename_i hperiodic
    rw [hglobal, hk (Bool.eq_false_iff.mpr hperiodic), Int.zero_mul, Int.add_zero]

/-! ## Coverage -/

namespace Ghost

/-- Copies into the storage of `me` name every ghost slot once and no other slot, each with an owned
slot of the same global index. -/
structure Covers (d : ColoringDefinition) (parts : List IndexColoring) (me : IndexColoring)
    (fills : List Fill) : Prop where
  nodup : (fills.map (·.dest)).Nodup
  filled : ∀ x, me.IsGhost x → ∃ fill ∈ fills, me.linear x = .ok fill.dest
  source : ∀ fill ∈ fills, ∃ nb x y, parts[fill.source]? = some nb ∧
    me.IsGhost x ∧ me.linear x = .ok fill.dest ∧ nb.IsOwned y ∧ nb.linear y = .ok fill.src ∧
      d.SameGlobal me nb x y

theorem covers_fillsAt {coloring : Coloring} {space : Nat} {d : ColoringDefinition}
    {parts : List IndexColoring} (h : coloring.HasSpace space d parts) {color : Nat}
    (hcolor : color < parts.length) :
    Covers d parts parts[color] (fillsAt d.axes (Grid.position d.axisColors color)) := by
  have hpositions := h.valid.hasPositions_position h.fits color
  have hdescribes := h.partsOf.describes color hcolor
  have hlinear : ∀ {direction : Direction} {xs ys : List Nat},
      Slab.Copies d.axes (Grid.position d.axisColors color) direction xs ys →
        parts[color].linear xs = .ok (Grid.number
          (Slab.extents d.axes (Grid.position d.axisColors color)) xs) := by
    intro direction xs ys hcopies
    obtain ⟨_, hneighbors⟩ := neighbors_of_direction h hcolor hcopies.length_eq
    exact (hneighbors.index_eq_ok hcopies).1
  refine ⟨nodup_dest_fillsAt hpositions.length_eq, fun xs hghost => ?_, fun fill hfill => ?_⟩
  · obtain ⟨direction, hdirection, ys, hcopies⟩ := hghost.exists_copies hdescribes hpositions
    exact ⟨_, (mem_fillsAt hpositions.length_eq).mpr
      ⟨direction, hdirection, xs, ys, hcopies, rfl⟩, hlinear hcopies⟩
  · obtain ⟨direction, hdirection, xs, ys, hcopies, rfl⟩ :=
      (mem_fillsAt hpositions.length_eq).mp hfill
    obtain ⟨hsource, hneighbors⟩ := neighbors_of_direction h hcolor hcopies.length_eq
    refine ⟨_, xs, ys, List.getElem?_eq_getElem hsource, ?_, hlinear hcopies, ?_, ?_, ?_⟩
    · exact IndexColoring.isGhost_of_copies hdescribes hpositions hdirection hcopies
    · exact IndexColoring.isOwned_of_copies hneighbors.nb_describes hpositions hcopies
    · exact (hneighbors.index_eq_ok hcopies).2
    · exact ColoringDefinition.sameGlobal_of_copies h.valid hneighbors.me_describes
        hneighbors.nb_describes hpositions hcopies

/-- The runs that a color receives on an index space cover its ghost slots. -/
theorem intervals_cover {spec : ColoringSpec} (hrep : spec.Representable) {coloring : Coloring}
    (hof : Coloring.ofSpec spec = .ok coloring) {space color : Nat}
    (hspace : space < coloring.indexSpaces) (hcolor : color < coloring.colors) :
    ∃ d parts me runs, spec.indexSpaces[space]? = some d ∧ coloring.parts[space]? = some parts ∧
      parts[color]? = some me ∧ intervals coloring space color = .ok runs ∧
        Covers d parts me (runs.flatMap Run.fills) := by
  obtain ⟨d, parts, h⟩ := Coloring.exists_hasSpace hrep hof hspace
  have hspec := (Coloring.realizes_of_ofSpec hrep.toFits hof).2.spec_eq
  rw [← h.colors_eq] at hcolor
  refine ⟨d, parts, _, _, hspec ▸ h.definition, h.records, List.getElem?_eq_getElem hcolor,
    intervals_eq_ok h hcolor, ?_⟩
  rw [flatMap_fills_runsAt (List.ne_nil_of_length_pos h.valid.dimension_pos)
    (h.valid.hasPositions_position h.fits color).length_eq]
  exact covers_fillsAt h hcolor

/-- A periodic axis with two colors and an axis with padding and three, at the color in the middle
of the second. -/
theorem intervals_cover_two_by_three :
    let spec : ColoringSpec := ⟨[⟨[2, 3], [5, 7], [2, 1], [0, 1], [true, false]⟩]⟩
    spec.Representable ∧ ∃ coloring, Coloring.ofSpec spec = .ok coloring ∧
      0 < coloring.indexSpaces ∧ 2 < coloring.colors ∧
        ∃ d parts me runs, spec.indexSpaces[0]? = some d ∧ coloring.parts[0]? = some parts ∧
          parts[2]? = some me ∧ intervals coloring 0 2 = .ok runs ∧
            Covers d parts me (runs.flatMap Run.fills) := by
  intro spec
  have hrep : spec.Representable := by decide
  refine ⟨hrep, _, rfl, by decide, by decide, ?_⟩
  exact intervals_cover hrep rfl (by decide) (by decide)

end Ghost

end HaloMesh
