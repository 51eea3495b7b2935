-- SUMMARY: What the part of a color says about each axis, and that coloring a valid definition computes it.
import HaloMesh.Proofs.Coloring.Axis
import HaloMesh.Proofs.Grid

/-!
# The layout of a color

A valid definition is a list of axes that can be split, and a color is a position on each of them.
`IndexColoring.Describes` ties the record that a color stores to its axes and positions, and the
queries of the record are shown to read the widths of the axis back.
-/

namespace HaloMesh

/-! ## Valid definitions -/

namespace ColoringDefinition

structure Valid (d : ColoringDefinition) : Prop where
  ofAxes_axes : ofAxes d.axes = d
  dimension_pos : 0 < d.axes.length
  dimension_le : d.axes.length ≤ maxDimension
  axis_valid : ∀ ax ∈ d.axes, ax.Valid

private theorem zipAxes_maps :
    ∀ {cs es hs bs : List Nat} {ps : List Bool}, es.length = cs.length → hs.length = cs.length →
      bs.length = cs.length → ps.length = cs.length →
      ofAxes (zipAxes cs es hs bs ps) = ⟨cs, es, hs, bs, ps⟩
  | [], es, hs, bs, ps, he, hh, hb, hp => by
    simp only [List.length_nil, List.length_eq_zero_iff] at he hh hb hp
    rw [he, hh, hb, hp]
    rfl
  | c :: cs, [], _, _, _, he, _, _, _ => by cases he
  | c :: cs, _ :: _, [], _, _, _, hh, _, _ => by cases hh
  | c :: cs, _ :: _, _ :: _, [], _, _, _, hb, _ => by cases hb
  | c :: cs, _ :: _, _ :: _, _ :: _, [], _, _, _, hp => by cases hp
  | c :: cs, e :: es, h :: hs, b :: bs, p :: ps, he, hh, hb, hp => by
    have ih := zipAxes_maps (Nat.succ.inj he) (Nat.succ.inj hh) (Nat.succ.inj hb) (Nat.succ.inj hp)
    simp only [ofAxes, ColoringDefinition.mk.injEq] at ih
    simp [zipAxes, ofAxes, ih]

theorem checkCount_eq_ok_iff {d : ColoringDefinition} {what : AxisList} {n : Nat} :
    d.checkCount what n = .ok () ↔ n = d.dimension := by
  unfold checkCount
  split <;> simp_all

theorem valid_of_validate {d : ColoringDefinition} (h : d.validate = .ok ()) : d.Valid := by
  unfold validate at h
  simp only [Checked.bind_eq_ok_iff] at h
  obtain ⟨_, he, _, hh, _, hb, _, hp, _, hdim, haxes⟩ := h
  rw [checkCount_eq_ok_iff] at he hh hb hp
  have hmaps : ofAxes d.axes = d := zipAxes_maps he hh hb hp
  have hlength : d.axes.length = d.dimension := by
    conv_rhs => rw [← hmaps]
    simp [dimension, ofAxes]
  unfold checkDimension at hdim
  split at hdim
  · cases hdim
  rename_i hbounds
  refine ⟨hmaps, by omega, by omega, fun ax hmem => ?_⟩
  obtain ⟨a, ha⟩ := List.mem_iff_getElem?.mp hmem
  have hcheck := Checked.forM_eq_ok_iff.mp haxes (ax, a) (by simpa [List.mem_zipIdx_iff_getElem?])
  exact AxisDefinition.valid_of_checkAxis hcheck

theorem axis_ofAxes {axes : List AxisDefinition} {a : Nat} {ax : AxisDefinition}
    (h : axes[a]? = some ax) : (ofAxes axes).axis a = .ok ax := by
  have hfetch : ∀ {β : Type} (f : AxisDefinition → β), fetch (axes.map f) a = .ok (f ax) := by
    intro β f
    rw [fetch_eq_ok_iff, List.getElem?_map, h]
    rfl
  simp [axis, ofAxes, hfetch]

namespace Valid

variable {d : ColoringDefinition}

theorem axisColors_eq (h : d.Valid) : d.axisColors = d.axes.map (·.colors) := by
  conv_lhs => rw [← h.ofAxes_axes]
  rfl

theorem dimension_eq (h : d.Valid) : d.dimension = d.axes.length := by
  rw [dimension, h.axisColors_eq, List.length_map]

theorem axis_eq_ok (h : d.Valid) {a : Nat} {ax : AxisDefinition} (ha : d.axes[a]? = some ax) :
    d.axis a = .ok ax := by
  conv_lhs => rw [← h.ofAxes_axes]
  exact axis_ofAxes ha

/-- The lists of the definition hold the numbers of the axis. -/
theorem fetch_eq_ok (h : d.Valid) {a : Nat} {ax : AxisDefinition} (ha : d.axes[a]? = some ax) :
    fetch d.axisColors a = .ok ax.colors ∧ fetch d.axisExtents a = .ok ax.extent ∧
      fetch d.haloDepths a = .ok ax.halo := by
  have haxis := h.axis_eq_ok ha
  simp only [axis, Checked.bind_eq_ok_iff, Checked.pure_eq_ok, Except.ok.injEq] at haxis
  obtain ⟨_, hcolors, _, hextent, _, hhalo, _, _, _, _, rfl⟩ := haxis
  exact ⟨hcolors, hextent, hhalo⟩

theorem getElem?_axes (h : d.Valid) {a : Nat} {ax : AxisDefinition} (hax : d.axis a = .ok ax) :
    d.axes[a]? = some ax := by
  have hcolors := hax
  simp only [axis, Checked.bind_eq_ok_iff, fetch_eq_ok_iff] at hcolors
  obtain ⟨colors, hcolors, -⟩ := hcolors
  rw [h.axisColors_eq, List.getElem?_map, Option.map_eq_some_iff] at hcolors
  obtain ⟨ax', hax', -⟩ := hcolors
  rw [h.axis_eq_ok hax', Except.ok.injEq] at hax
  rw [hax', hax]

theorem colors_pos (h : d.Valid) : ∀ n ∈ d.axisColors, 0 < n := by
  rw [h.axisColors_eq]
  intro n hn
  obtain ⟨ax, hax, rfl⟩ := List.mem_map.mp hn
  exact (h.axis_valid ax hax).colors_pos

end Valid

/-- Every axis, with its padding, is a range of global coordinates. -/
def Fits (d : ColoringDefinition) : Prop := ∀ ax ∈ d.axes, ax.Fits

end ColoringDefinition

/-! ## Positions of colors -/

/-- A position on every axis, all of which can be split. -/
abbrev AxisDefinition.ArePlaced (axes : List AxisDefinition) (position : List Nat) : Prop :=
  List.Forall₂ AxisDefinition.Placed axes position

/-- A position on every axis, all of which can be colored. -/
abbrev AxisDefinition.HasPositions (axes : List AxisDefinition) (position : List Nat) : Prop :=
  List.Forall₂ AxisDefinition.HasPosition axes position

theorem ColoringDefinition.Valid.axisColors_lt {d : ColoringDefinition} (h : d.Valid)
    (hfits : d.Fits) : ∀ n ∈ d.axisColors, n < 2 ^ 63 := by
  rw [h.axisColors_eq]
  intro n hn
  obtain ⟨ax, hax, rfl⟩ := List.mem_map.mp hn
  have hle := (h.axis_valid ax hax).colors_le
  have hfit := hfits ax hax
  unfold AxisDefinition.Fits at hfit
  omega

theorem AxisDefinition.HasPositions.arePlaced {axes : List AxisDefinition} {position : List Nat}
    (h : AxisDefinition.HasPositions axes position) : AxisDefinition.ArePlaced axes position :=
  h.imp fun _ _ hc => hc.toPlaced

theorem ColoringDefinition.Valid.arePlaced {d : ColoringDefinition} (h : d.Valid)
    {position : List Nat} (hposition : Grid.Within d.axisColors position) :
    AxisDefinition.ArePlaced d.axes position := by
  rw [h.axisColors_eq, Grid.Within, List.forall₂_map_left_iff, List.forall₂_iff_get] at hposition
  refine List.forall₂_iff_get.mpr ⟨hposition.1, fun a ha hc => ⟨?_, hposition.2 a ha hc⟩⟩
  exact h.axis_valid _ (List.get_mem _ _)

/-- The position of every color, also of one past the last, is a position on every axis. -/
theorem ColoringDefinition.Valid.arePlaced_position {d : ColoringDefinition} (h : d.Valid)
    (color : Nat) : AxisDefinition.ArePlaced d.axes (Grid.position d.axisColors color) :=
  h.arePlaced (Grid.within_position h.colors_pos color)

theorem ColoringDefinition.Valid.hasPositions {d : ColoringDefinition} (h : d.Valid)
    (hfits : d.Fits) {position : List Nat} (hposition : Grid.Within d.axisColors position) :
    AxisDefinition.HasPositions d.axes position := by
  have hplaced := List.forall₂_iff_get.mp (h.arePlaced hposition)
  refine List.forall₂_iff_get.mpr ⟨hplaced.1, fun a ha hc => ⟨hplaced.2 a ha hc, ?_⟩⟩
  exact hfits _ (List.get_mem _ _)

theorem AxisDefinition.HasPositions.hasPosition {axes : List AxisDefinition} {position : List Nat}
    (h : AxisDefinition.HasPositions axes position) {a : Nat} {ax : AxisDefinition} {c : Nat}
    (hax : axes[a]? = some ax) (hc : position[a]? = some c) : ax.HasPosition c := by
  obtain ⟨c', hc', hposition⟩ := Checked.getElem?_of_forall₂ h hax
  cases hc.symm.trans hc'
  exact hposition

theorem ColoringDefinition.Valid.hasPositions_position {d : ColoringDefinition} (h : d.Valid)
    (hfits : d.Fits) (color : Nat) :
    AxisDefinition.HasPositions d.axes (Grid.position d.axisColors color) :=
  h.hasPositions hfits (Grid.within_position h.colors_pos color)

/-! ## Face masks -/

namespace IndexColoring

private theorem testBit_foldl_or (parts : List (AxisColoring × Nat)) (mask i : Nat) :
    (parts.foldl (fun mask part => mask ||| part.2) mask).testBit i =
      (mask.testBit i || parts.any fun part => part.2.testBit i) := by
  induction parts generalizing mask with
  | nil => simp
  | cons part parts ih => rw [List.foldl_cons, ih, Nat.testBit_or, List.any_cons, Bool.or_assoc]

/-- The bits of an axis are its own two bits of the mask and no others. -/
private theorem testBit_faceBits (low high : Bool) (k a : Nat) (face : Bool) :
    ((low.toNat + 2 * high.toNat) <<< (2 * k)).testBit (2 * a + face.toNat) =
      (k == a && if face then high else low) := by
  have hface : face.toNat ≤ 1 := Bool.toNat_le face
  rw [Nat.testBit_shiftLeft]
  rcases Nat.lt_trichotomy k a with hlt | rfl | hlt
  · have hsmall : low.toNat + 2 * high.toNat < 2 ^ (2 * a + face.toNat - 2 * k) := by
      have hpow : 2 ^ 2 ≤ 2 ^ (2 * a + face.toNat - 2 * k) :=
        Nat.pow_le_pow_right (by omega) (by omega)
      have := Bool.toNat_le low
      have := Bool.toNat_le high
      omega
    have hne : (k == a) = false := by simpa using Nat.ne_of_lt hlt
    rw [Nat.testBit_lt_two_pow hsmall, hne, Bool.and_false, Bool.false_and]
  · rw [Nat.add_sub_cancel_left]
    cases low <;> cases high <;> cases face <;> simp <;> decide
  · have hne : (k == a) = false := by simpa using Nat.ne_of_gt hlt
    have hbelow : ¬ 2 * a + face.toNat ≥ 2 * k := by omega
    rw [decide_eq_false hbelow, hne, Bool.false_and, Bool.false_and]

/-! ## Reading an axis -/

/-- The record of a color says about axis `a` what the color at position `c` of `ax` stores. -/
structure Reads (ic : IndexColoring) (a : Nat) (ax : AxisDefinition) (c : Nat) : Prop where
  global : ic.global[a]? = some ax.extent
  offset : ic.offset[a]? = some (ax.offset c)
  extent : ic.extents[a]? = some (ax.slots c)
  logicalLow : ic.logical.low[a]? = some (ax.offset c : Int)
  logicalHigh : ic.logical.high[a]? = some ((ax.offset c + ax.owned c : Nat) : Int)
  extendedLow : ic.extended.low[a]? = some ((ax.offset c : Int) - ax.padLow c)
  extendedHigh : ic.extended.high[a]? = some ((ax.offset c + ax.owned c + ax.padHigh c : Nat) : Int)
  isLow : ic.isLow a = .ok (ax.touchesLow c)
  isHigh : ic.isHigh a = .ok (ax.touchesHigh c)

/-- The owned indices of a position on each axis. -/
def ownedBox (axes : List AxisDefinition) (position : List Nat) : Hypercube where
  low := List.zipWith (fun ax c => (ax.offset c : Int)) axes position
  high := List.zipWith (fun ax c => ((ax.offset c + ax.owned c : Nat) : Int)) axes position

/-- The record of a color is that of a position on each axis. -/
structure Describes (ic : IndexColoring) (axes : List AxisDefinition) (position : List Nat) :
    Prop where
  dimension : ic.dimension = axes.length
  extents : ic.extents = List.zipWith AxisDefinition.slots axes position
  logical : ic.logical = ownedBox axes position
  reads : ∀ {a ax c}, axes[a]? = some ax → position[a]? = some c → ic.Reads a ax c

/-- The record of a color says about axis `a` what the color at position `c` of `ax` stores, with
global coordinates that wrap around. -/
structure Records (ic : IndexColoring) (a : Nat) (ax : AxisDefinition) (c : Nat) : Prop where
  extent : ic.extents[a]? = some (ax.slots c)
  logicalLow : ic.logical.low[a]? = some (Signed.ofSize (ax.offset c))
  logicalHigh : ic.logical.high[a]? = some (Signed.ofSize (ax.offset c + ax.owned c))
  extendedLow : ic.extended.low[a]? =
    some (Signed.ofSize (ax.offset c) - Signed.ofSize (ax.padLow c))
  extendedHigh : ic.extended.high[a]? =
    some (Signed.ofSize (ax.offset c + ax.owned c + ax.padHigh c))
  isLow : ic.isLow a = .ok (ax.touchesLow c)
  isHigh : ic.isHigh a = .ok (ax.touchesHigh c)

/-- The parts of the axes of a color, each with its face bits. -/
private def partsAt (axes : List AxisDefinition) (position : List Nat) :
    List (AxisColoring × Nat) :=
  (List.zipWith AxisDefinition.recorded axes position).zipIdx.map fun (part, a) =>
    (part, (part.low.toNat + 2 * part.high.toNat) <<< (2 * a))

/-- The record of a position. -/
def recordAt (axes : List AxisDefinition) (position : List Nat) : IndexColoring :=
  ofParts (partsAt axes position)

section Record

variable {axes : List AxisDefinition} {position : List Nat} {a : Nat} {ax : AxisDefinition} {c : Nat}

private theorem getElem?_partsAt (hax : axes[a]? = some ax) (hc : position[a]? = some c) :
    (partsAt axes position)[a]? = some (ax.recorded c,
      ((ax.touchesLow c).toNat + 2 * (ax.touchesHigh c).toNat) <<< (2 * a)) := by
  simp [partsAt, List.getElem?_zipIdx, List.getElem?_zipWith, hax, hc, AxisDefinition.recorded]

private theorem map_partsAt {β : Type} (f : AxisColoring → β) (axes : List AxisDefinition)
    (position : List Nat) : (partsAt axes position).map (fun part => f part.1) =
      List.zipWith (fun ax c => f (ax.recorded c)) axes position := by
  refine List.ext_getElem? fun a => ?_
  simp only [partsAt, List.getElem?_map, List.getElem?_zipIdx, List.getElem?_zipWith]
  cases axes[a]? <;> cases position[a]? <;> rfl

private theorem exists_of_getElem?_partsAt {k : Nat} {part : AxisColoring × Nat}
    (hk : (partsAt axes position)[k]? = some part) :
    ∃ ax c, axes[k]? = some ax ∧ position[k]? = some c ∧ part = (ax.recorded c,
      ((ax.touchesLow c).toNat + 2 * (ax.touchesHigh c).toNat) <<< (2 * k)) := by
  cases hax : axes[k]? with
  | none => simp [partsAt, List.getElem?_zipIdx, List.getElem?_zipWith, hax] at hk
  | some ax =>
    cases hc : position[k]? with
    | none => simp [partsAt, List.getElem?_zipIdx, List.getElem?_zipWith, hax, hc] at hk
    | some c => exact ⟨ax, c, rfl, rfl, Option.some.inj (hk.symm.trans (getElem?_partsAt hax hc))⟩

/-- A bit of the mask is set by the axis it belongs to and by no other. -/
private theorem faceBit_recordAt (hax : axes[a]? = some ax) (hc : position[a]? = some c)
    (face : Bool) : (recordAt axes position).faceBit (2 * a + face.toNat) =
      if face then ax.touchesHigh c else ax.touchesLow c := by
  rw [faceBit, recordAt, ofParts, testBit_foldl_or, Nat.zero_testBit, Bool.false_or,
    Bool.eq_iff_iff, List.any_eq_true]
  constructor
  · rintro ⟨part, hmem, hpart⟩
    obtain ⟨k, hk⟩ := List.mem_iff_getElem?.mp hmem
    obtain ⟨ax', c', hax', hc', rfl⟩ := exists_of_getElem?_partsAt hk
    rw [testBit_faceBits, Bool.and_eq_true, beq_iff_eq] at hpart
    obtain ⟨rfl, hpart⟩ := hpart
    rwa [Option.some.inj (hax.symm.trans hax'), Option.some.inj (hc.symm.trans hc')]
  · intro hset
    refine ⟨_, List.mem_of_getElem? (getElem?_partsAt hax hc), ?_⟩
    rw [testBit_faceBits, beq_self_eq_true, Bool.true_and]
    exact hset

/-- The mask has no bits past those of the last axis. -/
theorem lt_of_faceBit_recordAt {i : Nat} (h : (recordAt axes position).faceBit i = true) :
    i < 2 * axes.length := by
  have hi : 2 * (i / 2) + (i % 2 == 1).toNat = i := by
    rcases Nat.mod_two_eq_zero_or_one i with hmod | hmod <;> simp [hmod] <;> omega
  rw [faceBit, recordAt, ofParts, testBit_foldl_or, Nat.zero_testBit, Bool.false_or,
    List.any_eq_true] at h
  obtain ⟨part, hmem, hpart⟩ := h
  obtain ⟨k, hk⟩ := List.mem_iff_getElem?.mp hmem
  obtain ⟨ax, c, hax, -, rfl⟩ := exists_of_getElem?_partsAt hk
  rw [← hi, testBit_faceBits, Bool.and_eq_true, beq_iff_eq] at hpart
  have hlt : k < axes.length := (List.getElem?_eq_some_iff.mp hax).1
  have hdiv := hpart.1
  omega

theorem dimension_recordAt (hlength : axes.length = position.length) :
    (recordAt axes position).dimension = axes.length := by
  simp [recordAt, dimension, ofParts, partsAt, ← hlength]

theorem extents_recordAt (axes : List AxisDefinition) (position : List Nat) :
    (recordAt axes position).extents = List.zipWith AxisDefinition.slots axes position :=
  map_partsAt (·.extent) axes position

theorem records_recordAt (hdim : axes.length ≤ 16) (hax : axes[a]? = some ax)
    (hc : position[a]? = some c) : (recordAt axes position).Records a ax c := by
  have hpart := getElem?_partsAt hax hc
  have ha : a < axes.length := (List.getElem?_eq_some_iff.mp hax).1
  have hlow := faceBit_recordAt hax hc false
  have hhigh := faceBit_recordAt hax hc true
  refine ⟨?_, ?_, ?_, ?_, ?_, ?_, ?_⟩
  case refine_6 =>
    rw [isLow, if_pos (by omega)]
    exact congrArg Except.ok hlow
  case refine_7 =>
    rw [isHigh, if_pos (by omega)]
    exact congrArg Except.ok hhigh
  all_goals simp only [recordAt, ofParts, List.getElem?_map, hpart, Option.map_some, AxisDefinition.recorded]

/-- On axes that fit no coordinate wraps around. -/
theorem describes_recordAt (h : AxisDefinition.HasPositions axes position)
    (hdim : axes.length ≤ 16) : (recordAt axes position).Describes axes position where
  dimension := dimension_recordAt h.length_eq
  extents := extents_recordAt axes position
  logical := by
    have hparts : List.zipWith AxisDefinition.recorded axes position =
        List.zipWith AxisDefinition.coloring axes position := by
      clear hdim
      induction h with
      | nil => simp only [List.zipWith_nil_left]
      | cons hc _ ih => rw [List.zipWith_cons_cons, List.zipWith_cons_cons, hc.recorded_eq, ih]
    rw [recordAt, ofParts, map_partsAt (·.logicalLow), map_partsAt (·.logicalHigh),
      ← List.map_zipWith, ← List.map_zipWith, hparts, List.map_zipWith, List.map_zipWith]
    rfl
  reads := by
    intro a ax c hax hc
    have hpart := getElem?_partsAt hax hc
    have hrecords := records_recordAt hdim hax hc
    rw [(h.hasPosition hax hc).recorded_eq] at hpart
    refine ⟨?_, ?_, ?_, ?_, ?_, ?_, ?_, hrecords.isLow, hrecords.isHigh⟩
    all_goals
      simp only [recordAt, ofParts, List.getElem?_map, hpart, Option.map_some]
      rfl

end Record

theorem axisPart_eq_ok_iff {d : ColoringDefinition} (hd : d.Valid) {a : Nat} {ax : AxisDefinition}
    (hax : d.axes[a]? = some ax) {c : Nat} (hc : ax.Placed c) {part : AxisColoring × Nat} :
    axisPart d a c = .ok part ↔ ax.Colorable c ∧ part = (ax.recorded c,
      ((ax.touchesLow c).toNat + 2 * (ax.touchesHigh c).toNat) <<< (2 * a)) := by
  have hbits : 2 * a < 32 := by
    have ha := (List.getElem?_eq_some_iff.mp hax).1
    have hdim : d.axes.length ≤ 16 := hd.dimension_le
    omega
  rw [axisPart, hd.axis_eq_ok hax, Checked.ok_bind, Checked.bind_eq_ok_iff]
  constructor
  · rintro ⟨_, hof, hpart⟩
    obtain ⟨hcolorable, rfl⟩ := (AxisColoring.of_eq_ok_iff hc).mp hof
    rw [AxisColoring.faceBits, if_pos hbits] at hpart
    exact ⟨hcolorable, (Except.ok.inj hpart).symm⟩
  · rintro ⟨hcolorable, rfl⟩
    refine ⟨_, (AxisColoring.of_eq_ok_iff hc).mpr ⟨hcolorable, rfl⟩, ?_⟩
    rw [AxisColoring.faceBits, if_pos hbits]
    rfl

/-- The part of a color of a valid definition is computed exactly if no number leaves its range. -/
theorem of_eq_ok_iff {d : ColoringDefinition} (hd : d.Valid) {color : Nat} {ic : IndexColoring} :
    of d color = .ok ic ↔
      List.Forall₂ AxisDefinition.Colorable d.axes (Grid.position d.axisColors color) ∧
        ic = recordAt d.axes (Grid.position d.axisColors color) := by
  obtain ⟨hlength, hplaced⟩ := List.forall₂_iff_get.mp (hd.arePlaced_position color)
  rw [of, Grid.coords_eq_ok hd.colors_pos, Checked.ok_bind, Checked.bind_eq_ok_iff]
  generalize Grid.position d.axisColors color = position at hlength hplaced ⊢
  have hlengthAt : (partsAt d.axes position).length = d.axes.length := by simp [partsAt, ← hlength]
  -- Every axis has its part, if no number leaves its range there.
  have hpart : ∀ a (ha : a < d.axes.length) part,
      axisPart d a position[a] = .ok part ↔
        d.axes[a].Colorable position[a] ∧ part = (partsAt d.axes position)[a] := by
    intro a ha part
    have hax := List.getElem?_eq_getElem ha
    have hc := List.getElem?_eq_getElem (hlength ▸ ha)
    have hat := getElem?_partsAt hax hc
    rw [List.getElem?_eq_getElem (hlengthAt.symm ▸ ha), Option.some.injEq] at hat
    rw [hat]
    exact axisPart_eq_ok_iff hd hax (hplaced a ha (hlength ▸ ha))
  constructor
  · rintro ⟨parts, hparts, hic⟩
    obtain ⟨hlength', hget⟩ := List.forall₂_iff_get.mp (Checked.mapM_eq_ok_iff.mp hparts)
    rw [List.length_zipIdx] at hlength'
    have hall : ∀ a (ha : a < d.axes.length), d.axes[a].Colorable position[a] ∧
        parts[a] = (partsAt d.axes position)[a] := fun a ha =>
      (hpart a ha _).mp (by simpa using hget a (by simpa [← hlength] using ha) (by omega))
    have heq : parts = partsAt d.axes position :=
      List.ext_getElem (by omega) fun a ha _ => (hall a (by omega)).2
    exact ⟨List.forall₂_iff_get.mpr ⟨hlength, fun a ha _ => (hall a ha).1⟩,
      (Except.ok.inj hic).symm.trans (congrArg ofParts heq)⟩
  · rintro ⟨hcolorable, rfl⟩
    refine ⟨partsAt d.axes position, ?_, rfl⟩
    refine Checked.mapM_eq_ok_iff.mpr (List.forall₂_iff_get.mpr ⟨by simp [hlengthAt, hlength], ?_⟩)
    intro a ha ha'
    rw [hlengthAt] at ha'
    have := (hpart a ha' _).mpr ⟨(List.forall₂_iff_get.mp hcolorable).2 a ha' (by omega), rfl⟩
    simpa using this

/-- The part of every color of a valid definition is computed without a fault. -/
theorem of_eq_ok {d : ColoringDefinition} (hd : d.Valid) (hfits : d.Fits) (color : Nat) :
    ∃ ic, of d color = .ok ic ∧ ic.Describes d.axes (Grid.position d.axisColors color) := by
  have hpositions := hd.hasPositions_position hfits color
  refine ⟨_, (of_eq_ok_iff hd).mpr ⟨hpositions.imp fun _ _ hc => hc.colorable, rfl⟩, ?_⟩
  exact describes_recordAt hpositions hd.dimension_le

end IndexColoring

end HaloMesh
