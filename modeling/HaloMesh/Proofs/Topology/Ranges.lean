-- SUMMARY: The queries of a topology read every axis back as low ghosts, padding, owned block, padding and high ghosts.
import HaloMesh.Proofs.Ghost.Geometry
import HaloMesh.Topology.Basic

/-!
# Ranges of an axis

The record of a color keeps no widths. They are recovered from an extent, two boxes and a face mask,
and every query of an axis is computed from them. Here the queries are compared with the coloring
input: the ranges of an axis follow one another and fill its storage, a face is padded if it touches
the edge of the domain and has ghosts otherwise, and the slots are numbered on from the owned block to
both sides.
-/

namespace HaloMesh

/-! ## Chains of ranges -/

namespace SlotRange

/-- Ranges that follow one another without gaps, from a first slot up to a last one. -/
inductive Chain : Nat → List SlotRange → Nat → Prop
  | nil (slot : Nat) : Chain slot [] slot
  | cons {first next last : Nat} {ranges : List SlotRange} (le : first ≤ next)
      (rest : Chain next ranges last) : Chain first (⟨first, next⟩ :: ranges) last

variable {first last : Nat} {ranges : List SlotRange}

theorem Chain.start_ge (h : Chain first ranges last) : ∀ r ∈ ranges, first ≤ r.start := by
  induction h with
  | nil => simp
  | cons le _ ih =>
    intro r hr
    rcases List.mem_cons.mp hr with rfl | hr
    · exact Nat.le_refl _
    · exact Nat.le_trans le (ih r hr)

/-- Every slot from the first to the last lies in exactly one range of a chain. -/
theorem Chain.existsUnique (h : Chain first ranges last) {slot : Nat} (hfirst : first ≤ slot)
    (hlast : slot < last) : ∃! k : Nat, ∃ r, ranges[k]? = some r ∧ r.start ≤ slot ∧ slot < r.stop := by
  induction h with
  | nil => omega
  | @cons first next last ranges le rest ih =>
    by_cases hnext : slot < next
    · refine ⟨0, ⟨_, rfl, hfirst, hnext⟩, ?_⟩
      rintro (_ | k) ⟨r, hr, hstart, -⟩
      · rfl
      · have hge := rest.start_ge r (List.mem_of_getElem? hr)
        omega
    · obtain ⟨k, ⟨r, hr, hin⟩, hunique⟩ := ih (by omega) hlast
      refine ⟨k + 1, ⟨r, hr, hin⟩, ?_⟩
      rintro (_ | j) ⟨r, hr, hin⟩
      · cases hr
        exact absurd hin.2 hnext
      · exact congrArg (· + 1) (hunique j ⟨r, hr, hin⟩)

end SlotRange

/-! ## Domains in plain numbers -/

/-- The domains that the storage of an axis consists of, in order. -/
def Domain.zones : List Domain := [.ghostLow, .boundaryLow, .logical, .boundaryHigh, .ghostHigh]

/-- The zones that are no ghosts. -/
def Domain.extendedZones : List Domain := [.boundaryLow, .logical, .boundaryHigh]

namespace AxisDefinition

/-- The bounds of a domain at a position of an axis. -/
def boundsAt (ax : AxisDefinition) (c : Nat) : Domain → Domain.Bounds
  | .logical => ⟨ax.start c, ax.owned c⟩
  | .extended => ⟨ax.ghostLow c, ax.padLow c + ax.owned c + ax.padHigh c⟩
  | .all => ⟨0, ax.slots c⟩
  | .boundaryLow => ⟨ax.ghostLow c, ax.padLow c⟩
  | .boundaryHigh => ⟨ax.stop c, ax.padHigh c⟩
  | .ghostLow => ⟨0, ax.ghostLow c⟩
  | .ghostHigh => ⟨ax.stop c + ax.padHigh c, ax.ghostHigh c⟩
  | .global => ⟨ax.offset c, ax.extent⟩

/-- The indices of a domain at a position of an axis. -/
def rangeAt (ax : AxisDefinition) (c : Nat) : Domain → SlotRange
  | .logical => ⟨ax.start c, ax.stop c⟩
  | .extended => ⟨ax.ghostLow c, ax.stop c + ax.padHigh c⟩
  | .all => ⟨0, ax.slots c⟩
  | .boundaryLow => ⟨ax.ghostLow c, ax.start c⟩
  | .boundaryHigh => ⟨ax.stop c, ax.stop c + ax.padHigh c⟩
  | .ghostLow => ⟨0, ax.ghostLow c⟩
  | .ghostHigh => ⟨ax.stop c + ax.padHigh c, ax.slots c⟩
  | .global => ⟨ax.offset c, ax.offset c + ax.owned c⟩

variable {ax : AxisDefinition} {c : Nat} {domain : Domain}

/-- In local storage a range is given by its offset and its size. -/
theorem rangeAt_eq_bounds (ax : AxisDefinition) (c : Nat) (h : domain ≠ .global) :
    ax.rangeAt c domain = ⟨(ax.boundsAt c domain).offset,
      (ax.boundsAt c domain).offset + (ax.boundsAt c domain).size⟩ := by
  cases domain with
  | global => exact absurd rfl h
  | extended =>
    simp only [rangeAt, boundsAt, stop, start, SlotRange.mk.injEq, true_and]
    omega
  | _ => simp only [rangeAt, boundsAt, slots, stop, start, Nat.zero_add]

theorem rangeAt_stop_le (ax : AxisDefinition) (c : Nat) (h : domain ≠ .global) :
    (ax.rangeAt c domain).stop ≤ ax.slots c := by
  cases domain with
  | global => exact absurd rfl h
  | _ =>
    simp only [rangeAt, slots, stop, start]
    omega

theorem chain_zones (ax : AxisDefinition) (c : Nat) :
    SlotRange.Chain 0 (Domain.zones.map (ax.rangeAt c)) (ax.slots c) :=
  .cons (Nat.zero_le _) (.cons (Nat.le_add_right _ _) (.cons (Nat.le_add_right _ _)
    (.cons (Nat.le_add_right _ _) (.cons (Nat.le_add_right _ _) (.nil _)))))

theorem chain_extendedZones (ax : AxisDefinition) (c : Nat) :
    SlotRange.Chain (ax.rangeAt c .extended).start (Domain.extendedZones.map (ax.rangeAt c))
      (ax.rangeAt c .extended).stop :=
  .cons (Nat.le_add_right _ _) (.cons (Nat.le_add_right _ _) (.cons (Nat.le_add_right _ _) (.nil _)))

end AxisDefinition

namespace IndexColoring.Reads

variable {ic : IndexColoring} {a : Nat} {ax : AxisDefinition} {c : Nat}

/-- The bounds of every domain are those of its axis. -/
theorem bounds_eq_ok (h : ic.Reads a ax c) (hc : ax.HasPosition c) (domain : Domain) :
    domain.bounds ic a = .ok (ax.boundsAt c domain) := by
  have hslots : ax.slots c < Word.limit := Word.lt_limit hc.slots_lt
  have hghost : ax.ghostHigh c ≤ ax.slots c := Nat.le_add_left _ _
  have hhigh : ax.slots c - ax.ghostHigh c = ax.stop c + ax.padHigh c := Nat.add_sub_cancel ..
  have hpad : ax.stop c + ax.padHigh c ≤ ax.slots c := Nat.le_add_right _ _
  have hstop : ax.stop c ≤ ax.stop c + ax.padHigh c := Nat.le_add_right _ _
  have hstart : ax.start c ≤ ax.stop c := Nat.le_add_right _ _
  have haddStart : Word.add (ax.ghostLow c) (ax.padLow c) = .ok (ax.start c) :=
    Word.add_of_lt (show ax.start c < Word.limit by omega)
  have haddStop : Word.add (ax.start c) (ax.owned c) = .ok (ax.stop c) :=
    Word.add_of_lt (show ax.stop c < Word.limit by omega)
  have hextended := ax.extended_le_slots c
  have haddOwned : Word.add (ax.padLow c) (ax.owned c) = .ok (ax.padLow c + ax.owned c) :=
    Word.add_of_lt (by omega)
  have haddPad : Word.add (ax.padLow c + ax.owned c) (ax.padHigh c) =
      .ok (ax.padLow c + ax.owned c + ax.padHigh c) := Word.add_of_lt (by omega)
  simp only [Domain.bounds, h.ghosts_eq hc, h.boundaryLow_eq hc, h.boundaryHigh_eq hc, h.owned_eq hc,
    Checked.ok_bind]
  cases domain <;>
    simp only [AxisDefinition.boundsAt, fetch_eq_ok_iff.mpr h.extent, fetch_eq_ok_iff.mpr h.offset,
      fetch_eq_ok_iff.mpr h.global, Word.sub_of_le hghost, hhigh, haddStart, haddStop, haddOwned,
      haddPad, Checked.ok_bind, Checked.pure_eq_ok]

/-- The range of every domain is that of its axis. -/
theorem range_eq_ok (h : ic.Reads a ax c) (hc : ax.HasPosition c) (domain : Domain) :
    domain.range ic a = .ok (ax.rangeAt c domain) := by
  by_cases hglobal : domain = .global
  · have hstop : ax.offset c + ax.owned c < Word.limit :=
      Word.lt_limit (Nat.lt_of_le_of_lt (Nat.le_add_right _ _) hc.high_lt)
    subst hglobal
    rw [Domain.range, fetch_eq_ok_iff.mpr h.offset, Checked.ok_bind, h.owned_eq hc, Checked.ok_bind,
      Word.add_of_lt hstop]
    rfl
  · have hrange := ax.rangeAt_eq_bounds c hglobal
    have hstop := ax.rangeAt_stop_le c hglobal
    rw [hrange] at hstop ⊢
    have hadd := Word.add_of_lt (Nat.lt_of_le_of_lt hstop (Word.lt_limit hc.slots_lt))
    cases domain with
    | global => exact absurd rfl hglobal
    | _ =>
      rw [Domain.range, h.bounds_eq_ok hc, Checked.ok_bind, hadd]
      rfl
      exact hglobal

theorem localExtended_eq_ok (h : ic.Reads a ax c) (hc : ax.HasPosition c) :
    ic.localExtended a = .ok (ax.rangeAt c .extended) := by
  have hglobal : Domain.extended ≠ .global := by decide
  have hrange := ax.rangeAt_eq_bounds c hglobal
  have hstop := ax.rangeAt_stop_le c hglobal
  rw [hrange] at hstop ⊢
  have hadd := Word.add_of_lt (Nat.lt_of_le_of_lt hstop (Word.lt_limit hc.slots_lt))
  rw [IndexColoring.localExtended, h.ghostLow_eq hc, Checked.ok_bind, h.extendedLength_eq hc,
    Checked.ok_bind]
  exact congrArg (· >>= _) hadd

end IndexColoring.Reads

/-! ## The queries of a topology -/

namespace AxisDefinition

/-- A block borders on the low edge of a domain that does not wrap around. -/
def AtLow (ax : AxisDefinition) (block : Block) : Prop := ax.periodic = false ∧ block.offset = 0

/-- A block borders on the high edge of a domain that does not wrap around. -/
def AtHigh (ax : AxisDefinition) (block : Block) : Prop :=
  ax.periodic = false ∧ block.offset + block.size = ax.extent

instance (ax : AxisDefinition) (block : Block) : Decidable (ax.AtLow block) :=
  inferInstanceAs (Decidable (_ ∧ _))

instance (ax : AxisDefinition) (block : Block) : Decidable (ax.AtHigh block) :=
  inferInstanceAs (Decidable (_ ∧ _))

variable {ax : AxisDefinition} {c : Nat}

theorem touchesLow_eq (h : ax.Placed c) :
    ax.touchesLow c = decide (ax.AtLow ⟨ax.offset c, ax.owned c⟩) := by
  rw [touchesLow, Bool.eq_iff_iff, decide_eq_true_iff, AtLow, h.offset_eq_zero_iff]
  simp

theorem touchesHigh_eq (h : ax.Placed c) :
    ax.touchesHigh c = decide (ax.AtHigh ⟨ax.offset c, ax.owned c⟩) := by
  rw [touchesHigh, Bool.eq_iff_iff, decide_eq_true_iff, AtHigh, h.stop_eq_extent_iff]
  simp

end AxisDefinition

namespace Topology

/-- What the queries of axis `a` say of a part that stores `slots` slots of the axis and owns `block`,
from slot `first` on. -/
structure LaidOut (t : Topology) (space a : Nat) (ic : IndexColoring) (ax : AxisDefinition)
    (block : Block) (slots first : Nat) : Prop where
  extent : ic.extents[a]? = some slots
  /-- The zones follow one another, and every slot lies in one of them. -/
  zones : ∃ ranges, Domain.zones.mapM (t.range space a) = .ok ranges ∧
    SlotRange.Chain 0 ranges slots ∧
      ∀ slot < slots, ∃! k : Nat, ∃ r, ranges[k]? = some r ∧ r.start ≤ slot ∧ slot < r.stop
  extended : ∃ r ranges, t.range space a .extended = .ok r ∧ ic.localExtended a = .ok r ∧
    Domain.extendedZones.mapM (t.range space a) = .ok ranges ∧
      SlotRange.Chain r.start ranges r.stop
  all : t.range space a .all = .ok ⟨0, slots⟩
  logical : t.range space a .logical = .ok ⟨first, first + block.size⟩ ∧
    ic.localLogical a = .ok ⟨first, first + block.size⟩
  global : t.range space a .global = .ok ⟨block.offset, block.offset + block.size⟩ ∧
    t.bounds space a .global = .ok ⟨block.offset, ax.extent⟩
  bounds : ∀ domain, domain ≠ .global → ∃ b, t.bounds space a domain = .ok b ∧
    t.range space a domain = .ok ⟨b.offset, b.offset + b.size⟩
  faces : t.isLow space a = .ok (decide (ax.AtLow block)) ∧
    t.isHigh space a = .ok (decide (ax.AtHigh block)) ∧
      t.isInterior space a = .ok (decide (¬ ax.AtLow block ∧ ¬ ax.AtHigh block))
  owned : ic.owned a = .ok block.size
  padding : ic.boundaryLow a = .ok (if ax.AtLow block then ax.boundary else 0) ∧
    ic.boundaryHigh a = .ok (if ax.AtHigh block then ax.boundary else 0)
  ghosts : ic.ghosts a =
    .ok (if ax.AtLow block then 0 else ax.halo, if ax.AtHigh block then 0 else ax.halo)
  /-- The owned slots have the indices of the block, in order. -/
  numbered : ∀ i < block.size, t.globalId space a (first + i) = .ok (block.offset + i : Nat)
  /-- The numbers go on to both sides of the owned slots. -/
  continued : ∀ slot < slots, t.globalId space a slot = .ok ((block.offset : Int) - first + slot)

variable {t : Topology} {space a c : Nat} {ic : IndexColoring} {ax : AxisDefinition}

theorem part_eq_ok (hic : t.metadata.spaces[space]? = some ic) (ha : a < ic.dimension) :
    t.part space a = .ok ic := by
  have hspace : t.checkSpace space = .ok () := if_pos (List.getElem?_eq_some_iff.mp hic).1
  rw [part, ofSpace, hspace, fetch_eq_ok_iff.mpr hic]
  exact if_pos ha

/-- The queries of a part that reads an axis agree with the axis. -/
theorem laidOut_of_reads (hic : t.metadata.spaces[space]? = some ic) (ha : a < ic.dimension)
    (h : ic.Reads a ax c) (hc : ax.HasPosition c) :
    t.LaidOut space a ic ax ⟨ax.offset c, ax.owned c⟩ (ax.slots c) (ax.start c) := by
  have hpart := part_eq_ok hic ha
  have hrange : ∀ domain, t.range space a domain = .ok (ax.rangeAt c domain) := by
    intro domain
    rw [range, hpart, Checked.ok_bind, h.range_eq_ok hc, Checked.liftM_ok]
  have hbounds : ∀ domain, t.bounds space a domain = .ok (ax.boundsAt c domain) := by
    intro domain
    rw [Topology.bounds, hpart, Checked.ok_bind, h.bounds_eq_ok hc, Checked.liftM_ok]
  have hnumber : ∀ slot < ax.slots c, t.globalId space a slot = .ok (ax.globalAt c slot) := by
    intro slot hslot
    rw [globalId, hpart, Checked.ok_bind, h.globalId_eq hc hslot, Checked.liftM_ok]
  have hlow := AxisDefinition.touchesLow_eq hc.toPlaced
  have hhigh := AxisDefinition.touchesHigh_eq hc.toPlaced
  have hchain := ax.chain_zones c
  refine
    { extent := h.extent
      zones := ⟨_, Checked.mapM_eq_ok fun domain _ => hrange domain, hchain, fun slot hslot =>
        hchain.existsUnique (Nat.zero_le slot) hslot⟩
      extended := ⟨_, _, hrange .extended, h.localExtended_eq_ok hc,
        Checked.mapM_eq_ok fun domain _ => hrange domain, ax.chain_extendedZones c⟩
      all := hrange .all
      logical := ⟨hrange .logical, h.localLogical_eq hc⟩
      global := ⟨hrange .global, hbounds .global⟩
      bounds := fun domain hdomain => ⟨_, hbounds domain, ?_⟩
      faces := ⟨?_, ?_, ?_⟩
      owned := h.owned_eq hc
      padding := ⟨?_, ?_⟩
      ghosts := ?_
      numbered := fun i hi => ?_
      continued := hnumber }
  · rw [hrange, ax.rangeAt_eq_bounds c hdomain]
  · rw [isLow, hpart, Checked.ok_bind, h.isLow, hlow]
    rfl
  · rw [isHigh, hpart, Checked.ok_bind, h.isHigh, hhigh]
    rfl
  · rw [isInterior, hpart, Checked.ok_bind, IndexColoring.isInterior, h.isLow, Checked.ok_bind, h.isHigh,
      Checked.ok_bind, hlow, hhigh]
    simp
  · rw [h.boundaryLow_eq hc, AxisDefinition.padLow, hlow]
    simp
  · rw [h.boundaryHigh_eq hc, AxisDefinition.padHigh, hhigh]
    simp
  · rw [h.ghosts_eq hc, AxisDefinition.ghostLow, AxisDefinition.ghostHigh, hlow, hhigh]
    simp
  · have hlogical : Domain.logical ≠ .global := by decide
    have hslot : ax.start c + i < ax.slots c :=
      Nat.lt_of_lt_of_le (Nat.add_lt_add_left hi _) (ax.rangeAt_stop_le c hlogical)
    have hglobal : ax.globalAt c (ax.start c + i) = (ax.offset c + i : Nat) := by
      unfold AxisDefinition.globalAt
      omega
    rw [hnumber _ hslot, hglobal]

end Topology

/-- The part of a color exists, and each of its axes is laid out as the block and the faces of the
color say there. The face mask has the two bits of every axis and no others. -/
def ColoringDefinition.LaidOut (d : ColoringDefinition) (color : Nat) : Prop :=
  ∃ ic position, IndexColoring.of d color = .ok ic ∧ Grid.coords d.axisColors color = .ok position ∧
    ic.dimension = d.dimension ∧ (∀ i, ic.faceBit i = true → i < 2 * d.dimension) ∧
      ∀ a < d.dimension, ∃ ax c block, d.axis a = .ok ax ∧ position[a]? = some c ∧
        Block.of ax.extent ax.colors c = .ok block ∧
          ∃ slots first, ∀ (t : Topology) (space : Nat), t.metadata.spaces[space]? = some ic →
            t.LaidOut space a ic ax block slots first

namespace ColoringDefinition

/-- Every axis of every color of a valid definition whose numbers fit is laid out. The faces of an axis
depend on this axis only, so those of one axis never disturb another. -/
theorem laidOut_of_validate {d : ColoringDefinition} (hvalid : d.validate = .ok ()) (hfits : d.Fits)
    (color : Nat) : d.LaidOut color := by
  have hd := valid_of_validate hvalid
  have hpositions := hd.hasPositions_position hfits color
  obtain ⟨ic, hof, hdescribes⟩ := IndexColoring.of_eq_ok hd hfits color
  have hrecord := ((IndexColoring.of_eq_ok_iff hd).mp hof).2
  refine ⟨ic, _, hof, Grid.coords_eq_ok hd.colors_pos color,
    hdescribes.dimension.trans hd.dimension_eq.symm, fun i hi => ?_, fun a ha => ?_⟩
  · rw [hd.dimension_eq]
    exact IndexColoring.lt_of_faceBit_recordAt (hrecord ▸ hi)
  have hlt : a < d.axes.length := hd.dimension_eq ▸ ha
  have hax := List.getElem?_eq_getElem hlt
  obtain ⟨c, hc, hposition⟩ := Checked.getElem?_of_forall₂ hpositions hax
  have hblock := Block.of_eq_ok hposition.lt
    (Nat.lt_of_le_of_lt (Nat.le_add_right _ _) (Word.lt_limit hposition.fits))
  refine ⟨d.axes[a], c, _, hd.axis_eq_ok hax, hc, hblock, d.axes[a].slots c, d.axes[a].start c,
    fun t space hic => ?_⟩
  exact Topology.laidOut_of_reads hic (hdescribes.dimension.symm ▸ hlt) (hdescribes.reads hax hc)
    hposition

/-- Three colors on the first axis and one on the second: color 1 borders on no edge of the first axis
and on both edges of the second. -/
theorem laidOut_of_validate_three_by_one :
    let d : ColoringDefinition := ⟨[3, 1], [7, 4], [2, 1], [1, 3], [false, false]⟩
    d.validate = .ok () ∧ d.Fits ∧ d.LaidOut 0 ∧ d.LaidOut 1 ∧ d.LaidOut 2 := by
  intro d
  have hvalid : d.validate = .ok () := by decide
  have hfits : d.Fits := by
    change ∀ ax ∈ d.axes, ax.extent + 2 * (ax.halo + ax.boundary) < 2 ^ 63
    decide
  exact ⟨hvalid, hfits, laidOut_of_validate hvalid hfits 0, laidOut_of_validate hvalid hfits 1,
    laidOut_of_validate hvalid hfits 2⟩

end ColoringDefinition

end HaloMesh
