-- SUMMARY: The queries of a color's record read back the widths of its axes.
import HaloMesh.Proofs.Coloring.Layout
import HaloMesh.Topology.Domain

/-!
# Reading widths back

`IndexColoring` recovers the widths of ghosts, padding and owned block from extents, boxes and face
bits. For the record of a position that can be colored, every query succeeds and gives the width
that the axis has there.
-/

namespace HaloMesh

/-! ## Slots along an axis -/

namespace AxisDefinition

variable (ax : AxisDefinition) (c : Nat)

theorem extended_le_slots : ax.padLow c + ax.owned c + ax.padHigh c ≤ ax.slots c := by
  unfold slots stop start
  omega

theorem slots_sub_extended :
    ax.slots c - (ax.padLow c + ax.owned c + ax.padHigh c) = ax.ghostLow c + ax.ghostHigh c := by
  unfold slots stop start
  omega

theorem splitGhosts_eq : IndexColoring.splitGhosts (ax.ghostLow c + ax.ghostHigh c)
    (ax.touchesLow c) (ax.touchesHigh c) = (ax.ghostLow c, ax.ghostHigh c) := by
  unfold ghostLow ghostHigh
  cases ax.touchesLow c <;> cases ax.touchesHigh c <;> simp [IndexColoring.splitGhosts]
  omega

end AxisDefinition

namespace IndexColoring

/-! ## Widths -/

/-- The distance of two corners is a width if it is not negative and stays in range. -/
theorem width_eq_ok {high low : List Int} {a n : Nat} {l : Int} (hhigh : high[a]? = some (l + n))
    (hlow : low[a]? = some l) (hn : n < 2 ^ 63) : width high low a = .ok n := by
  have hsub : Signed.sub (l + n) l = .ok (n : Int) := by
    have hdiff : l + n - l = n := by omega
    rw [Signed.sub_eq_ok_iff, hdiff]
    refine ⟨?_, rfl⟩
    unfold Signed.InRange
    omega
  rw [width, fetch_eq_ok_iff.mpr hhigh, Checked.ok_bind, fetch_eq_ok_iff.mpr hlow, Checked.ok_bind,
    hsub, Checked.ok_bind, Signed.toSize_of_nonneg (by omega) (by omega)]
  simp

namespace Reads

variable {ic : IndexColoring} {a : Nat} {ax : AxisDefinition} {c : Nat}

theorem owned_eq (h : ic.Reads a ax c) (hc : ax.HasPosition c) :
    ic.owned a = .ok (ax.owned c) := by
  have hslots := hc.slots_lt
  refine width_eq_ok ?_ h.logicalLow ?_
  · rw [h.logicalHigh, Int.natCast_add]
  · unfold AxisDefinition.slots AxisDefinition.stop at hslots
    omega

theorem boundaryLow_eq (h : ic.Reads a ax c) (hc : ax.HasPosition c) :
    ic.boundaryLow a = .ok (ax.padLow c) := by
  have hslots := hc.slots_lt
  refine width_eq_ok ?_ h.extendedLow ?_
  · rw [h.logicalLow, Int.sub_add_cancel]
  · unfold AxisDefinition.slots AxisDefinition.stop AxisDefinition.start at hslots
    omega

theorem boundaryHigh_eq (h : ic.Reads a ax c) (hc : ax.HasPosition c) :
    ic.boundaryHigh a = .ok (ax.padHigh c) := by
  have hslots := hc.slots_lt
  refine width_eq_ok ?_ h.logicalHigh ?_
  · rw [h.extendedHigh, Int.natCast_add]
  · unfold AxisDefinition.slots at hslots
    omega

theorem extendedLength_eq (h : ic.Reads a ax c) (hc : ax.HasPosition c) :
    ic.extendedLength a = .ok (ax.padLow c + ax.owned c + ax.padHigh c) := by
  have hslots := hc.slots_lt
  refine width_eq_ok ?_ h.extendedLow ?_
  · rw [h.extendedHigh]
    congr 1
    omega
  · unfold AxisDefinition.slots AxisDefinition.stop AxisDefinition.start at hslots
    omega

/-- The slots that are neither owned nor padding are split as the faces say. -/
theorem ghosts_eq (h : ic.Reads a ax c) (hc : ax.HasPosition c) :
    ic.ghosts a = .ok (ax.ghostLow c, ax.ghostHigh c) := by
  rw [ghosts, fetch_eq_ok_iff.mpr h.extent, Checked.ok_bind, h.extendedLength_eq hc,
    Checked.ok_bind, Word.sub_of_le (ax.extended_le_slots c), Checked.ok_bind, h.isLow, Checked.ok_bind,
    h.isHigh, Checked.ok_bind, ax.slots_sub_extended c, ax.splitGhosts_eq c]
  rfl

theorem ghostLow_eq (h : ic.Reads a ax c) (hc : ax.HasPosition c) :
    ic.ghostLow a = .ok (ax.ghostLow c) := by
  rw [ghostLow, h.ghosts_eq hc]
  rfl

theorem ghostHigh_eq (h : ic.Reads a ax c) (hc : ax.HasPosition c) :
    ic.ghostHigh a = .ok (ax.ghostHigh c) := by
  rw [ghostHigh, h.ghosts_eq hc]
  rfl

theorem localLogical_eq (h : ic.Reads a ax c) (hc : ax.HasPosition c) :
    ic.localLogical a = .ok ⟨ax.start c, ax.stop c⟩ := by
  have hslots := hc.slots_lt
  unfold AxisDefinition.slots at hslots
  have hstop : ax.stop c < Word.limit := Word.lt_limit (by omega)
  have hstart : ax.start c < Word.limit := Nat.lt_of_le_of_lt (Nat.le_add_right _ _) hstop
  have haddStart : Word.add (ax.ghostLow c) (ax.padLow c) = .ok (ax.start c) :=
    Word.add_of_lt hstart
  have haddStop : Word.add (ax.start c) (ax.owned c) = .ok (ax.stop c) := Word.add_of_lt hstop
  rw [localLogical, h.ghostLow_eq hc, Checked.ok_bind, h.boundaryLow_eq hc, Checked.ok_bind,
    haddStart, Checked.ok_bind, h.owned_eq hc, Checked.ok_bind, haddStop]
  rfl

/-- Local slots are numbered on from the owned ones, to both sides. -/
theorem globalId_eq (h : ic.Reads a ax c) (hc : ax.HasPosition c) {slot : Nat}
    (hslot : slot < ax.slots c) : ic.globalId a slot = .ok (ax.globalAt c slot) := by
  have hfits := hc.fits
  have hblock := hc.offset_add_owned_le
  have hpad := AxisDefinition.ghostLow_add_padLow_le ax c
  have hslots := hc.slots_lt
  unfold AxisDefinition.Fits at hfits
  have hstart : ax.start c ≤ ax.halo + ax.boundary := hpad
  have hrange : (slot : Int) ≤ ax.start c + ax.owned c + (ax.halo + ax.boundary) := by
    have := AxisDefinition.padHigh_add_ghostHigh_le ax c
    unfold AxisDefinition.slots AxisDefinition.stop at hslot
    omega
  have horigin : Signed.sub (ax.offset c) (Signed.ofSize (ax.start c)) =
      .ok ((ax.offset c : Int) - ax.start c) := by
    rw [Signed.ofSize_of_lt (by omega), Signed.sub_eq_ok_iff]
    refine ⟨?_, rfl⟩
    unfold Signed.InRange
    omega
  have hadd : Signed.add ((ax.offset c : Int) - ax.start c) (Signed.ofSize slot) =
      .ok (ax.globalAt c slot) := by
    rw [Signed.ofSize_of_lt (by omega), Signed.add_eq_ok_iff]
    refine ⟨?_, rfl⟩
    unfold Signed.InRange
    omega
  rw [globalId, fetch_eq_ok_iff.mpr h.logicalLow, Checked.ok_bind, h.localLogical_eq hc,
    Checked.ok_bind, horigin, Checked.ok_bind, hadd]

end Reads

/-! ## Coordinates that wrap around -/

theorem width_eq_ok_iff {high low : List Int} {a n : Nat} {x y : Int} (hhigh : high[a]? = some x)
    (hlow : low[a]? = some y) :
    width high low a = .ok n ↔ Signed.InRange (x - y) ∧ n = Signed.toSize (x - y) := by
  rw [width, fetch_eq_ok_iff.mpr hhigh, Checked.ok_bind, fetch_eq_ok_iff.mpr hlow, Checked.ok_bind,
    Checked.bind_eq_ok_iff]
  constructor
  · rintro ⟨z, hsub, hsize⟩
    obtain ⟨hrange, hz⟩ := Signed.sub_eq_ok_iff.mp hsub
    exact ⟨hrange, hz ▸ (Except.ok.inj hsize).symm⟩
  · rintro ⟨hrange, rfl⟩
    exact ⟨_, Signed.sub_eq_ok_iff.mpr ⟨hrange, rfl⟩, rfl⟩

namespace Records

variable {ic : IndexColoring} {a : Nat} {ax : AxisDefinition} {c : Nat}

theorem gives_owned (h : ic.Records a ax c) (hc : ax.Colorable c) :
    Checked.Gives (ic.owned a) (ax.owned c) := by
  intro n hn
  have hhigh := hc.high_lt
  obtain ⟨-, hsize⟩ := (width_eq_ok_iff h.logicalHigh h.logicalLow).mp hn
  obtain ⟨k, hk⟩ := Signed.exists_ofSize_eq (ax.offset c + ax.owned c)
  obtain ⟨l, hl⟩ := Signed.exists_ofSize_eq (ax.offset c)
  rw [hsize]
  refine Signed.toSize_eq (k := k - l) (by omega) ?_
  rw [hk, hl, Int.mul_sub]
  omega

theorem boundaryLow_eq (h : ic.Records a ax c) (hc : ax.Colorable c) :
    ic.boundaryLow a = .ok (ax.padLow c) := by
  have hslots := hc.slots_lt
  obtain ⟨k, hk⟩ := Signed.exists_ofSize_eq (ax.padLow c)
  refine (width_eq_ok_iff h.logicalLow h.extendedLow).mpr ?_
  rw [Int.sub_sub_self]
  refine ⟨Signed.inRange_ofSize _, (Signed.toSize_eq ?_ hk).symm⟩
  unfold AxisDefinition.slots AxisDefinition.stop AxisDefinition.start at hslots
  omega

/-- The distance of the corners is that of the widths, as far as coordinates can tell. -/
private theorem toSize_extended (hc : ax.Colorable c) :
    Signed.toSize (Signed.ofSize (ax.offset c + ax.owned c + ax.padHigh c) -
      (Signed.ofSize (ax.offset c) - Signed.ofSize (ax.padLow c))) =
        ax.padLow c + ax.owned c + ax.padHigh c := by
  have hslots := hc.slots_lt
  obtain ⟨k, hk⟩ := Signed.exists_ofSize_eq (ax.offset c + ax.owned c + ax.padHigh c)
  obtain ⟨l, hl⟩ := Signed.exists_ofSize_eq (ax.offset c)
  obtain ⟨m, hm⟩ := Signed.exists_ofSize_eq (ax.padLow c)
  refine Signed.toSize_eq (k := k - l + m) ?_ ?_
  · exact Nat.lt_of_le_of_lt (ax.extended_le_slots c) hslots
  · rw [hk, hl, hm, Int.mul_add, Int.mul_sub]
    omega

theorem extendedLength_eq_ok_iff (h : ic.Records a ax c) (hc : ax.Colorable c) {n : Nat} :
    ic.extendedLength a = .ok n ↔ ax.Storable c ∧ n = ax.padLow c + ax.owned c + ax.padHigh c := by
  rw [extendedLength, width_eq_ok_iff h.extendedHigh h.extendedLow, toSize_extended hc]
  exact ⟨fun hn => ⟨⟨hc, hn.1⟩, hn.2⟩, fun hn => ⟨hn.1.extended_inRange, hn.2⟩⟩

/-- The slots that are neither owned nor padding are split as the faces say. -/
theorem ghosts_eq_ok_iff (h : ic.Records a ax c) (hc : ax.Colorable c) {ghosts : Nat × Nat} :
    ic.ghosts a = .ok ghosts ↔ ax.Storable c ∧ ghosts = (ax.ghostLow c, ax.ghostHigh c) := by
  have hsplit : ∀ n, n = ax.padLow c + ax.owned c + ax.padHigh c → (do
      let slots ← Word.sub (ax.slots c) n
      return splitGhosts slots (← ic.isLow a) (← ic.isHigh a) : Except Fault (Nat × Nat)) =
        .ok (ax.ghostLow c, ax.ghostHigh c) := by
    rintro n rfl
    rw [h.isLow, h.isHigh, Word.sub_of_le (ax.extended_le_slots c), ax.slots_sub_extended c]
    simp only [Checked.ok_bind, Checked.pure_eq_ok, ax.splitGhosts_eq]
  rw [IndexColoring.ghosts, fetch_eq_ok_iff.mpr h.extent, Checked.ok_bind, Checked.bind_eq_ok_iff]
  constructor
  · rintro ⟨n, hn, hghosts⟩
    obtain ⟨hs, hn⟩ := (h.extendedLength_eq_ok_iff hc).mp hn
    exact ⟨hs, Except.ok.inj (hghosts.symm.trans (hsplit n hn))⟩
  · rintro ⟨hs, rfl⟩
    exact ⟨_, (h.extendedLength_eq_ok_iff hc).mpr ⟨hs, rfl⟩, hsplit _ rfl⟩

theorem ghostLow_eq (h : ic.Records a ax c) (hc : ax.Storable c) :
    ic.ghostLow a = .ok (ax.ghostLow c) := by
  rw [ghostLow, (h.ghosts_eq_ok_iff hc.toColorable).mpr ⟨hc, rfl⟩]
  rfl

theorem ghostHigh_eq (h : ic.Records a ax c) (hc : ax.Storable c) :
    ic.ghostHigh a = .ok (ax.ghostHigh c) := by
  rw [ghostHigh, (h.ghosts_eq_ok_iff hc.toColorable).mpr ⟨hc, rfl⟩]
  rfl

theorem gives_localLogical (h : ic.Records a ax c) (hc : ax.Storable c) :
    Checked.Gives (ic.localLogical a) ⟨ax.start c, ax.stop c⟩ := by
  rw [localLogical, h.ghostLow_eq hc, Checked.ok_bind, h.boundaryLow_eq hc.toColorable,
    Checked.ok_bind]
  refine (Word.gives_add _ _).bind ((h.gives_owned hc.toColorable).bind ?_)
  exact (Word.gives_add _ _).bind (.ok _)

end Records

end IndexColoring

end HaloMesh
