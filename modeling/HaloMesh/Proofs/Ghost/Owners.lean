-- SUMMARY: No two slots are both the owner of one ghost slot.
import HaloMesh.Proofs.Ghost.Zones

/-!
# Owners of ghost slots

An owned slot has a global index inside the axis, and the blocks of the axis do not overlap. So among
all colors there is only one owned slot with the global index of a given ghost slot, also if indices
are counted modulo the extent.
-/

namespace HaloMesh

namespace AxisDefinition

variable {ax : AxisDefinition} {c c' y y' : Nat}

/-- An owned slot has a global index of its block. -/
theorem HasPosition.globalAt_owned (h : ax.HasPosition c) (hlow : ax.start c ≤ y)
    (hhigh : y < ax.stop c) : ∃ i : Nat, ax.globalAt c y = i ∧ ax.offset c ≤ i ∧
      i < ax.offset c + ax.owned c ∧ i < ax.extent ∧ y = i - ax.offset c + ax.start c := by
  have hblock := h.offset_add_owned_le
  unfold stop at hhigh
  refine ⟨ax.offset c + (y - ax.start c), ?_, ?_⟩
  · unfold globalAt
    omega
  · omega

/-- Owned slots with the same global index are the same. -/
theorem HasPosition.owned_unique (h : ax.HasPosition c) (h' : ax.HasPosition c')
    (hy : ax.start c ≤ y ∧ y < ax.stop c) (hy' : ax.start c' ≤ y' ∧ y' < ax.stop c')
    (hglobal : ax.globalAt c y % ax.extent = ax.globalAt c' y' % ax.extent) : c = c' ∧ y = y' := by
  obtain ⟨i, hi, hlow, hhigh, hextent, heq⟩ := h.globalAt_owned hy.1 hy.2
  obtain ⟨i', hi', hlow', hhigh', hextent', heq'⟩ := h'.globalAt_owned hy'.1 hy'.2
  rw [hi, hi', Int.emod_eq_of_lt (Int.natCast_nonneg i) (Int.ofNat_lt.mpr hextent),
    Int.emod_eq_of_lt (Int.natCast_nonneg i') (Int.ofNat_lt.mpr hextent')] at hglobal
  cases Int.ofNat_inj.mp hglobal
  obtain ⟨_, _, hunique⟩ := Block.existsUnique_block h.valid.colors_pos hextent
  have hc : c = c' := (hunique c ⟨h.lt, hlow, hhigh⟩).trans (hunique c' ⟨h'.lt, hlow', hhigh'⟩).symm
  subst hc
  exact ⟨rfl, heq.trans heq'.symm⟩

end AxisDefinition

/-- Modulo the extent the global indices agree on every axis, periodic or not. -/
theorem ColoringDefinition.SameGlobal.emod_eq {d : ColoringDefinition} {me nb : IndexColoring}
    {x y : List Nat} (hsame : d.SameGlobal me nb x y) {a : Nat} {ax : AxisDefinition}
    (hax : d.axis a = .ok ax) : ∃ i j g k, x[a]? = some i ∧ y[a]? = some j ∧
      me.globalId a i = .ok g ∧ nb.globalId a j = .ok k ∧ g % ax.extent = k % ax.extent := by
  obtain ⟨i, j, g, k, hi, hj, hg, hk, hgk⟩ := hsame a ax hax
  refine ⟨i, j, g, k, hi, hj, hg, hk, ?_⟩
  split at hgk
  · exact hgk
  · rw [hgk]

namespace Ghost

/-- Slot `src` of color `source` is owned and has the global index of local coordinates of `me`. -/
def Owns (d : ColoringDefinition) (parts : List IndexColoring) (me : IndexColoring) (x : List Nat)
    (source src : Nat) : Prop :=
  ∃ nb y, parts[source]? = some nb ∧ nb.IsOwned y ∧ nb.linear y = .ok src ∧ d.SameGlobal me nb x y

section
variable {coloring : Coloring} {space : Nat} {d : ColoringDefinition} {parts : List IndexColoring}

/-- The two slots agree axis by axis. -/
theorem owner_unique_on_axis (h : coloring.HasSpace space d parts) {source source' : Nat}
    (hsource : source < parts.length) (hsource' : source' < parts.length) {me : IndexColoring}
    {x y y' : List Nat} (howned : parts[source].IsOwned y) (howned' : parts[source'].IsOwned y')
    (hsame : d.SameGlobal me parts[source] x y) (hsame' : d.SameGlobal me parts[source'] x y')
    {a : Nat} (ha : a < d.axes.length) :
    (Grid.position d.axisColors source)[a]? = (Grid.position d.axisColors source')[a]? ∧
      y[a]? = y'[a]? := by
  have hax := List.getElem?_eq_getElem ha
  have haxis := h.valid.axis_eq_ok hax
  obtain ⟨c, hc, hposition⟩ :=
    Checked.getElem?_of_forall₂ (h.valid.hasPositions_position h.fits source) hax
  obtain ⟨c', hc', hposition'⟩ :=
    Checked.getElem?_of_forall₂ (h.valid.hasPositions_position h.fits source') hax
  have hread := (h.partsOf.describes source hsource).reads hax hc
  have hread' := (h.partsOf.describes source' hsource').reads hax hc'
  obtain ⟨i, j, g, k, hi, hj, hg, hk, hgk⟩ := hsame.emod_eq haxis
  obtain ⟨i', j', g', k', hi', hj', hg', hk', hgk'⟩ := hsame'.emod_eq haxis
  -- Both are compared with the same slot of `me`.
  cases hi.symm.trans hi'
  cases hg.symm.trans hg'
  have hbounds := (hread.zone_bounds hposition).2.1.mp (howned.2 a j hj)
  have hbounds' := (hread'.zone_bounds hposition').2.1.mp (howned'.2 a j' hj')
  have hslots : ∀ n, d.axes[a].stop n ≤ d.axes[a].slots n := fun n =>
    Nat.le_trans (Nat.le_add_right _ _) (Nat.le_add_right _ _)
  rw [hread.globalId_eq hposition (Nat.lt_of_lt_of_le hbounds.2 (hslots c)), Except.ok.injEq] at hk
  rw [hread'.globalId_eq hposition' (Nat.lt_of_lt_of_le hbounds'.2 (hslots c')),
    Except.ok.injEq] at hk'
  have hglobal : d.axes[a].globalAt c j % d.axes[a].extent =
      d.axes[a].globalAt c' j' % d.axes[a].extent := by
    rw [hk, hk']
    exact hgk.symm.trans hgk'
  obtain ⟨rfl, rfl⟩ := hposition.owned_unique hposition' hbounds hbounds' hglobal
  exact ⟨hc.trans hc'.symm, hj.trans hj'.symm⟩

/-- Among the owned slots of all colors, one at most has the global index of a given slot. -/
theorem owner_unique (h : coloring.HasSpace space d parts) {source source' : Nat}
    (hsource : source < parts.length) (hsource' : source' < parts.length) {me : IndexColoring}
    {x y y' : List Nat} (howned : parts[source].IsOwned y) (howned' : parts[source'].IsOwned y')
    (hsame : d.SameGlobal me parts[source] x y) (hsame' : d.SameGlobal me parts[source'] x y') :
    source = source' ∧ y = y' := by
  have haxis : ∀ {a : Nat}, a < d.axes.length → _ :=
    owner_unique_on_axis h hsource hsource' howned howned' hsame hsame'
  have hlength : ∀ source, (Grid.position d.axisColors source).length = d.axes.length := by
    intro source
    rw [Grid.length_position, h.valid.axisColors_eq, List.length_map]
  have hy : y.length = d.axes.length := howned.1.trans (h.partsOf.describes source hsource).dimension
  have hy' : y'.length = d.axes.length :=
    howned'.1.trans (h.partsOf.describes source' hsource').dimension
  have hpositions : Grid.position d.axisColors source = Grid.position d.axisColors source' := by
    refine List.ext_getElem? fun a => ?_
    by_cases ha : a < d.axes.length
    · exact (haxis ha).1
    · rw [List.getElem?_eq_none (hlength source ▸ Nat.not_lt.mp ha),
        List.getElem?_eq_none (hlength source' ▸ Nat.not_lt.mp ha)]
  refine ⟨?_, List.ext_getElem? fun a => ?_⟩
  · have hnumber := Grid.number_position (h.partsOf.length_eq ▸ hsource)
    rw [← hnumber, hpositions, Grid.number_position (h.partsOf.length_eq ▸ hsource')]
  · by_cases ha : a < d.axes.length
    · exact (haxis ha).2
    · rw [List.getElem?_eq_none (hy ▸ Nat.not_lt.mp ha),
        List.getElem?_eq_none (hy' ▸ Nat.not_lt.mp ha)]

theorem Owns.unique (h : coloring.HasSpace space d parts) {me : IndexColoring} {x : List Nat}
    {source source' src src' : Nat} (howns : Owns d parts me x source src)
    (howns' : Owns d parts me x source' src') : source = source' ∧ src = src' := by
  obtain ⟨_, y, hnb, howned, hsrc, hsame⟩ := howns
  obtain ⟨_, y', hnb', howned', hsrc', hsame'⟩ := howns'
  obtain ⟨hsource, rfl⟩ := List.getElem?_eq_some_iff.mp hnb
  obtain ⟨hsource', rfl⟩ := List.getElem?_eq_some_iff.mp hnb'
  obtain ⟨rfl, rfl⟩ := owner_unique h hsource hsource' howned howned' hsame hsame'
  exact ⟨rfl, Except.ok.inj (hsrc.symm.trans hsrc')⟩

/-- A ghost slot is filled from its owner. -/
theorem exists_fill_of_isGhost (h : coloring.HasSpace space d parts) {color : Nat}
    (hcolor : color < parts.length) {x : List Nat} (hx : parts[color].IsGhost x) :
    ∃ fill ∈ fillsAt d.axes (Grid.position d.axisColors color),
      parts[color].linear x = .ok fill.dest ∧
        Owns d parts parts[color] x fill.source fill.src := by
  have hcovers := covers_fillsAt h hcolor
  have hwithin := within_of_isGhost h hcolor hx
  obtain ⟨fill, hfill, hslot⟩ := hcovers.filled x hx
  obtain ⟨nb, x', y, hnb, hx', hslot', howned, hsrc, hsame⟩ := hcovers.source fill hfill
  cases eq_of_linear h hcolor hwithin (within_of_isGhost h hcolor hx') hslot hslot'
  exact ⟨fill, hfill, hslot, nb, y, hnb, howned, hsrc, hsame⟩

end

end Ghost

end HaloMesh
