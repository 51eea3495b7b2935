-- SUMMARY: A valid spec without a coloring has a number or a list that leaves its range, and nothing else goes wrong.
import HaloMesh.Proofs.Coloring.Realizable

/-!
# Specs that cannot be realized

Which valid specs have a coloring is known (`Coloring.ofSpec_eq_ok_iff_realizable`). For every other
one the derivation ends in a fault, and the fault is that a number or a list is too large. So every
list has the entries that are read, no divisor is zero, no face bit lies past the mask, and the
invariants of the coloring, which are checked before it is returned, never report an error.
-/

namespace HaloMesh

open Checked (FailsWith)

/-- A number or a list is too large. -/
def Fault.LeavesRange : Fault → Prop
  | .overflow _ | .capacity => True
  | _ => False

/-- A fault of this kind, and no error that is reported. -/
def Failure.LeavesRange : Failure → Prop
  | .fault cause => cause.LeavesRange
  | .reported _ => False

/-! ## Arithmetic -/

section
variable {α : Type}

private theorem ite_leavesRange {p : Prop} [Decidable p] {a : α} {cause : Fault}
    (h : cause.LeavesRange) :
    FailsWith Fault.LeavesRange (if p then .ok a else .error cause : Except Fault α) := by
  split
  · exact .ok _ a
  · exact .error h

end

namespace Word

theorem add_leavesRange (a b : Nat) : FailsWith Fault.LeavesRange (add a b) :=
  ite_leavesRange trivial

theorem sub_leavesRange (a b : Nat) : FailsWith Fault.LeavesRange (sub a b) :=
  ite_leavesRange trivial

theorem mul_leavesRange (a b : Nat) : FailsWith Fault.LeavesRange (mul a b) :=
  ite_leavesRange trivial

theorem reserve_leavesRange (n : Nat) : FailsWith Fault.LeavesRange (reserve n) :=
  ite_leavesRange trivial

theorem sum_leavesRange (xs : List Nat) : FailsWith Fault.LeavesRange (sum xs) :=
  .foldlM (fun x _ s => add_leavesRange s x) 0

theorem product_leavesRange (xs : List Nat) : FailsWith Fault.LeavesRange (product xs) :=
  .foldlM (fun x _ s => mul_leavesRange s x) 1

end Word

theorem Signed.sub_leavesRange (a b : Int) : FailsWith Fault.LeavesRange (sub a b) :=
  ite_leavesRange trivial

/-! ## The records of one color -/

theorem Block.of_leavesRange {colors : Nat} (hcolors : 0 < colors) (extent c : Nat) :
    FailsWith Fault.LeavesRange (Block.of extent colors c) := by
  rw [Block.of, Word.div_of_pos hcolors, Word.mod_of_pos hcolors]
  refine (Word.add_leavesRange _ _).bind fun size => (Word.mul_leavesRange _ _).bind fun start => ?_
  exact (Word.add_leavesRange _ _).bind fun _ => .ok _ _

theorem AxisColoring.of_leavesRange {ax : AxisDefinition} (hcolors : 0 < ax.colors) (c : Nat) :
    FailsWith Fault.LeavesRange (AxisColoring.of ax c) := by
  refine (Block.of_leavesRange hcolors _ _).bind fun block => ?_
  refine (Word.add_leavesRange _ _).bind fun stop => (Word.sum_leavesRange _).bind fun extent => ?_
  exact (Signed.sub_leavesRange _ _).bind fun _ => (Word.add_leavesRange _ _).bind fun _ => .ok _ _

namespace IndexColoring

theorem axisPart_leavesRange {d : ColoringDefinition} (hd : d.Valid) {a : Nat}
    {ax : AxisDefinition} (hax : d.axes[a]? = some ax) (c : Nat) :
    FailsWith Fault.LeavesRange (axisPart d a c) := by
  have hcolors := (hd.axis_valid ax (List.mem_of_getElem? hax)).colors_pos
  rw [axisPart, hd.axis_eq_ok hax]
  refine (AxisColoring.of_leavesRange hcolors c).bind fun part => .bind ?_ fun _ => .ok _ _
  exact ite_leavesRange trivial

theorem of_leavesRange {d : ColoringDefinition} (hd : d.Valid) (color : Nat) :
    FailsWith Fault.LeavesRange (of d color) := by
  rw [of, Grid.coords_eq_ok hd.colors_pos, Checked.ok_bind]
  refine .bind (.mapM fun axis hmem => ?_) fun _ => .ok _ _
  obtain ⟨ax, hax, -⟩ := Checked.getElem?_of_forall₂ (hd.arePlaced_position color).flip
    (List.mem_zipIdx_iff_getElem?.mp hmem)
  exact axisPart_leavesRange hd hax axis.1

theorem Records.ghosts_leavesRange {ic : IndexColoring} {a c : Nat} {ax : AxisDefinition}
    (h : ic.Records a ax c) : FailsWith Fault.LeavesRange (ic.ghosts a) := by
  have hlength : FailsWith Fault.LeavesRange (ic.extendedLength a) := by
    rw [extendedLength, width, fetch_eq_ok_iff.mpr h.extendedHigh, Checked.ok_bind,
      fetch_eq_ok_iff.mpr h.extendedLow, Checked.ok_bind]
    exact (Signed.sub_leavesRange _ _).bind fun _ => .ok _ _
  rw [ghosts, fetch_eq_ok_iff.mpr h.extent, Checked.ok_bind, h.isLow, h.isHigh]
  exact hlength.bind fun _ => (Word.sub_leavesRange _ _).bind fun _ => .ok _ _

end IndexColoring

/-! ## The coloring of a spec -/

namespace Coloring

theorem partsOfSpace_leavesRange {d : ColoringDefinition} (hd : d.Valid) (colors : Nat) :
    FailsWith Fault.LeavesRange (partsOfSpace colors d) :=
  (Word.reserve_leavesRange _).bind fun _ => .mapM fun color _ => IndexColoring.of_leavesRange hd color

/-- If ghost widths can be read, they are those that the halo depth gives. -/
theorem checkGhosts_leavesRange {d : ColoringDefinition} (hd : d.Valid) {ic : IndexColoring}
    {a c : Nat} {ax : AxisDefinition} (hax : d.axes[a]? = some ax) (hrecords : ic.Records a ax c)
    (hc : ax.Colorable c) (s : Nat) : FailsWith Failure.LeavesRange (checkGhosts s d ic a) := by
  by_cases hs : ax.Storable c
  · rw [(checkGhosts_eq_ok_iff hd hax hrecords hc s).mpr hs]
    exact .ok _ ()
  · obtain ⟨-, -, hfetch⟩ := hd.fetch_eq_ok hax
    simp only [checkGhosts, hfetch, hrecords.isLow, hrecords.isHigh, Checked.liftM_ok, Checked.ok_bind]
    refine (FailsWith.lift hrecords.ghosts_leavesRange).andThen fun ghosts hghosts => ?_
    exact absurd ((hrecords.ghosts_eq_ok_iff hc).mp (Checked.liftM_eq_ok_iff.mp hghosts)).1 hs

section
variable {spec : ColoringSpec}

theorem check_leavesRange (hspec : spec.Valid) (hcolors : spec.axisColors.prod < Word.limit)
    (hcolorable : ∀ d ∈ spec.indexSpaces, ∀ color < spec.axisColors.prod,
      List.Forall₂ AxisDefinition.Colorable d.axes (Grid.position d.axisColors color)) :
    FailsWith Failure.LeavesRange (realized spec).check := by
  refine .forM fun space hmem => ?_
  obtain ⟨d, s⟩ := space
  have hs : spec.indexSpaces[s]? = some d := List.mem_zipIdx_iff_getElem?.mp hmem
  have hd := List.mem_of_getElem? hs
  have hvalid := hspec.space_valid d hd
  change FailsWith _ ((realized spec).checkSpace d s)
  rw [checkSpace_realized hspec hcolors hs]
  refine .forM fun part hpart => .forM fun a ha => ?_
  obtain ⟨color, hcolor, rfl⟩ := List.mem_map.mp hpart
  have hall := hcolorable d hd color (List.mem_range.mp hcolor)
  have haxes : a < d.axes.length := by
    rwa [List.mem_range, IndexColoring.dimension_recordAt hall.length_eq] at ha
  have hax := List.getElem?_eq_getElem haxes
  obtain ⟨c, hposition, hc⟩ := Checked.getElem?_of_forall₂ hall hax
  have hrecords := IndexColoring.records_recordAt hvalid.dimension_le hax hposition
  exact checkGhosts_leavesRange hvalid hax hrecords hc s

/-- A valid spec that has no coloring leaves the range of a number or a list. -/
theorem ofSpec_leavesRange (hvalid : spec.validate = .ok ()) :
    FailsWith Failure.LeavesRange (ofSpec spec) := by
  have hspec := ColoringSpec.valid_of_validate hvalid
  have hcolors : FailsWith Fault.LeavesRange spec.colors := by
    unfold ColoringSpec.colors
    split
    · exact .ok _ 0
    · exact Word.product_leavesRange _
  have hparts : ∀ colors, FailsWith Fault.LeavesRange (partsOf spec colors) := fun colors =>
    .mapM fun d hd => partsOfSpace_leavesRange (hspec.space_valid d hd) colors
  rw [ofSpec, hvalid]
  refine (FailsWith.lift hcolors).andThen fun colors heq => ?_
  cases hspec.eq_prod_of_colors (Checked.liftM_eq_ok_iff.mp heq)
  refine (FailsWith.lift (hparts _)).andThen fun parts heq => ?_
  obtain ⟨hlist, hcolorable, rfl⟩ := (partsOf_eq_ok_iff hspec).mp (Checked.liftM_eq_ok_iff.mp heq)
  have hcheck := check_leavesRange hspec (ColoringSpec.colors_lt_of_list_le hlist) hcolorable
  refine .bind (.lift ?_) fun _ => .ok _ _
  change FailsWith _ (assertInvariants (realized spec).check)
  cases hchecked : (realized spec).check with
  | ok _ => exact .ok _ ()
  | error failure =>
    cases failure with
    | reported error => exact (hcheck _ hchecked).elim
    | fault cause => exact .error (hcheck _ hchecked)

/-- A valid spec has a coloring, or a fault says that a number or a list is too large. -/
theorem ofSpec_cases (hvalid : spec.validate = .ok ()) :
    (spec.Realizable ∧ ofSpec spec = .ok (realized spec)) ∨
      ¬ spec.Realizable ∧ ∃ cause, cause.LeavesRange ∧ ofSpec spec = .error (.fault cause) := by
  cases hof : ofSpec spec with
  | ok coloring =>
    obtain ⟨-, hrealizable, rfl⟩ := ofSpec_eq_ok_iff_realizable.mp hof
    exact .inl ⟨hrealizable, rfl⟩
  | error failure =>
    refine .inr ⟨fun hrealizable => ?_, ?_⟩
    · have := ofSpec_eq_ok_iff_realizable.mpr ⟨hvalid, hrealizable, rfl⟩
      rw [hof] at this
      cases this
    · have hleaves := ofSpec_leavesRange hvalid failure hof
      cases failure with
      | reported error => exact hleaves.elim
      | fault cause => exact ⟨cause, hleaves, rfl⟩

end

end Coloring

end HaloMesh
