-- SUMMARY: What coloring a valid spec or a uniform mesh ends in, and when it leaves the range of a number or a list.
import HaloMesh.Mesh.Basic
import HaloMesh.Proofs.Coloring.Faults
import HaloMesh.Proofs.Coloring.Spec
import HaloMesh.Proofs.Mesh.Factor

/-!
# Coloring meshes

A uniform mesh computes the extents of its vertices and, if no color grid is given, a color grid
before its spec is validated. So it can overflow where validation would have reported an error, and
also where it would have found nothing wrong. `UniformMesh.HasRoom` says of which numbers this
cannot happen.
-/

namespace HaloMesh

open Checked (FailsWith)

namespace UniformMesh

/-- Every axis has room for its vertices, and the processes can be split over the axes if they have
to be. -/
structure HasRoom (m : UniformMesh) (processes : Nat) : Prop where
  vertices : ∀ axis ∈ m.cells.zip m.periodic, axis.1 + (if axis.2 then 0 else 1) < Word.limit
  grid : m.axisColors = none → Splittable processes m.cells

/-- An error is reported, or a number of the mesh overflows. -/
def Overflows (m : UniformMesh) (processes : Nat) : Failure → Prop
  | .reported _ => True
  | .fault cause => (∃ operation, cause = .overflow operation) ∧ ¬ m.HasRoom processes

variable (m : UniformMesh) (processes : Nat)

theorem reported_failsWith {α : Type} (x : Except MeshError α) :
    FailsWith (m.Overflows processes) (liftM x : Except Failure α) :=
  .lift_reported fun _ _ => trivial

theorem space_failsWith (grid : List Nat) (vertices : Bool) :
    FailsWith (m.Overflows processes) (liftM (m.space grid vertices) : Except Failure _) := by
  refine .lift (.bind (.mapM fun axis haxis => .bind ?_ fun _ => .ok _ _) fun _ => .ok _ _)
  have hmem := (List.of_mem_zip haxis).1
  refine (Word.add_failsWith _ _).mono fun cause hcause => ⟨⟨_, hcause.1⟩, fun hroom => ?_⟩
  refine Nat.not_lt_of_le hcause.2 (Nat.lt_of_le_of_lt ?_ (hroom.vertices _ hmem))
  cases vertices <;> cases axis.1.2 <;> simp

theorem grid_failsWith (h : processes < Word.limit) :
    FailsWith (m.Overflows processes) (m.grid processes) := by
  unfold grid
  split
  · exact (reported_failsWith m processes _).bind fun _ => .ok _ _
  · rename_i hnone
    refine .lift ((factorColors_failsWith h m.cells).mono ?_)
    exact fun cause hcause => ⟨⟨_, hcause.1⟩, fun hroom => hcause.2 (hroom.grid hnone)⟩

theorem color_failsWith (h : processes < Word.limit) :
    FailsWith (m.Overflows processes) (m.color processes) := by
  refine (reported_failsWith m processes _).bind fun _ => ?_
  refine (m.grid_failsWith processes h).bind fun grid => ?_
  refine (m.space_failsWith processes grid false).bind fun cells => ?_
  refine (m.space_failsWith processes grid true).bind fun vertices => ?_
  exact (reported_failsWith m processes _).bind fun _ => .ok _ _

theorem validate_of_color {spec : ColoringSpec} (h : m.color processes = .ok spec) :
    spec.validate = .ok () := by
  simp only [color, Checked.bind_eq_ok_iff, Checked.liftM_reported_eq_ok_iff, Checked.pure_eq_ok,
    Except.ok.injEq] at h
  obtain ⟨_, _, grid, _, cells, _, vertices, _, _, hvalid, rfl⟩ := h
  exact hvalid

end UniformMesh

/-- A valid spec has its coloring, unless a number or a list is too large for it, which is then what
the derivation faults with. A uniform mesh yields a valid spec, reports an error, or overflows for
lack of room. -/
theorem coloring_settles {spec : ColoringSpec} (hvalid : spec.validate = .ok ()) (m : UniformMesh)
    {processes : Nat} (h : processes < Word.limit) :
    ((spec.Realizable → Coloring.ofSpec spec = .ok (Coloring.realized spec)) ∧
      (¬ spec.Realizable →
        ∃ cause, cause.LeavesRange ∧ Coloring.ofSpec spec = .error (.fault cause))) ∧
    ((∃ yielded, m.color processes = .ok yielded ∧ yielded.validate = .ok ()) ∨
      (∃ error, m.color processes = .error (.reported error)) ∨
      ∃ operation, m.color processes = .error (.fault (.overflow operation)) ∧
        ¬ m.HasRoom processes) := by
  constructor
  · rcases Coloring.ofSpec_cases hvalid with ⟨hrealizable, hof⟩ | ⟨hnot, hof⟩
    · exact ⟨fun _ => hof, fun hnot => absurd hrealizable hnot⟩
    · exact ⟨fun hrealizable => absurd hrealizable hnot, fun _ => hof⟩
  · cases hcolor : m.color processes with
    | ok yielded => exact .inl ⟨yielded, rfl, m.validate_of_color processes hcolor⟩
    | error failure =>
      have hfails := m.color_failsWith processes h failure hcolor
      cases failure with
      | reported error => exact .inr (.inl ⟨error, rfl⟩)
      | fault cause =>
        obtain ⟨⟨operation, rfl⟩, hroom⟩ := hfails
        exact .inr (.inr ⟨operation, rfl, hroom⟩)

/-- A spec of two axes that is colored, and a mesh that cannot have as many vertices as it needs. -/
theorem coloring_settles_of_two_axes :
    let spec : ColoringSpec := ⟨[⟨[2, 1], [8, 4], [1, 1], [0, 3], [true, false]⟩]⟩
    let m : UniformMesh := ⟨[2 ^ 64 - 1], 0, 0, [false], some [1]⟩
    spec.validate = .ok () ∧ 1 < Word.limit ∧
      Coloring.ofSpec spec = .ok (Coloring.realized spec) ∧ ¬ m.HasRoom 1 := by
  intro spec m
  have hvalid : spec.validate = .ok () := by decide
  have hfits : spec.Fits := ⟨by decide, by decide⟩
  have hrealizable : spec.Realizable :=
    ⟨by decide, Coloring.storable_of_fits (ColoringSpec.valid_of_validate hvalid) hfits⟩
  have hsettles := coloring_settles hvalid m (by decide : 1 < Word.limit)
  have hcolor : m.color 1 = .error (.fault (.overflow .add)) := by decide
  refine ⟨hvalid, by decide, hsettles.1.1 hrealizable, ?_⟩
  rcases hsettles.2 with ⟨yielded, hyielded, -⟩ | ⟨error, herror⟩ | ⟨_, -, hroom⟩
  · rw [hcolor] at hyielded
    cases hyielded
  · rw [hcolor] at herror
    cases herror
  · exact hroom

/-- Padding of `2 ^ 64 - 1` indices and a grid of `2 ^ 64` colors pass validation, and an axis of
`2 ^ 64 - 1` cells is not validated before its vertices are counted. -/
theorem coloring_faults_on_large_numbers :
    let padded : ColoringSpec := ⟨[⟨[1], [1], [0], [2 ^ 64 - 1], [false]⟩]⟩
    let crowded : ColoringSpec := ⟨[⟨[2 ^ 32, 2 ^ 32], [2 ^ 32, 2 ^ 32], [0, 0], [0, 0], [false, false]⟩]⟩
    let m : UniformMesh := ⟨[2 ^ 64 - 1], 0, 0, [false], some [1]⟩
    (padded.validate = .ok () ∧ Coloring.ofSpec padded = .error (.fault (.overflow .add))) ∧
    (crowded.validate = .ok () ∧ Coloring.ofSpec crowded = .error (.fault (.overflow .multiply))) ∧
      m.color 1 = .error (.fault (.overflow .add)) := by
  decide

end HaloMesh
