-- SUMMARY: Where every rank of a group has built its topology, all of them hold one coloring.
import HaloMesh.Proofs.Topology.Construct

/-!
# Groups that are built

Nothing is asked here of what the mesh yields, besides that it consists of words and that its messages fit
a buffer. If all ranks come to a topology in one interleaving, then the root has colored the mesh, every rank
has derived its plan for every index space, and what the ranks hold is determined by the coloring of the root.
-/

namespace HaloMesh

namespace Topology

/-! ## Ranks that succeed -/

section
variable {mesh : Specialization} {n rank : Nat} {es : List Effect}

theorem ofSpec_of_derive {spec : ColoringSpec} {coloring : Coloring}
    (h : Comm.Yields rank (Coloring.derive spec) es coloring) : Coloring.ofSpec spec = .ok coloring := by
  unfold Coloring.derive at h
  obtain ⟨derived, _, _, -, hof, h⟩ := h.of_bind
  obtain ⟨_, _, _, -, -, h⟩ := h.of_bind
  cases h.eq_of_pure
  exact hof.eq_ok_of_result

/-- The root has colored the mesh. -/
theorem ofSpec_of_colorFor {coloring : Coloring} (h : Comm.Yields rank (colorFor mesh n) es coloring) :
    mesh.color n = .ok coloring.spec ∧ coloring.Shared n := by
  unfold colorFor at h
  obtain ⟨spec, _, _, -, hmesh, h⟩ := h.of_bind
  obtain ⟨derived, _, _, -, hderived, h⟩ := h.of_bind
  have hof := ofSpec_of_derive hderived
  obtain ⟨-, -, hrealized⟩ := Coloring.ofSpec_eq_ok_iff_realizable.mp hof
  have hspec : derived.spec = spec := congrArg (·.spec) hrealized
  by_cases hcolors : derived.colors = n
  · rw [if_neg (not_not_intro hcolors)] at h
    cases h.eq_of_pure
    exact ⟨hspec ▸ hmesh.eq_ok_of_result, hspec ▸ hof, hcolors⟩
  · rw [if_pos hcolors] at h
    obtain ⟨_, _, _, -, hreport, -⟩ := h.of_bind
    exact absurd hreport Comm.Yields.not_throw

/-- The root goes on only if it has a coloring. -/
theorem colorFor_of_receiveMetadata {found : ColoringSpec × ColorMeta}
    (h : Comm.Yields 0 (receiveMetadata mesh ⟨0, n⟩) es found) :
    ∃ es' coloring, Comm.Yields 0 (colorFor mesh n) es' coloring := by
  unfold receiveMetadata at h
  obtain ⟨built, _, _, -, hbuilt, h⟩ := h.of_bind
  obtain ⟨_, _, _, -, -, h⟩ := h.of_bind
  rw [rootColoring, if_pos rfl] at hbuilt
  obtain ⟨result, _, _, -, hresult, hbuilt⟩ := hbuilt.of_bind
  cases result with
  | ok coloring =>
    obtain ⟨es', hcolored⟩ := hresult.of_lift
    exact ⟨es', coloring, hcolored⟩
  | error failure =>
    cases failure with
    | reported error =>
      cases hbuilt.eq_of_pure
      exact absurd h Comm.Yields.not_throw
    | fault cause => exact absurd hbuilt Comm.Yields.not_throw

/-- A rank that binds its color has derived all of its plans. -/
theorem planned_of_ofColoring {coloring : Coloring} {spaces : Nat} {t : Topology}
    (h : Comm.Yields rank (ofColoring ⟨rank, n⟩ coloring spaces) es t) (hcolors : coloring.colors = n) :
    coloring.indexSpaces = spaces ∧
      ∀ s < spaces, ∃ p, CopyPlan.ofColoring coloring s rank = .ok p := by
  rw [ofColoring, if_neg (not_not_intro hcolors)] at h
  obtain ⟨_, _, _, -, hpartitions, h⟩ := h.of_bind
  obtain ⟨_, _, _, -, hplans, -⟩ := h.of_bind
  refine ⟨?_, fun s hs => ?_⟩
  · have hpartitions := hpartitions.eq_ok_of_result
    rw [Coloring.partitions] at hpartitions
    split at hpartitions
    · cases hpartitions
    · exact not_not.mp ‹_›
  · obtain ⟨_, _, hestablish⟩ := hplans.of_mapM s (List.mem_range.mpr hs)
    obtain ⟨p, _, _, -, hp, -⟩ := hestablish.of_bind
    exact ⟨p, hp.eq_ok_of_result⟩

end

/-! ## Groups that succeed -/

section
variable {mesh : Specialization} {n : Nat} {t : Nat → Topology}

/-- All ranks of a group that was built hold a coloring of what the mesh yields. -/
theorem exists_spans_of_steps (hn : 0 < n) (hsendable : ∀ spec, mesh.color n = .ok spec → Sendable n spec)
    {k : Nat} {q : Queues}
    (hsteps : Network.Steps k ⟨(List.range n).map fun rank => (new ⟨rank, n⟩ mesh).run, .empty⟩
      ⟨((List.range n).map fun rank => Except.ok (t rank)).map .done, q⟩) :
    ∃ coloring, mesh.color n = .ok coloring.spec ∧ coloring.Spans n ∧
      Comm.Completes n (fun rank => new ⟨rank, n⟩ mesh) (bound coloring) := by
  obtain ⟨es, hroot⟩ := Comm.yields_of_steps hsteps hn
  obtain ⟨found, _, _, -, hroot, -⟩ := hroot.of_bind
  obtain ⟨_, coloring, hcolored⟩ := colorFor_of_receiveMetadata hroot
  obtain ⟨hmesh, hshared⟩ := ofSpec_of_colorFor hcolored
  have hreceived := coloring_completes hshared hmesh (hsendable _ hmesh)
  have hbinds : ∀ rank < n, coloring.indexSpaces = mesh.indexSpaces ∧
      ∀ s < mesh.indexSpaces, ∃ p, CopyPlan.ofColoring coloring s rank = .ok p := by
    intro rank hrank
    obtain ⟨j, hrest⟩ := Completes.steps_of_bind hreceived hsteps
    obtain ⟨_, hrest⟩ := Comm.yields_of_steps hrest hrank
    obtain ⟨derived, _, _, -, hderived, hrest⟩ := hrest.of_bind
    cases hshared.derived.symm.trans (ofSpec_of_derive hderived)
    obtain ⟨_, _, _, -, -, hrest⟩ := hrest.of_bind
    obtain ⟨_, _, _, -, -, hrest⟩ := hrest.of_bind
    exact planned_of_ofColoring hrest hshared.colors_eq
  have hspaces := (hbinds 0 hn).1
  have hspans : coloring.Spans n :=
    { hshared with planned := fun s hs rank hrank => (hbinds rank hrank).2 s (hspaces ▸ hs) }
  have hbind := ofColoring_completes hspans
  exact ⟨coloring, hmesh, hspans, new_completes hshared hreceived (hspaces ▸ hbind)⟩

/-- What the ranks of a group that was built hold is determined by that coloring. -/
theorem exists_spans_of_reaches (hn : 0 < n)
    (hsendable : ∀ spec, mesh.color n = .ok spec → Sendable n spec) {built : Group (Except Failure Topology)}
    (hreaches : (Group.start ((List.range n).map fun rank => (new ⟨rank, n⟩ mesh).run)).Reaches built)
    (hbuilt : built.results? = some ((List.range n).map fun rank => .ok (t rank))) :
    ∃ coloring, mesh.color n = .ok coloring.spec ∧ coloring.Spans n ∧
      Comm.Completes n (fun rank => new ⟨rank, n⟩ mesh) (bound coloring) ∧
      ∀ rank < n, t rank = bound coloring rank := by
  obtain ⟨k, hsteps⟩ := Group.steps_of_reaches hreaches
  rw [Group.network, Group.network, Group.results?_eq_some_iff.mp hbuilt] at hsteps
  obtain ⟨coloring, hmesh, hspans, hnew⟩ := exists_spans_of_steps hn hsendable hsteps
  refine ⟨coloring, hmesh, hspans, hnew, fun rank hrank => ?_⟩
  have hresults := hnew.settles.results_eq built hreaches _ hbuilt
  exact Except.ok.inj (List.map_inj_left.mp hresults rank (List.mem_range.mpr hrank))

end

end Topology

end HaloMesh
