-- SUMMARY: Either every rank of a group gets its part of a topology, or every rank reports why there is none.
import HaloMesh.Proofs.Topology.Binding
import HaloMesh.Proofs.Topology.Dissemination

/-!
# Construction is all or nothing

The root colors the mesh. If it cannot, it keeps the error and sends its wording to everyone else. If
it can, every rank derives the coloring again from the input that it was sent, which gives the metadata
that it was sent, and binds its color. So what a rank returns depends on what the mesh yields for the
group, and on the rank only through the color that it binds and the error that the root keeps.
-/

namespace HaloMesh

namespace Topology

/-! ## What the root makes of a mesh -/

/-- The coloring input that a mesh yields, or the error that keeps the root from coloring it. -/
def rootResult (n : Nat) (yielded : Except MeshError ColoringSpec) : Except MeshError ColoringSpec := do
  let spec ← yielded
  spec.validate
  if spec.axisColors.prod = n then return spec
  else throw (.colorCountMismatch spec.axisColors.prod n)

/-- What the mesh yields for a group of `n` ranks is representable, and the lists of records and the
messages of the root can be allocated. -/
structure Feasible (n : Nat) (yielded : Except MeshError ColoringSpec) : Prop where
  representable : ∀ spec, yielded = .ok spec → spec.Representable
  records_le : ∀ spec, yielded = .ok spec → spec.validate = .ok () →
    IndexColoring.footprint * spec.axisColors.prod ≤ Word.bufferLimit
  message_le : ∀ spec, rootResult n yielded = .ok spec → ∀ rank < n, ∀ m,
    ColorMeta.of spec rank = .ok m → disseminationCodec.size (.ok (spec, m)) ≤ Word.bufferLimit
  errorMessage_le : ∀ error, rootResult n yielded = .error error →
    disseminationCodec.size (.error error.message) ≤ Word.bufferLimit

section
variable {mesh : Specialization} {n : Nat} {yielded : Except MeshError ColoringSpec}

theorem rootResult_eq_ok_iff {spec : ColoringSpec} : rootResult n yielded = .ok spec ↔
    yielded = .ok spec ∧ spec.validate = .ok () ∧ spec.axisColors.prod = n := by
  rw [rootResult, Checked.bind_eq_ok_iff]
  constructor
  · rintro ⟨spec', hyielded, h⟩
    obtain ⟨_, hvalid, h⟩ := Checked.bind_eq_ok_iff.mp h
    split at h
    · rename_i hcolors
      cases h
      exact ⟨hyielded, hvalid, hcolors⟩
    · cases h
  · rintro ⟨hyielded, hvalid, hcolors⟩
    refine ⟨spec, hyielded, Checked.bind_eq_ok_iff.mpr ⟨(), hvalid, ?_⟩⟩
    rw [if_pos hcolors]
    rfl

/-- A valid spec with the right number of colors. -/
theorem feasible_of_spec {spec : ColoringSpec} (hrep : spec.Representable)
    (hrecords : IndexColoring.footprint * spec.axisColors.prod ≤ Word.bufferLimit)
    (hvalid : spec.validate = .ok ()) (hcolors : spec.axisColors.prod = n)
    (hmessage : ∀ rank < n, ∀ m, ColorMeta.of spec rank = .ok m →
      disseminationCodec.size (.ok (spec, m)) ≤ Word.bufferLimit) : Feasible n (.ok spec) where
  representable _ hspec := by
    cases hspec
    exact hrep
  records_le _ hspec _ := by
    cases hspec
    exact hrecords
  message_le _ hroot := by
    obtain ⟨hspec, -, -⟩ := rootResult_eq_ok_iff.mp hroot
    cases hspec
    exact hmessage
  errorMessage_le _ hroot := by
    rw [rootResult_eq_ok_iff.mpr ⟨rfl, hvalid, hcolors⟩] at hroot
    cases hroot

/-- A valid spec that the mesh yields has a coloring. -/
theorem Feasible.exists_ofSpec (h : Feasible n yielded) {spec : ColoringSpec}
    (hyielded : yielded = .ok spec) (hvalid : spec.validate = .ok ()) :
    ∃ coloring, Coloring.ofSpec spec = .ok coloring ∧ coloring.spec = spec ∧
      coloring.colors = spec.axisColors.prod := by
  have hfits := (h.representable spec hyielded).toFits
  obtain ⟨coloring, hof⟩ := Coloring.exists_ofSpec hvalid hfits (h.records_le spec hyielded hvalid)
  have hrealizes := (Coloring.realizes_of_ofSpec hfits hof).2
  exact ⟨coloring, hof, hrealizes.spec_eq, hrealizes.colors_eq⟩

theorem derive_yields (rank : Nat) {spec : ColoringSpec} {coloring : Coloring}
    (hof : Coloring.ofSpec spec = .ok coloring) :
    Comm.Yields rank (Coloring.derive spec) [] coloring := by
  refine (Comm.Yields.of_failure hof).bind_silent ?_
  exact (Comm.Yields.lift (Program.performs_record ..)).bind_silent (.pure rank coloring)

/-- The root colors the mesh. -/
theorem colorFor_yields (rank : Nat) {spec : ColoringSpec} (hmesh : mesh.color n = .ok spec)
    {coloring : Coloring} (hof : Coloring.ofSpec spec = .ok coloring) (hcolors : coloring.colors = n) :
    Comm.Yields rank (colorFor mesh n) [] coloring := by
  refine (Comm.Yields.of_failure hmesh).bind_silent ((derive_yields rank hof).bind_silent ?_)
  rw [if_neg (not_not_intro hcolors)]
  exact .pure rank coloring

/-- The root does not color the mesh. -/
theorem colorFor_fails (rank : Nat) (hmesh : mesh.color n = liftM yielded) (h : Feasible n yielded)
    {error : MeshError} (hroot : rootResult n yielded = .error error) :
    Program.Performs rank (colorFor mesh n).run [] (.done (.error (.reported error))) := by
  cases hyielded : yielded with
  | error e =>
    rw [hyielded] at hroot hmesh
    cases hroot
    rw [colorFor, hmesh]
    exact .refl _
  | ok spec =>
    rw [hyielded] at hroot
    refine (Comm.Yields.of_failure (hmesh.trans (by rw [hyielded]; rfl))).andThen ?_
    cases hvalid : spec.validate with
    | error e =>
      have hof : Coloring.ofSpec spec = .error (.reported e) := by
        rw [Coloring.ofSpec, hvalid]
        rfl
      rw [rootResult, Checked.ok_bind, hvalid] at hroot
      cases hroot
      rw [Coloring.derive, hof]
      exact .refl _
    | ok _ =>
      obtain ⟨coloring, hof, -, hcolors⟩ := h.exists_ofSpec hyielded hvalid
      rw [rootResult, Checked.ok_bind, hvalid, Checked.ok_bind] at hroot
      split at hroot
      · cases hroot
      · rename_i hne
        cases hroot
        refine (derive_yields rank hof).andThen ?_
        rw [hcolors, if_pos hne]
        exact .refl _

end

/-! ## Dissemination -/

/-- What the root sends a rank. -/
def sentFor (built : Except MeshError Coloring) (rank : Nat) : Dissemination :=
  match built with
  | .ok coloring => .ok (coloring.spec, (bound coloring rank).metadata)
  | .error error => .error error.message

/-- What a rank goes on with. -/
def receivedFrom (built : Except MeshError Coloring) (rank : Nat) :
    Except Failure (ColoringSpec × ColorMeta) :=
  match built with
  | .ok coloring => .ok (coloring.spec, (bound coloring rank).metadata)
  | .error error =>
    .error (.reported (if rank = 0 then error else .invalidColoring (.relayed error.message)))

section
variable {mesh : Specialization} {n : Nat} {built : Except MeshError Coloring}

/-- Only the root has a coloring, or the error that it ran into. -/
theorem rootColoring_yields
    (hbuilt : Program.Performs 0 (colorFor mesh n).run [] (.done (liftM built))) (rank : Nat) :
    Comm.Yields rank (rootColoring mesh ⟨rank, n⟩) [] (if rank = 0 then some built else none) := by
  rw [rootColoring]
  by_cases hrank : rank = 0
  · subst hrank
    rw [if_pos rfl, if_pos rfl]
    refine (Comm.Yields.lift (p := (colorFor mesh n).attempt) hbuilt).bind_silent ?_
    cases built with
    | ok coloring => exact .pure 0 _
    | error error => exact .pure 0 _
  · rw [if_neg hrank, if_neg hrank]
    exact .pure rank none

/-- Every rank goes on with what the root has for it, or reports the error of the root. -/
theorem receiveMetadata_completes (hn : 24 * n ≤ Word.bufferLimit)
    (hbuilt : Program.Performs 0 (colorFor mesh n).run [] (.done (liftM built)))
    (hmetadata : ∀ coloring, built = .ok coloring → ∀ rank < n,
      coloring.metadata rank = .ok (bound coloring rank).metadata)
    (hlawful : ∀ rank < n, disseminationCodec.LawfulAt (sentFor built rank))
    (hbuffer : ∀ rank < n, disseminationCodec.size (sentFor built rank) ≤ Word.bufferLimit) :
    Completes n (fun rank => (receiveMetadata mesh ⟨rank, n⟩).run) (receivedFrom built) := by
  have hroot : Comm.Completes n (fun rank => rootColoring mesh ⟨rank, n⟩)
      fun rank => if rank = 0 then some built else none :=
    .of_silent fun rank _ => rootColoring_yields hbuilt rank
  have hsize : 2 * (n - 1) < Word.limit := by
    have := Word.lt_limit_of_le hn
    omega
  have hvalue : ∀ rank < n, disseminationFor (some built) rank n = .ok (sentFor built rank) := by
    intro rank hrank
    cases hcases : built with
    | ok coloring =>
      rw [disseminationFor, hmetadata coloring hcases rank hrank]
      rfl
    | error error => rfl
  have hreceived := @oneToAll_packer_completes _ _ n OneToAll.defaultTag
    (fun rank => disseminationFor (if rank = 0 then some built else none)) _ hsize hvalue hlawful hbuffer
  refine hroot.andThen (hreceived.andThen (.of_silent fun rank _ => ?_))
  by_cases hrank : rank = 0
  · subst hrank
    cases built with
    | ok coloring => exact .refl _
    | error error => exact .refl _
  · simp only [if_neg hrank]
    cases built with
    | ok coloring => exact .refl _
    | error error =>
      rw [receivedFrom, if_neg hrank]
      exact .refl _

end

/-! ## Metadata -/

section
variable {coloring : Coloring} {n rank : Nat}

/-- The numbers of a representable spec are words, and so is the number of its index spaces if what the
root has for a rank fits a buffer. -/
theorem writable_of_size (hrep : coloring.spec.Representable)
    (hof : Coloring.ofSpec coloring.spec = .ok coloring)
    (hsize : disseminationCodec.size (sentFor (.ok coloring) rank) ≤ Word.bufferLimit) :
    coloring.spec.Writable := by
  have hsizes : disseminationCodec.size (sentFor (.ok coloring) rank) =
      4 + ((Codec.list ColoringDefinition.codec).size coloring.spec.indexSpaces +
        ColorMeta.codec.size (bound coloring rank).metadata) := rfl
  have hspaces : coloring.spec.indexSpaces.length ≤
      (Codec.list ColoringDefinition.codec).size coloring.spec.indexSpaces := by
    refine Codec.length_le_size_list (fun d => ?_) _
    show 0 < (8 + _) + _
    omega
  refine ⟨Word.lt_limit_of_le (by omega), fun d hd => ?_⟩
  have hvalid := (Coloring.realizes_of_ofSpec hrep.toFits hof).1.space_valid d hd
  exact hvalid.writable (hrep.toFits.space hd)

/-- The root can write what it has for a rank. -/
theorem lawfulAt_sentFor (h : coloring.Shared n) (hwords : coloring.spec.Writable) (hrank : rank < n) :
    disseminationCodec.LawfulAt (sentFor (.ok coloring) rank) := by
  have hlength : coloring.indexSpaces < Word.limit := h.length_eq ▸ hwords.1
  have hmetadata : (bound coloring rank).metadata.Writable := by
    refine ⟨?_, ?_, fun ic hic => ?_⟩
    · have hranks := h.list_le
      have hlt : rank < Word.limit := Word.lt_limit_of_le (by omega)
      exact hlt
    · simpa [bound] using hlength
    · obtain ⟨s, hs, rfl⟩ := List.mem_map.mp hic
      have hs := List.mem_range.mp hs
      have hd := List.mem_of_getElem? (h.stores hs).definition
      exact IndexColoring.writable_of (hwords.2 _ hd) (h.of_eq_ok hs hrank)
  have hsent : (sentFor (.ok coloring) rank).Writable := ⟨hwords, hmetadata⟩
  exact (delimitsAt_disseminationCodec hsent).toLawfulAt

theorem lawfulAt_sentFor_error {error : MeshError}
    (hsize : disseminationCodec.size (sentFor (.error error) rank) ≤ Word.bufferLimit) :
    disseminationCodec.LawfulAt (sentFor (.error error) rank) := by
  have hsizes : disseminationCodec.size (sentFor (.error error) rank) =
      4 + (8 + error.message.utf8ByteSize) := rfl
  have htext : error.message.utf8ByteSize < Word.limit := Word.lt_limit_of_le (by omega)
  have hsent : (sentFor (.error error) rank).Writable := htext
  exact (delimitsAt_disseminationCodec hsent).toLawfulAt

/-- Metadata does not differ from itself. -/
theorem checkMetadata_self (m : ColorMeta) : checkMetadata m.color m m = .ok () := by
  have hnone : firstDifference? m.spaces m.spaces = none := by
    apply List.find?_eq_none.mpr
    intro s _
    simp
  rw [checkMetadata, hnone]
  exact if_pos rfl

end

/-! ## Groups that build a topology -/

section
variable {mesh : Specialization} {n : Nat} {yielded : Except MeshError ColoringSpec}

/-- What the root sends consists of words, and each of its messages fits a buffer. -/
structure Sendable (n : Nat) (spec : ColoringSpec) : Prop where
  writable : spec.Writable
  message_le : ∀ rank < n, ∀ m, ColorMeta.of spec rank = .ok m →
    disseminationCodec.size (.ok (spec, m)) ≤ Word.bufferLimit

/-- All ranks come to hold the coloring of the root, each with the metadata of its color. -/
theorem coloring_completes {coloring : Coloring} (h : coloring.Shared n)
    (hmesh : mesh.color n = .ok coloring.spec) (hsendable : Sendable n coloring.spec) :
    Comm.Completes n (fun rank => receiveMetadata mesh ⟨rank, n⟩)
      fun rank => (coloring.spec, (bound coloring rank).metadata) := by
  refine @receiveMetadata_completes mesh n (.ok coloring) h.list_le
    (colorFor_yields 0 hmesh h.derived h.colors_eq) ?_ ?_ ?_
  · rintro _ ⟨⟩ rank hrank
    exact metadata_eq_ok h hrank
  · exact fun rank hrank => lawfulAt_sentFor h hsendable.writable hrank
  · exact fun rank hrank => hsendable.message_le rank hrank _ (colorMeta_of_eq_ok h hrank)

/-- All ranks go on to bind the coloring that they have come to hold. -/
theorem new_completes {coloring : Coloring} (h : coloring.Shared n)
    (hreceived : Comm.Completes n (fun rank => receiveMetadata mesh ⟨rank, n⟩)
      fun rank => (coloring.spec, (bound coloring rank).metadata))
    {result : Nat → Except Failure Topology}
    (hbind : Completes n (fun rank => (ofColoring ⟨rank, n⟩ coloring mesh.indexSpaces).run) result) :
    Completes n (fun rank => (new ⟨rank, n⟩ mesh).run) result := by
  have hderived : Comm.Completes n (fun _ => Coloring.derive coloring.spec) fun _ => coloring :=
    .of_silent fun rank _ => derive_yields rank h.derived
  have hmetadata : Comm.Completes n (fun rank => liftM (coloring.metadata rank))
      fun rank => (bound coloring rank).metadata :=
    .of_silent fun rank hrank => .of_fault (metadata_eq_ok h hrank)
  have hchecked : Comm.Completes n (fun rank => liftM
      (checkMetadata rank (bound coloring rank).metadata (bound coloring rank).metadata)) fun _ => () :=
    .of_silent fun rank _ => .of_error (checkMetadata_self (bound coloring rank).metadata)
  exact hreceived.andThen (hderived.andThen (hmetadata.andThen (hchecked.andThen hbind)))

/-- The error of the root reaches all ranks. -/
theorem new_fails (hn : 24 * n ≤ Word.bufferLimit) (hmesh : mesh.color n = liftM yielded)
    (h : Feasible n yielded) {error : MeshError} (hroot : rootResult n yielded = .error error) :
    Completes n (fun rank => (new ⟨rank, n⟩ mesh).run) fun rank =>
      .error (.reported (if rank = 0 then error else .invalidColoring (.relayed error.message))) := by
  have hbuffer : ∀ rank < n,
      disseminationCodec.size (sentFor (.error error) rank) ≤ Word.bufferLimit :=
    fun _ _ => h.errorMessage_le error hroot
  have hreceived := @receiveMetadata_completes mesh n (.error error) hn
    (colorFor_fails 0 hmesh h hroot) (fun _ hok => nomatch hok)
    (fun rank hrank => lawfulAt_sentFor_error (hbuffer rank hrank)) hbuffer
  exact hreceived.bind (.of_silent fun _ _ => .refl _)

/-- What the construction returns on a rank. -/
inductive Returns (spaces n : Nat) (yielded : Except MeshError ColoringSpec) (rank : Nat) :
    Except Failure Topology → Prop
  /-- The rank holds its part of the coloring. -/
  | bound {spec : ColoringSpec} {t : Topology} (hroot : rootResult n yielded = .ok spec)
      (hspaces : spec.indexSpaces.length = spaces) (hbinds : t.Binds spec n rank) :
      Returns spaces n yielded rank (.ok t)
  /-- The mesh declares another number of index spaces than it yields. -/
  | mismatch {spec : ColoringSpec} (hroot : rootResult n yielded = .ok spec)
      (hspaces : spec.indexSpaces.length ≠ spaces) :
      Returns spaces n yielded rank
        (.error (.reported (.indexSpaceMismatch spaces spec.indexSpaces.length)))
  /-- The root keeps the error that it ran into. -/
  | root {error : MeshError} (hroot : rootResult n yielded = .error error) (hrank : rank = 0) :
      Returns spaces n yielded rank (.error (.reported error))
  /-- Every other rank gets the wording of that error. -/
  | relayed {error : MeshError} (hroot : rootResult n yielded = .error error) (hrank : rank ≠ 0) :
      Returns spaces n yielded rank
        (.error (.reported (.invalidColoring (.relayed error.message))))

/-- What the root does not reject has a coloring that it can send. -/
theorem Feasible.exists_sendable (h : Feasible n yielded) {spec : ColoringSpec}
    (hroot : rootResult n yielded = .ok spec) :
    ∃ coloring : Coloring,
      coloring.spec = spec ∧ coloring.Spans n ∧ Sendable n coloring.spec := by
  obtain ⟨hyielded, hvalid, hcolors⟩ := rootResult_eq_ok_iff.mp hroot
  obtain ⟨coloring, hof, rfl, hprod⟩ := h.exists_ofSpec hyielded hvalid
  have hrep := h.representable _ hyielded
  have hspans := Coloring.spans_of_ofSpec hrep hof (hprod.trans hcolors)
  have hmessage := h.message_le _ hroot
  have hbuffer := hmessage 0 hspans.pos _ (colorMeta_of_eq_ok hspans.toShared hspans.pos)
  exact ⟨coloring, rfl, hspans, writable_of_size hrep hof hbuffer, hmessage⟩

/-- All ranks come to hold that coloring. -/
theorem Feasible.exists_spans (h : Feasible n yielded) (hmesh : mesh.color n = liftM yielded)
    {spec : ColoringSpec} (hroot : rootResult n yielded = .ok spec) :
    ∃ coloring, coloring.spec = spec ∧ coloring.Spans n ∧
      Comm.Completes n (fun rank => receiveMetadata mesh ⟨rank, n⟩)
        fun rank => (coloring.spec, (bound coloring rank).metadata) := by
  obtain ⟨coloring, rfl, hspans, hsendable⟩ := h.exists_sendable hroot
  have hcolor : mesh.color n = .ok coloring.spec := by
    rw [hmesh, (rootResult_eq_ok_iff.mp hroot).1]
    rfl
  exact ⟨coloring, rfl, hspans, coloring_completes hspans.toShared hcolor hsendable⟩

/-- All ranks bind that coloring if it has the index spaces that the mesh declares. -/
theorem Feasible.exists_bound (h : Feasible n yielded) (hmesh : mesh.color n = liftM yielded)
    {spec : ColoringSpec} (hroot : rootResult n yielded = .ok spec)
    (hspaces : spec.indexSpaces.length = mesh.indexSpaces) :
    ∃ coloring, coloring.spec = spec ∧ coloring.Spans n ∧
      Comm.Completes n (fun rank => new ⟨rank, n⟩ mesh) (bound coloring) := by
  obtain ⟨coloring, rfl, hspans, hreceived⟩ := h.exists_spans hmesh hroot
  rw [hspans.length_eq] at hspaces
  have hbind := ofColoring_completes hspans
  exact ⟨coloring, rfl, hspans, new_completes hspans.toShared hreceived (hspaces ▸ hbind)⟩

theorem exists_returns (hn : 24 * n ≤ Word.bufferLimit) (hmesh : mesh.color n = liftM yielded)
    (h : Feasible n yielded) : ∃ results : Nat → Except Failure Topology,
      Completes n (fun rank => (new ⟨rank, n⟩ mesh).run) results ∧
        ∀ rank < n, Returns mesh.indexSpaces n yielded rank (results rank) := by
  cases hroot : rootResult n yielded with
  | error error =>
    refine ⟨_, new_fails hn hmesh h hroot, fun rank _ => ?_⟩
    by_cases hrank : rank = 0
    · rw [if_pos hrank]
      exact .root hroot hrank
    · rw [if_neg hrank]
      exact .relayed hroot hrank
  | ok spec =>
    by_cases hspaces : spec.indexSpaces.length = mesh.indexSpaces
    · obtain ⟨coloring, rfl, hspans, hnew⟩ := h.exists_bound hmesh hroot hspaces
      exact ⟨_, hnew, fun rank hrank => .bound hroot hspaces (bound_binds hspans.toShared hrank)⟩
    · obtain ⟨coloring, rfl, hspans, hreceived⟩ := h.exists_spans hmesh hroot
      have hbind := ofColoring_mismatch hspans.toShared (hspans.length_eq ▸ hspaces)
      refine ⟨_, new_completes hspans.toShared hreceived hbind, fun rank _ => ?_⟩
      rw [← hspans.length_eq]
      exact .mismatch hroot hspaces

end

/-! ## Errors that only a mesh can raise -/

/-- Whether an error says that ranks disagree, on metadata or on ghost slots. -/
def disagreement : MeshError → Bool
  | .metadataMismatch .. | .asymmetricIntervals .. => true
  | _ => false

/-- No disagreement is reported. -/
abbrev Agrees {α : Type} (x : Except MeshError α) : Prop :=
  Checked.FailsWith (fun error => disagreement error = false) x

theorem agrees_definition (d : ColoringDefinition) : Agrees d.validate := by
  have hcount : ∀ what actual, Agrees (d.checkCount what actual) := by
    intro what actual
    unfold ColoringDefinition.checkCount
    split
    · exact .ok _ ()
    · exact .error rfl
  have hdimension : Agrees d.checkDimension := by
    unfold ColoringDefinition.checkDimension
    split
    · exact .error rfl
    · exact .ok _ ()
  have haxis : ∀ a ax, Agrees (ColoringDefinition.checkAxis a ax) := by
    intro a ax
    unfold ColoringDefinition.checkAxis
    split
    · exact .error rfl
    split
    · exact .error rfl
    split
    · exact .error rfl
    · exact .ok _ ()
  refine (hcount _ _).bind fun _ => (hcount _ _).bind fun _ => (hcount _ _).bind fun _ => ?_
  exact (hcount _ _).bind fun _ => hdimension.bind fun _ => .forM fun x _ => haxis x.2 x.1

theorem agrees_validate (spec : ColoringSpec) : Agrees spec.validate := by
  unfold ColoringSpec.validate
  split
  · exact .error rfl
  · refine .forM fun (d, s) _ => (agrees_definition d).bind fun _ => .bind ?_ fun _ => ?_
    · unfold ColoringSpec.checkSpaceAxes
      split
      · exact .ok _ ()
      · exact .error rfl
    · unfold ColoringSpec.checkGrid
      split
      · exact .ok _ ()
      · exact .error rfl

/-- The root runs into a disagreement only where the mesh itself reports one. -/
theorem yielded_of_disagreement {n : Nat} {yielded : Except MeshError ColoringSpec} {error : MeshError}
    (hroot : rootResult n yielded = .error error) (herror : disagreement error = true) :
    yielded = .error error := by
  cases yielded with
  | error e =>
    cases hroot
    rfl
  | ok spec =>
    have hagrees : Agrees (rootResult n (.ok spec)) := by
      refine (agrees_validate spec).bind fun _ => ?_
      split
      · exact .ok _ spec
      · exact .error rfl
    have hnot : disagreement error = false := hagrees error hroot
    rw [hnot] at herror
    cases herror

theorem Returns.yielded_of_disagreement {spaces n rank : Nat}
    {yielded : Except MeshError ColoringSpec} {result : Except Failure Topology}
    (h : Returns spaces n yielded rank result) {error : MeshError}
    (hresult : result = .error (.reported error)) (herror : disagreement error = true) :
    yielded = .error error := by
  cases h with
  | bound => cases hresult
  | mismatch =>
    cases hresult
    cases herror
  | root hroot =>
    cases hresult
    exact Topology.yielded_of_disagreement hroot herror
  | relayed =>
    cases hresult
    cases herror

/-! ## Construction -/

/-- However the ranks of a group interleave, all of them get their part of the coloring of the mesh, or
all of them report why there is none. No rank finds that it disagrees with another. -/
theorem new_settles {mesh : Specialization} {n : Nat} {members : List Member}
    (hmembers : Member.world n = .ok members) {yielded : Except MeshError ColoringSpec}
    (hmesh : mesh.color n = liftM yielded) (h : Feasible n yielded) :
    ∃ results : Nat → Except Failure Topology,
      (Group.start (members.map fun me => (new me mesh).run)).Settles
        ((List.range n).map results) ∧
      ∀ rank < n, Returns mesh.indexSpaces n yielded rank (results rank) ∧
        ∀ error, results rank = .error (.reported error) → disagreement error = true →
          yielded = .error error := by
  obtain ⟨hn, rfl⟩ := Member.world_eq_ok_iff.mp hmembers
  obtain ⟨results, hcompletes, hreturns⟩ := exists_returns hn hmesh h
  refine ⟨results, ?_, fun rank hrank => ⟨hreturns rank hrank, fun error hresult herror => ?_⟩⟩
  · rw [Member.all, List.map_map]
    exact hcompletes.settles
  · exact (hreturns rank hrank).yielded_of_disagreement hresult herror

/-- Two ranks build two index spaces, one of them periodic. -/
theorem new_settles_of_two :
    let spec : ColoringSpec := ⟨[⟨[2], [4], [1], [1], [false]⟩, ⟨[2], [5], [2], [0], [true]⟩]⟩
    let mesh := (ExplicitMesh.mk spec).specialization
    Member.world 2 = .ok (Member.all 2) ∧ mesh.color 2 = liftM (Except.ok spec : Except MeshError _) ∧
      Feasible 2 (.ok spec) ∧
      ∃ results : Nat → Except Failure Topology,
        (Group.start ((Member.all 2).map fun me => (new me mesh).run)).Settles
          ((List.range 2).map results) ∧
        ∀ rank < 2, Returns mesh.indexSpaces 2 (.ok spec) rank (results rank) ∧
          ∀ error, results rank = .error (.reported error) → disagreement error = true →
            (.ok spec : Except MeshError ColoringSpec) = .error error := by
  intro spec mesh
  have hsizes : ∀ rank < 2, ∀ m, ColorMeta.of spec rank = .ok m →
      disseminationCodec.size (.ok (spec, m)) ≤ Word.bufferLimit := by decide
  have hfeasible : Feasible 2 (.ok spec) :=
    feasible_of_spec (by decide) (by decide) rfl rfl hsizes
  exact ⟨rfl, rfl, hfeasible, new_settles rfl rfl hfeasible⟩

/-- A mesh of more colors than records can be listed for ends the root with a fault, and a mesh can
itself report that metadata disagrees. -/
theorem new_settles_with_fault :
    let spec : ColoringSpec := ⟨[⟨[2 ^ 57], [2 ^ 57], [0], [0], [false]⟩]⟩
    let mesh := (ExplicitMesh.mk spec).specialization
    let refusing : Specialization := ⟨1, 1, fun _ => .error (.reported (.metadataMismatch 0 0))⟩
    (mesh.color 1 = .ok spec ∧ spec.validate = .ok () ∧ spec.Representable ∧
      spec.axisColors.prod ≠ 1 ∧ (Group.start ((Member.all 1).map fun me => (new me mesh).run)).Settles
        [.error (.fault .capacity)]) ∧
    (Group.start ((Member.all 1).map fun me => (new me refusing).run)).Settles
      [.error (.reported (.metadataMismatch 0 0))] := by
  intro spec mesh refusing
  have hvalid : spec.validate = .ok () := by decide
  have hfits : spec.Fits := ⟨by decide, by decide⟩
  have hrep : spec.Representable := by
    refine ⟨hfits, fun d hd color _ part hpart => ?_⟩
    have hspec := ColoringSpec.valid_of_validate hvalid
    obtain ⟨_, hof, hdescribes⟩ :=
      IndexColoring.of_eq_ok (hspec.space_valid d hd) (hfits.space hd) color
    cases hpart.symm.trans hof
    have hpositions := (hspec.space_valid d hd).hasPositions_position (hfits.space hd) color
    rw [hdescribes.extents]
    obtain rfl := List.mem_singleton.mp hd
    cases hpositions with
    | cons hposition hnil =>
      cases hnil
      have hslots := hposition.slots_lt
      rw [← Nat.mul_one (AxisDefinition.slots _ _)] at hslots
      exact hslots
  have hfault : ∀ rank < 1,
      Program.Performs rank (new ⟨rank, 1⟩ mesh).run [] (.done (.error (.fault .capacity))) := by
    intro rank hrank
    obtain rfl := Nat.lt_one_iff.mp hrank
    exact .refl _
  have hrefused : ∀ rank < 1, Program.Performs rank (new ⟨rank, 1⟩ refusing).run []
      (.done (.error (.reported (.metadataMismatch 0 0)))) := by
    intro rank hrank
    obtain rfl := Nat.lt_one_iff.mp hrank
    exact .refl _
  exact ⟨⟨rfl, hvalid, hrep, by decide, (Completes.of_silent hfault).settles⟩,
    (Completes.of_silent hrefused).settles⟩

end Topology

end HaloMesh
