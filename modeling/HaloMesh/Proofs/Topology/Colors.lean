-- SUMMARY: On as many ranks as a mesh is colored for, no rank finds that their numbers differ, whatever else fails.
import HaloMesh.Proofs.Collective.Relay
import HaloMesh.Proofs.Coloring.Faults
import HaloMesh.Proofs.Topology.Dissemination

/-!
# Numbers of colors

A topology is not built if the coloring has another number of colors than the group has ranks. If the root
colors the mesh for the number of ranks, no rank comes to report this, however the ranks interleave and even
if some of them fault and leave others waiting. For the root cannot find it, and the other ranks derive the
coloring of the input that the root sent or none at all.
-/

namespace HaloMesh

/-- The error is none about the number of colors. -/
def MeshError.CountsAgree : MeshError → Prop
  | .colorCountMismatch .. => False
  | _ => True

theorem MeshError.OfTraffic.countsAgree : ∀ e : MeshError, e.OfTraffic → e.CountsAgree := by
  intro e h
  cases e <;> trivial

/-! ## What a color stores -/

theorem ColoringSpec.lt_limit_of_colors {spec : ColoringSpec} {n : Nat} (h : spec.colors = .ok n) :
    n < Word.limit := by
  obtain ⟨spaces⟩ := spec
  cases spaces with
  | nil =>
    cases h
    decide
  | cons first rest => exact (Word.eq_prod_of_product h).2

theorem Coloring.exists_metadata {spec : ColoringSpec} (hspec : spec.Writable) {coloring : Coloring}
    (hof : ofSpec spec = .ok coloring) {color : Nat} (hcolor : color < coloring.colors) :
    ∃ m, coloring.metadata color = .ok m ∧ m.Writable := by
  obtain ⟨-, colors, parts, hcolors, hparts, -, rfl⟩ := ofSpec_eq_ok_iff.mp hof
  have hlimit : color < Word.limit := Nat.lt_trans hcolor (ColoringSpec.lt_limit_of_colors hcolors)
  have hparts := Checked.mapM_eq_ok_iff.mp hparts
  have hrecord : ∀ records ∈ parts, ∃ d ∈ spec.indexSpaces, ∃ ic,
      records[color]? = some ic ∧ IndexColoring.of d color = .ok ic := by
    intro records hrecords
    obtain ⟨s, hs⟩ := List.mem_iff_getElem?.mp hrecords
    obtain ⟨d, hd, hspace⟩ := Checked.getElem?_of_forall₂ hparts.flip hs
    obtain ⟨_, -, hspace⟩ := Checked.bind_eq_ok_iff.mp hspace
    obtain ⟨ic, hic, hof⟩ := Checked.getElem?_of_forall₂ (Checked.mapM_eq_ok_iff.mp hspace)
      (List.getElem?_range hcolor)
    exact ⟨d, List.mem_of_getElem? hd, ic, hic, hof⟩
  have hfetch : parts.mapM (fetch · color) =
      .ok (parts.map fun records : List IndexColoring => records.getD color default) := by
    refine Checked.mapM_eq_ok fun records hrecords => ?_
    obtain ⟨-, -, ic, hic, -⟩ := hrecord records hrecords
    rw [fetch_eq_ok_iff, List.getD_eq_getElem?_getD, hic]
    rfl
  refine ⟨_, by rw [metadata, hfetch]; rfl, hlimit, ?_, fun ic hic => ?_⟩
  · rw [List.length_map, ← hparts.length_eq]
    exact hspec.length_lt
  · obtain ⟨records, hrecords, rfl⟩ := List.mem_map.mp hic
    obtain ⟨d, hd, ic, hic, hof⟩ := hrecord records hrecords
    rw [List.getD_eq_getElem?_getD, hic]
    exact IndexColoring.writable_of (hspec.space d hd) hof

namespace Topology

open Comm (Ensures)

variable {mesh : Specialization} {spec : ColoringSpec} {n : Nat}

/-- A valid spec that is colored for the number of ranks, and that can be written. -/
structure Meets (spec : ColoringSpec) (n : Nat) : Prop where
  valid : spec.validate = .ok ()
  colors_eq : spec.axisColors.prod = n
  writable : spec.Writable

theorem Meets.colors_of (h : Meets spec n) {coloring : Coloring}
    (hof : Coloring.ofSpec spec = .ok coloring) : coloring.colors = n := by
  obtain ⟨-, -, rfl⟩ := Coloring.ofSpec_eq_ok_iff_realizable.mp hof
  exact h.colors_eq

theorem Meets.not_reported (h : Meets spec n) {e : MeshError} :
    Coloring.ofSpec spec ≠ .error (.reported e) := by
  rcases Coloring.ofSpec_cases h.valid with ⟨-, hof⟩ | ⟨-, cause, -, hof⟩ <;> simp [hof]

/-! ## Every rank with the input of the root -/

theorem checkMetadata_reports (rank : Nat) (derived sent : ColorMeta) :
    ∀ e, checkMetadata rank derived sent = .error e → e.CountsAgree := by
  intro e he
  unfold checkMetadata at he
  split at he
  · cases he
    exact trivial
  · split at he <;> cases he
    exact trivial

theorem establish_ensures (me : Member) (coloring : Coloring) (space : Nat) :
    (CopyPlan.establish me coloring space).Ensures MeshError.CountsAgree fun _ => True := by
  have hverify : ∀ plan : CopyPlan, (plan.verify me).Ensures MeshError.CountsAgree fun _ => True := by
    intro plan
    refine (Ensures.of_fault fun _ _ => trivial).andThen fun items => ?_
    refine (Ensures.of_check (fun _ _ => trivial) (reported_of_mapError fun _ => trivial)).andThen
      fun outgoing => ?_
    refine (allToAll_ensures MeshError.OfTraffic.countsAgree ..).andThen fun expected => ?_
    refine (Ensures.of_fault fun _ _ => trivial).andThen fun mismatch => ?_
    cases mismatch with
    | none => exact .pure trivial
    | some mismatch => exact (Ensures.of_program _).andThen fun _ => .report trivial
  have hplan : Outcome MeshError.CountsAgree (fun _ => True)
      (CopyPlan.ofColoring coloring space me.rank) := by
    unfold CopyPlan.ofColoring
    split
    · cases CopyPlan.derive coloring space me.rank <;> exact trivial
    · exact trivial
  refine (Ensures.of_result hplan).andThen fun plan => (hverify plan).andThen fun _ => ?_
  exact (Ensures.of_program _).andThen fun _ => .pure trivial

theorem partitions_outcome (coloring : Coloring) (indexSpaces : Nat) :
    Outcome MeshError.CountsAgree (fun _ => True) (coloring.partitions indexSpaces) := by
  have hreports : Checked.FailsWith (fun failure => ∀ e, failure = .reported e → e.CountsAgree)
      (coloring.partitions indexSpaces) := by
    unfold Coloring.partitions
    split
    · exact .error fun e he => by cases he; exact trivial
    · exact .mapM fun _ _ => .lift fun _ _ => nofun
  exact .of_reports (fun _ _ => trivial) fun e he => hreports _ he e rfl

theorem ofColoring_ensures {me : Member} {coloring : Coloring} (hcolors : coloring.colors = me.size)
    (indexSpaces : Nat) :
    (ofColoring me coloring indexSpaces).Ensures MeshError.CountsAgree fun _ => True := by
  unfold ofColoring
  rw [if_neg (not_not_intro hcolors)]
  refine (Ensures.of_result (partitions_outcome coloring indexSpaces)).andThen fun partitions => ?_
  refine (Ensures.mapM fun space _ => establish_ensures me coloring space).andThen fun plans => ?_
  refine (Ensures.of_program _).andThen fun _ => (Ensures.of_fault fun _ _ => trivial).andThen fun _ => ?_
  exact (Ensures.of_fault fun _ _ => trivial).andThen fun _ => .pure trivial

/-- A rank that holds the input of the root goes on without finding another number of colors. -/
theorem build_ensures {me : Member} (h : Meets spec me.size) (sent : ColorMeta) (indexSpaces : Nat) :
    (do
      let coloring ← Coloring.derive spec
      let derived ← coloring.metadata me.rank
      checkMetadata me.rank derived sent
      ofColoring me coloring indexSpaces : Comm Topology).Ensures MeshError.CountsAgree
        fun _ => True := by
  have hderive : (Coloring.derive spec).Ensures MeshError.CountsAgree
      fun coloring => coloring.colors = me.size := by
    refine Ensures.bind (.of_result ?_) fun coloring hcolors =>
      (Ensures.of_program _).andThen fun _ => .pure hcolors
    cases hof : Coloring.ofSpec spec with
    | ok coloring => exact h.colors_of hof
    | error failure =>
      cases failure with
      | reported e => exact absurd hof h.not_reported
      | fault cause => exact trivial
  refine hderive.bind fun coloring hcolors => (Ensures.of_fault fun _ _ => trivial).andThen fun derived => ?_
  refine (Ensures.of_check (fun _ _ => trivial) (checkMetadata_reports me.rank derived sent)).andThen ?_
  exact fun _ => ofColoring_ensures hcolors indexSpaces

/-! ## The root -/

theorem derive_follows {error : MeshError → Prop} {rank : Nat} {channel : Channel} {ms : List Bytes}
    (h : Meets spec n) : (Coloring.derive spec).Follows error rank channel ms
      fun coloring ms' => Coloring.ofSpec spec = .ok coloring ∧ ms' = ms := by
  refine .result_bind (fun coloring hof => .lift_bind ?_) fun e he => absurd he h.not_reported
  exact ⟨hof, rfl⟩

/-- The root has a coloring to give away, and no error. -/
theorem rootColoring_follows {error : MeshError → Prop} {channel : Channel} {ms : List Bytes}
    (hmesh : mesh.color n = .ok spec) (h : Meets spec n) :
    (rootColoring mesh ⟨0, n⟩).Follows error 0 channel ms fun built ms' =>
      (∃ coloring, Coloring.ofSpec spec = .ok coloring ∧ built = some (.ok coloring)) ∧ ms' = ms := by
  have hcolor : (colorFor mesh n).Follows (fun _ => False) 0 channel ms
      fun coloring ms' => Coloring.ofSpec spec = .ok coloring ∧ ms' = ms := by
    refine .result_bind (fun spec' hspec => ?_) fun e he => by rw [hmesh] at he; cases he
    cases hmesh.symm.trans hspec
    refine (derive_follows h).bind fun coloring ms' hof => ?_
    rw [if_neg (not_not_intro (h.colors_of hof.1))]
    exact .pure hof
  refine .lift_bind (Program.Follows.mono hcolor fun result ms' hresult => ?_)
  match result with
  | .ok coloring => exact ⟨⟨coloring, hresult.1, rfl⟩, hresult.2⟩
  | .error (.reported e) => exact hresult.elim
  | .error (.fault cause) => exact trivial

variable {rank : Nat} {m : ColorMeta}

/-- What the root sends a rank next to the input, if it has a coloring at all. -/
structure Sends (spec : ColoringSpec) (n rank : Nat) (m : ColorMeta) : Prop where
  writable : m.Writable
  value_eq : ∀ coloring, Coloring.ofSpec spec = .ok coloring →
    disseminationFor (some (.ok coloring)) rank n = .ok (.ok (spec, m))

theorem Meets.exists_sends (h : Meets spec n) (hrank : rank < n) : ∃ m, Sends spec n rank m := by
  cases hof : Coloring.ofSpec spec with
  | ok coloring =>
    obtain ⟨m, hm, hwritable⟩ :=
      Coloring.exists_metadata h.writable hof (Nat.lt_of_lt_of_eq hrank (h.colors_of hof).symm)
    have hspec : coloring.spec = spec := by
      obtain ⟨-, -, -, -, -, -, rfl⟩ := Coloring.ofSpec_eq_ok_iff.mp hof
      rfl
    refine ⟨m, hwritable, ?_⟩
    intro coloring' hof'
    cases hof.symm.trans hof'
    simp only [disseminationFor, hm, hspec]
    rfl
  | error failure =>
    refine ⟨⟨0, []⟩, ⟨by decide, by decide, nofun⟩, fun coloring hof' => ?_⟩
    cases hof.symm.trans hof'

theorem new_follows_root (hmesh : mesh.color n = .ok spec) (h : Meets spec n) (hrank : rank < n)
    (hsends : Sends spec n rank m) :
    (new ⟨0, n⟩ mesh).Follows MeshError.CountsAgree 0 ⟨0, rank, OneToAll.defaultTag⟩
      (OneToAll.listed (disseminationCodec.encode (.ok (spec, m))) rank 1) fun _ _ => True := by
  have hreceive : (receiveMetadata mesh ⟨0, n⟩).Follows MeshError.CountsAgree 0
      ⟨0, rank, OneToAll.defaultTag⟩
      (OneToAll.listed (disseminationCodec.encode (.ok (spec, m))) rank 1)
      fun found ms => found.1 = spec ∧ ms = [] := by
    refine (rootColoring_follows hmesh h).bind ?_
    rintro _ _ ⟨⟨coloring, hof, rfl⟩, rfl⟩
    have hroot : (oneToAll disseminationCodec.packer ⟨0, n⟩ OneToAll.defaultTag
        (disseminationFor (some (.ok coloring)))).Follows MeshError.CountsAgree 0
        ⟨0, rank, OneToAll.defaultTag⟩
        (OneToAll.listed (disseminationCodec.encode (.ok (spec, m))) rank 1)
        fun found ms => disseminationFor (some (.ok coloring)) 0 n = .ok found ∧ ms = [] :=
      OneToAll.root_follows MeshError.OfTraffic.countsAgree hrank fun _ =>
        ⟨hsends.value_eq coloring hof, rfl⟩
    refine hroot.bind ?_
    rintro found _ ⟨hfound, rfl⟩
    obtain ⟨own, hown⟩ := h.exists_sends (Nat.zero_lt_of_lt hrank)
    cases (hown.value_eq coloring hof).symm.trans hfound
    exact ⟨rfl, rfl⟩
  refine hreceive.bind ?_
  rintro ⟨spec', sent⟩ _ ⟨rfl, rfl⟩
  exact (build_ensures h sent mesh.indexSpaces).follows.mono fun _ _ _ => trivial

/-! ## The other ranks -/

theorem new_follows_leaf (h : Meets spec n) (hne : rank ≠ 0) (hsends : Sends spec n rank m) :
    (new ⟨rank, n⟩ mesh).Follows MeshError.CountsAgree rank ⟨0, rank, OneToAll.defaultTag⟩
      (OneToAll.messages (.ok (disseminationCodec.encode (.ok (spec, m))))) fun _ _ => True := by
  have hdelimits : disseminationCodec.packer.Delimits (.ok (spec, m)) _ :=
    have hwritable : Dissemination.Writable (.ok (spec, m)) := ⟨h.writable, hsends.writable⟩
    (delimitsAt_disseminationCodec hwritable).packer
  have hreceive : (receiveMetadata mesh ⟨rank, n⟩).Follows MeshError.CountsAgree rank
      ⟨0, rank, OneToAll.defaultTag⟩
      (OneToAll.messages (.ok (disseminationCodec.encode (.ok (spec, m)))))
      fun found ms => found.1 = spec ∧ ms = [] := by
    have hleaf : (oneToAll disseminationCodec.packer ⟨rank, n⟩ OneToAll.defaultTag
        (disseminationFor none)).Follows MeshError.CountsAgree rank ⟨0, rank, OneToAll.defaultTag⟩
        (OneToAll.messages (.ok (disseminationCodec.encode (.ok (spec, m)))))
        fun found ms => found = .ok (spec, m) ∧ ms = [] := by
      rw [oneToAll, if_neg hne]
      exact OneToAll.leaf_follows hdelimits MeshError.OfTraffic.countsAgree
    rw [receiveMetadata, rootColoring, if_neg hne]
    refine hleaf.bind ?_
    rintro _ _ ⟨rfl, rfl⟩
    exact ⟨rfl, rfl⟩
  refine hreceive.bind ?_
  rintro ⟨spec', sent⟩ _ ⟨rfl, rfl⟩
  exact (build_ensures h sent mesh.indexSpaces).follows.mono fun _ _ _ => trivial

/-! ## The group -/

/-- A rank that has ended found no difference of the numbers of colors, also where others have not. -/
theorem outcome_of_reaches (hmesh : mesh.color n = .ok spec) (h : Meets spec n)
    {g : Group (Except Failure Topology)} {result : Except Failure Topology}
    (hreaches : Group.Reaches (Group.start ((Member.all n).map fun me => (new me mesh).run)) g)
    (hended : g.programs[rank]? = some (.done result)) :
    Outcome MeshError.CountsAgree (fun _ => True) result := by
  have hrank : rank < n := Comm.lt_of_reaches hreaches hended
  obtain ⟨m, hsends⟩ := h.exists_sends hrank
  have hroot := new_follows_root hmesh h hrank hsends
  by_cases hzero : rank = 0
  · subst hzero
    exact Comm.outcome_of_ensures hreaches (Program.follows_nil_iff.mp hroot) hended
  · rw [OneToAll.listed, if_neg (by omega)] at hroot
    obtain ⟨_, houtcome⟩ := Comm.outcome_of_follows hreaches (Ne.symm hzero) hroot
      (new_follows_leaf h hzero hsends) hended
    exact houtcome

end Topology

end HaloMesh
