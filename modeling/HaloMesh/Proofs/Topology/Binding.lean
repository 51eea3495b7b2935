-- SUMMARY: What every rank of a group holds once all of them have bound their color of one coloring.
import HaloMesh.Proofs.CopyPlan.Concert
import HaloMesh.Topology.Construct

/-!
# Binding a color

When all ranks of a group hold one coloring of as many colors, each of them can bind its color. What a
rank holds then (`bound`) is determined by the coloring alone, one entry per index space, and the
entries agree on the number of slots.
-/

namespace HaloMesh

/-! ## Colorings that a group shares -/

namespace Coloring

/-- The input of an index space. -/
def definition (coloring : Coloring) (s : Nat) : ColoringDefinition :=
  coloring.spec.indexSpaces.getD s default

/-- What the colors store of an index space. -/
def records (coloring : Coloring) (s : Nat) : List IndexColoring := coloring.parts.getD s default

/-- What a color stores of an index space. -/
def part (coloring : Coloring) (s color : Nat) : IndexColoring := (coloring.records s).getD color default

/-- The plan of a color for an index space. -/
def plan (coloring : Coloring) (s color : Nat) : CopyPlan :=
  CopyPlan.plansOf s (coloring.definition s) (coloring.records s) color

theorem part_eq {coloring : Coloring} {s color : Nat} (hcolor : color < (coloring.records s).length) :
    coloring.part s color = (coloring.records s)[color] := by
  rw [part, List.getD_eq_getElem?_getD, List.getElem?_eq_getElem hcolor]
  rfl

/-- A coloring of a spec with one color for each rank of a group, which all of them can derive. -/
structure Shared (coloring : Coloring) (n : Nat) : Prop where
  derived : ofSpec coloring.spec = .ok coloring
  colors_eq : coloring.colors = n

/-- All ranks can derive their plans of the coloring, too. -/
structure Spans (coloring : Coloring) (n : Nat) : Prop extends coloring.Shared n where
  planned : ∀ s < coloring.indexSpaces, ∀ rank < n, ∃ p, CopyPlan.ofColoring coloring s rank = .ok p

/-- A list entry by entry. -/
theorem eq_map_range {α : Type} [Inhabited α] (xs : List α) :
    xs = (List.range xs.length).map (xs.getD · default) := by
  refine List.ext_getElem (by simp) fun i hi _ => ?_
  simp [List.getD_eq_getElem?_getD, hi]

theorem parts_eq (coloring : Coloring) :
    coloring.parts = (List.range coloring.indexSpaces).map coloring.records := eq_map_range _

namespace Shared

variable {coloring : Coloring} {n : Nat}

theorem list_le (h : coloring.Shared n) : 24 * n ≤ Word.bufferLimit := by
  have hlist := footprint_mul_colors_le h.derived
  rw [h.colors_eq] at hlist
  exact Nat.le_trans (Nat.mul_le_mul_right _ (by decide)) hlist

theorem pos (h : coloring.Shared n) : 0 < n := by
  obtain ⟨hvalid, -, heq⟩ := ofSpec_eq_ok_iff_realizable.mp h.derived
  have hspec := ColoringSpec.valid_of_validate hvalid
  have hcolors : coloring.colors = coloring.spec.axisColors.prod := congrArg (·.colors) heq
  obtain ⟨d, hd⟩ := List.exists_mem_of_ne_nil _ hspec.nonempty
  rw [← h.colors_eq, hcolors, ← hspec.axisColors_eq d hd]
  exact List.prod_pos_iff_forall_pos_nat.mpr (hspec.space_valid d hd).colors_pos

theorem length_eq (h : coloring.Shared n) : coloring.spec.indexSpaces.length = coloring.indexSpaces := by
  obtain ⟨-, -, heq⟩ := ofSpec_eq_ok_iff_realizable.mp h.derived
  have hparts := congrArg (·.parts.length) heq
  exact ((hparts : coloring.parts.length = _).trans (List.length_map _)).symm

theorem definitions_eq (h : coloring.Shared n) :
    coloring.spec.indexSpaces = (List.range coloring.indexSpaces).map coloring.definition := by
  rw [← h.length_eq]
  exact eq_map_range _

section
variable (h : coloring.Shared n) {s rank : Nat} (hs : s < coloring.indexSpaces)
include h hs

theorem stores : coloring.Stores s (coloring.definition s) := by
  obtain ⟨d, hd⟩ := exists_stores h.derived hs
  have heq : coloring.definition s = d := by
    rw [definition, List.getD_eq_getElem?_getD, hd.definition]
    rfl
  exact heq ▸ hd

theorem records_eq : coloring.records s = recordsOf (coloring.definition s) n := by
  rw [records, List.getD_eq_getElem?_getD, (h.stores hs).records, ← h.colors_eq]
  rfl

theorem length_records : (coloring.records s).length = n := by
  rw [h.records_eq hs, length_recordsOf]

theorem getElem?_records (hrank : rank < n) :
    (coloring.records s)[rank]? = some (coloring.part s rank) := by
  have hlt : rank < (coloring.records s).length := by rwa [h.length_records hs]
  rw [part_eq hlt, List.getElem?_eq_getElem hlt]

theorem part_eq_recordAt (hrank : rank < n) : coloring.part s rank = IndexColoring.recordAt
    (coloring.definition s).axes (Grid.position (coloring.definition s).axisColors rank) := by
  have hlt : rank < (coloring.records s).length := by rwa [h.length_records hs]
  rw [part_eq hlt]
  simp only [h.records_eq hs, getElem_recordsOf]

/-- What a color stores is what the input of the index space gives it. -/
theorem of_eq_ok (hrank : rank < n) :
    IndexColoring.of (coloring.definition s) rank = .ok (coloring.part s rank) := by
  have hstores := h.stores hs
  refine (IndexColoring.of_eq_ok_iff hstores.valid).mpr ⟨?_, h.part_eq_recordAt hs hrank⟩
  exact (hstores.storable rank (h.colors_eq ▸ hrank)).imp fun _ _ hc => hc.toColorable

end

end Shared

namespace Spans

variable {coloring : Coloring} {n s rank : Nat}

/-- The plan of a rank, of which the slots are counted without a fault. -/
theorem plan_eq_ok (h : coloring.Spans n) (hs : s < coloring.indexSpaces) (hrank : rank < n) :
    CopyPlan.ofColoring coloring s rank = .ok (coloring.plan s rank) ∧
      (coloring.part s rank).size = .ok (coloring.part s rank).extents.prod := by
  obtain ⟨p, hp⟩ := h.planned s hs rank hrank
  have hstores := h.stores hs
  obtain ⟨-, rfl, hlt⟩ := CopyPlan.eq_planOf_of_ofColoring hstores hp
  have hpart := h.part_eq_recordAt hs hrank
  refine ⟨?_, ?_⟩
  · rw [hp, plan, CopyPlan.plansOf, ← hpart]
    rfl
  · rw [hpart]
    refine Word.product_eq_ok ?_ hlt
    rw [IndexColoring.extents_recordAt]
    exact Slab.extents_pos (hstores.valid.arePlaced_position rank)

/-- The plans of an index space are in concert. -/
theorem concert (h : coloring.Spans n) (hs : s < coloring.indexSpaces) :
    CopyPlan.Concert n (CopyPlan.tagOf s) (coloring.plan s) := by
  have hplan := fun r (hr : r < n) => (h.plan_eq_ok hs hr).1
  rw [← h.colors_eq] at hplan ⊢
  exact CopyPlan.concert_of_ofColoring h.derived hplan

end Spans

/-- All colors of a representable spec have their plans. -/
theorem spans_of_ofSpec {spec : ColoringSpec} (hrep : spec.Representable) {coloring : Coloring}
    (hof : ofSpec spec = .ok coloring) {n : Nat} (hcolors : coloring.colors = n) :
    coloring.Spans n where
  derived := (realizes_of_ofSpec hrep.toFits hof).2.spec_eq ▸ hof
  colors_eq := hcolors
  planned s hs rank hrank := by
    obtain ⟨d, parts, h⟩ := exists_hasSpace hrep hof hs
    exact ⟨_, CopyPlan.ofColoring_eq_plansOf h (h.colors_eq.trans hcolors ▸ hrank)⟩

end Coloring

/-! ## What a rank holds -/

namespace Topology

/-- The storage sizes of an index space. -/
def partitionOf (coloring : Coloring) (s : Nat) : Partition where
  indexSpace := s
  extents := (coloring.records s).map (·.extents)
  sizes := (coloring.records s).map (·.extents.prod)

/-- What a rank holds of a coloring. -/
def bound (coloring : Coloring) (rank : Nat) : Topology where
  member := ⟨rank, coloring.colors⟩
  spec := coloring.spec
  metadata := ⟨rank, (List.range coloring.indexSpaces).map (coloring.part · rank)⟩
  partitions := (List.range coloring.indexSpaces).map (partitionOf coloring)
  plans := (List.range coloring.indexSpaces).map (coloring.plan · rank)
  regions := (List.range coloring.indexSpaces).map fun s =>
    .new s rank (coloring.part s rank).extents.prod

/-- The topology is that of a color of the spec, with empty storage of the right size. -/
structure Binds (t : Topology) (spec : ColoringSpec) (n rank : Nat) : Prop where
  member_eq : t.member = ⟨rank, n⟩
  spec_eq : t.spec = spec
  metadata_eq : ColorMeta.of spec rank = .ok t.metadata
  length_partitions : t.partitions.length = spec.indexSpaces.length
  length_plans : t.plans.length = spec.indexSpaces.length
  length_regions : t.regions.length = spec.indexSpaces.length
  partition_eq : ∀ (s : Nat) (part : IndexColoring), t.metadata.spaces[s]? = some part →
    ∃ p : Partition, t.partitions[s]? = some p ∧ p.indexSpace = s ∧ p.colors = n ∧
      p.extents[rank]? = some part.extents ∧ p.sizes[rank]? = some part.extents.prod
  plan_eq : ∀ (s : Nat) (part : IndexColoring), t.metadata.spaces[s]? = some part →
    ∃ p : CopyPlan, t.plans[s]? = some p ∧ p.indexSpace = s ∧ p.color = rank ∧
      p.slots = part.extents.prod
  region_eq : ∀ (s : Nat) (part : IndexColoring), t.metadata.spaces[s]? = some part →
    t.regions[s]? = some (Region.new s rank part.extents.prod)

section
variable {coloring : Coloring} {n rank : Nat}

theorem metadata_eq_ok (h : coloring.Shared n) (hrank : rank < n) :
    coloring.metadata rank = .ok (bound coloring rank).metadata := by
  have hparts : coloring.parts.mapM (fetch · rank) =
      .ok ((List.range coloring.indexSpaces).map (coloring.part · rank)) := by
    rw [Coloring.parts_eq, List.mapM_map]
    apply Checked.mapM_eq_ok
    intro s hs
    exact fetch_eq_ok_iff.mpr (h.getElem?_records (List.mem_range.mp hs) hrank)
  rw [Coloring.metadata, hparts]
  rfl

theorem colorMeta_of_eq_ok (h : coloring.Shared n) (hrank : rank < n) :
    ColorMeta.of coloring.spec rank = .ok (bound coloring rank).metadata := by
  have hspaces : coloring.spec.indexSpaces.mapM (IndexColoring.of · rank) =
      .ok ((List.range coloring.indexSpaces).map (coloring.part · rank)) := by
    rw [h.definitions_eq, List.mapM_map]
    apply Checked.mapM_eq_ok
    intro s hs
    exact h.of_eq_ok (List.mem_range.mp hs) hrank
  rw [ColorMeta.of, hspaces]
  rfl

theorem partitions_eq_ok (h : coloring.Spans n) :
    coloring.partitions coloring.indexSpaces = .ok (bound coloring rank).partitions := by
  have hpartition : ∀ s ∈ List.range coloring.indexSpaces,
      Partition.ofParts s (coloring.records s) = .ok (partitionOf coloring s) := by
    intro s hs
    have hs := List.mem_range.mp hs
    have hsizes : ((coloring.records s).map (·.extents)).mapM Word.product =
        .ok ((coloring.records s).map (·.extents.prod)) := by
      rw [List.mapM_map]
      apply Checked.mapM_eq_ok
      intro part hpart
      obtain ⟨color, hcolor, rfl⟩ := List.getElem_of_mem hpart
      rw [← Coloring.part_eq hcolor]
      exact (h.plan_eq_ok hs (h.length_records hs ▸ hcolor)).2
    simp only [Partition.ofParts, hsizes]
    rfl
  rw [Coloring.partitions, if_neg (not_not_intro rfl)]
  show coloring.parts.zipIdx.mapM (fun x : List IndexColoring × Nat =>
    (liftM (Partition.ofParts x.2 x.1) : Except Failure Partition)) = _
  rw [Coloring.parts_eq, AllToAll.zipIdx_map_range, List.mapM_map]
  apply Checked.mapM_eq_ok
  intro s hs
  exact Checked.liftM_eq_ok_iff.mpr (hpartition s hs)

theorem regions_eq_ok (h : coloring.Shared n) (hrank : rank < n) :
    (bound coloring rank).partitions.mapM (·.region rank) = .ok (bound coloring rank).regions := by
  show ((List.range coloring.indexSpaces).map (partitionOf coloring)).mapM _ = _
  rw [List.mapM_map]
  apply Checked.mapM_eq_ok
  intro s hs
  have hsize : fetch (partitionOf coloring s).sizes rank = .ok (coloring.part s rank).extents.prod := by
    rw [fetch_eq_ok_iff, partitionOf, List.getElem?_map,
      h.getElem?_records (List.mem_range.mp hs) hrank]
    rfl
  show (partitionOf coloring s).region rank = _
  rw [Partition.region, hsize]
  rfl

theorem bound_binds (h : coloring.Shared n) (hrank : rank < n) :
    (bound coloring rank).Binds coloring.spec n rank := by
  have hspace : ∀ s part, (bound coloring rank).metadata.spaces[s]? = some part →
      s < coloring.indexSpaces ∧ part = coloring.part s rank := by
    intro s part hpart
    simp only [bound, List.getElem?_map, Option.map_eq_some_iff] at hpart
    obtain ⟨s', hs', rfl⟩ := hpart
    obtain ⟨hlt, heq⟩ := List.getElem?_eq_some_iff.mp hs'
    rw [List.getElem_range] at heq
    subst heq
    exact ⟨by simpa using hlt, rfl⟩
  have hentry : ∀ {β : Type} (f : Nat → β) {s : Nat}, s < coloring.indexSpaces →
      ((List.range coloring.indexSpaces).map f)[s]? = some (f s) := by
    intro β f s hs
    rw [List.getElem?_map, List.getElem?_range hs]
    rfl
  have hlength : ∀ {β : Type} (f : Nat → β),
      ((List.range coloring.indexSpaces).map f).length = coloring.spec.indexSpaces.length := by
    intro β f
    rw [List.length_map, List.length_range, h.length_eq]
  constructor
  case member_eq => rw [← h.colors_eq, bound]
  case spec_eq => rfl
  case metadata_eq => exact colorMeta_of_eq_ok h hrank
  case length_partitions => exact hlength _
  case length_plans => exact hlength _
  case length_regions => exact hlength _
  case partition_eq =>
    intro s part hpart
    obtain ⟨hs, rfl⟩ := hspace s part hpart
    refine ⟨partitionOf coloring s, hentry _ hs, rfl, ?_, ?_, ?_⟩
    · rw [Partition.colors, partitionOf, List.length_map, h.length_records hs]
    · rw [partitionOf, List.getElem?_map, h.getElem?_records hs hrank]
      rfl
    · rw [partitionOf, List.getElem?_map, h.getElem?_records hs hrank]
      rfl
  case plan_eq =>
    intro s part hpart
    obtain ⟨hs, rfl⟩ := hspace s part hpart
    exact ⟨_, hentry _ hs, rfl, rfl, rfl⟩
  case region_eq =>
    intro s part hpart
    obtain ⟨hs, rfl⟩ := hspace s part hpart
    exact hentry _ hs

/-! ## Groups that bind a coloring -/

/-- Every rank binds its color of a coloring that all of them hold. -/
theorem ofColoring_completes (h : coloring.Spans n) :
    Comm.Completes n (fun rank => ofColoring ⟨rank, n⟩ coloring coloring.indexSpaces)
      (bound coloring) := by
  have hpartitions : Comm.Completes n (fun _ => liftM (coloring.partitions coloring.indexSpaces))
      fun rank => (bound coloring rank).partitions :=
    .of_silent fun _ _ => .of_failure (partitions_eq_ok h)
  have hplans : Comm.Completes n
      (fun rank => (List.range coloring.indexSpaces).mapM (CopyPlan.establish ⟨rank, n⟩ coloring))
      fun rank => (bound coloring rank).plans := by
    apply Comm.Completes.mapM
    intro s hs
    have hs := List.mem_range.mp hs
    have hconcert := h.concert hs
    exact CopyPlan.establish_completes (fun r hr => (h.plan_eq_ok hs hr).1)
      (hconcert.verify_completes h.list_le fun r hr dest hdest => hconcert.agrees hr hdest)
  have hcolors : ¬ coloring.colors ≠ n := not_not_intro h.colors_eq
  simp only [ofColoring, if_neg hcolors]
  refine hpartitions.bind (hplans.bind (.of_silent fun rank hrank => ?_))
  refine (Comm.Yields.lift (Program.performs_record ..)).bind_silent ?_
  refine (Comm.Yields.of_fault (metadata_eq_ok h.toShared hrank)).bind_silent ?_
  refine (Comm.Yields.of_fault (regions_eq_ok h.toShared hrank)).bind_silent ?_
  rw [← h.colors_eq]
  exact .pure rank _

/-- No rank binds a coloring of another number of index spaces than the one it asks for. -/
theorem ofColoring_mismatch (h : coloring.Shared n) {spaces : Nat}
    (hspaces : coloring.indexSpaces ≠ spaces) :
    Completes n (fun rank => (ofColoring ⟨rank, n⟩ coloring spaces).run)
      fun _ => .error (.reported (.indexSpaceMismatch spaces coloring.indexSpaces)) := by
  have hcolors : ¬ coloring.colors ≠ n := not_not_intro h.colors_eq
  have hpartitions : coloring.partitions spaces =
      .error (.reported (.indexSpaceMismatch spaces coloring.indexSpaces)) := by
    rw [Coloring.partitions, if_pos hspaces]
    rfl
  simp only [ofColoring, if_neg hcolors, hpartitions]
  exact .of_silent fun rank _ => .refl _

end

end Topology

end HaloMesh
