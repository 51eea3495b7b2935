-- SUMMARY: Run tables: ordered colors, grouping by source, and lookups.
import HaloMesh.CopyPlan
import HaloMesh.Proofs.Checked
import Mathlib.Data.List.Pairwise

/-!
# Run tables

The colors of a table are listed in increasing order, each once. Grouping runs by their source keeps
every run, and keeps the runs of a source in order.
-/

namespace HaloMesh

/-! ## Increasing lists -/

namespace Ghost

theorem mem_insertNew {n m : Nat} {ns : List Nat} : m ∈ insertNew n ns ↔ m = n ∨ m ∈ ns := by
  induction ns with
  | nil => simp [insertNew]
  | cons k ns ih =>
    rw [insertNew]
    split
    · simp
    · split
      · rename_i heq
        subst heq
        simp
      · rw [List.mem_cons, ih, List.mem_cons]
        exact or_left_comm

theorem pairwise_insertNew {n : Nat} {ns : List Nat} (h : ns.Pairwise (· < ·)) :
    (insertNew n ns).Pairwise (· < ·) := by
  induction ns with
  | nil => exact List.pairwise_singleton _ _
  | cons k ns ih =>
    obtain ⟨hk, hns⟩ := List.pairwise_cons.mp h
    rw [insertNew]
    split
    · rename_i hlt
      refine List.pairwise_cons.mpr ⟨fun m hm => ?_, h⟩
      cases hm with
      | head => exact hlt
      | tail _ hm => exact Nat.lt_trans hlt (hk m hm)
    · split
      · exact h
      · refine List.pairwise_cons.mpr ⟨fun m hm => ?_, ih hns⟩
        rcases mem_insertNew.mp hm with rfl | hm
        · omega
        · exact hk m hm

theorem mem_ordered {m : Nat} {ns : List Nat} : m ∈ ordered ns ↔ m ∈ ns := by
  induction ns with
  | nil => exact Iff.rfl
  | cons n ns ih =>
    rw [ordered, List.foldr_cons, mem_insertNew, List.mem_cons]
    exact or_congr_right ih

theorem pairwise_ordered (ns : List Nat) : (ordered ns).Pairwise (· < ·) := by
  induction ns with
  | nil => exact .nil
  | cons n ns ih => exact pairwise_insertNew ih

theorem nodup_ordered (ns : List Nat) : (ordered ns).Nodup :=
  (pairwise_ordered ns).imp Nat.ne_of_lt

end Ghost

/-! ## Lookups -/

namespace RunTable

theorem mem_of_lookup {table : RunTable} {color : Nat} {runs : List Run}
    (h : table.lookup color = some runs) : (color, runs) ∈ table := by
  obtain ⟨_, _, rfl, -⟩ := List.lookup_eq_some_iff.mp h
  simp

theorem mem_of_mem_runsOf {table : RunTable} {color : Nat} {r : Run} (hr : r ∈ table.runsOf color) :
    ∃ runs, (color, runs) ∈ table ∧ r ∈ runs := by
  rw [runsOf] at hr
  cases hlookup : table.lookup color with
  | none =>
    rw [hlookup] at hr
    exact absurd hr List.not_mem_nil
  | some runs =>
    rw [hlookup] at hr
    exact ⟨runs, mem_of_lookup hlookup, hr⟩

theorem lookup_of_mem {table : RunTable} (hkeys : (table.map (·.1)).Nodup) {color : Nat}
    {runs : List Run} (h : (color, runs) ∈ table) : table.lookup color = some runs := by
  obtain ⟨before, after, rfl⟩ := List.append_of_mem h
  refine List.lookup_eq_some_iff.mpr ⟨before, after, rfl, fun entry hentry => ?_⟩
  rw [List.map_append, List.nodup_append] at hkeys
  exact bne_iff_ne.mpr (hkeys.2.2 entry.1 (List.mem_map_of_mem hentry) color (by simp)).symm

theorem lookup_eq_none_iff {table : RunTable} {color : Nat} :
    table.lookup color = none ↔ color ∉ table.map (·.1) := by
  rw [List.lookup_eq_none_iff, List.mem_map]
  constructor
  · rintro h ⟨entry, hentry, rfl⟩
    exact absurd (h entry hentry) (by simp)
  · intro h entry hentry
    exact bne_iff_ne.mpr fun heq => h ⟨entry, hentry, heq.symm⟩

theorem lookup_bySource (runs : List Run) (source : Nat) : (bySource runs).lookup source =
    if source ∈ runs.map (·.source) then some (runs.filter (·.source == source)) else none := by
  rw [bySource, Checked.lookup_map]
  simp only [Ghost.mem_ordered]

/-- The runs of a source, none if there are none. -/
theorem runsOf_bySource (runs : List Run) (source : Nat) :
    (bySource runs).runsOf source = runs.filter (·.source == source) := by
  rw [runsOf, lookup_bySource]
  split
  · rfl
  · rename_i hsource
    refine (List.filter_eq_nil_iff.mpr fun r hr heq => hsource ?_).symm
    exact List.mem_map.mpr ⟨r, hr, beq_iff_eq.mp heq⟩

theorem keys_bySource (runs : List Run) :
    (bySource runs).map (·.1) = Ghost.ordered (runs.map (·.source)) := by
  rw [bySource, List.map_map]
  exact List.map_id _

/-- Grouping keeps every run. -/
theorem mem_flatMap_bySource {runs : List Run} {r : Run} :
    r ∈ (bySource runs).flatMap (·.2) ↔ r ∈ runs := by
  simp only [bySource, List.mem_flatMap, List.mem_map, Ghost.mem_ordered]
  constructor
  · rintro ⟨_, ⟨source, _, rfl⟩, hr⟩
    exact List.mem_of_mem_filter hr
  · intro hr
    exact ⟨_, ⟨r.source, ⟨r, hr, rfl⟩, rfl⟩, List.mem_filter.mpr ⟨hr, beq_self_eq_true _⟩⟩

/-- The runs of a source come out of the groups as they went in. -/
theorem filter_flatMap_bySource (runs : List Run) (source : Nat) :
    ((bySource runs).flatMap (·.2)).filter (·.source == source) =
      runs.filter (·.source == source) := by
  have hgroups : ∀ sources : List Nat, sources.Nodup →
      ((sources.map fun s => (s, runs.filter (·.source == s))).flatMap (·.2)).filter
        (·.source == source) = if source ∈ sources then runs.filter (·.source == source) else [] := by
    intro sources hnodup
    induction sources with
    | nil => rfl
    | cons s sources ih =>
      obtain ⟨hs, hnodup⟩ := List.nodup_cons.mp hnodup
      rw [List.map_cons, List.flatMap_cons, List.filter_append, ih hnodup, List.filter_filter]
      by_cases heq : source = s
      · subst heq
        simp [hs]
      · have hnil : runs.filter (fun r => r.source == source && r.source == s) = [] := by
          refine List.filter_eq_nil_iff.mpr fun r _ h => heq ?_
          rw [Bool.and_eq_true, beq_iff_eq, beq_iff_eq] at h
          exact h.1.symm.trans h.2
        simp [hnil, heq]
  rw [bySource, hgroups _ (Ghost.nodup_ordered _)]
  split
  · rfl
  · rename_i hsource
    refine (List.filter_eq_nil_iff.mpr fun r hr heq => hsource ?_).symm
    exact Ghost.mem_ordered.mpr (List.mem_map.mpr ⟨r, hr, beq_iff_eq.mp heq⟩)

/-- A relation between all runs, whichever comes first, holds between the grouped ones. -/
theorem pairwise_flatMap_bySource {R : Run → Run → Prop} (hsymm : ∀ {r s}, R r s → R s r)
    {runs : List Run} (h : runs.Pairwise R) : ((bySource runs).flatMap (·.2)).Pairwise R := by
  rw [bySource, List.pairwise_flatMap, List.pairwise_map]
  refine ⟨fun group hgroup => ?_, ?_⟩
  · obtain ⟨_, _, rfl⟩ := List.mem_map.mp hgroup
    exact h.filter _
  · refine (Ghost.nodup_ordered _).imp ?_
    intro source other hne r hr s hs
    rw [List.mem_filter, beq_iff_eq] at hr hs
    have : Std.Symm R := ⟨fun _ _ => hsymm⟩
    refine h.forall hr.1 hs.1 ?_
    rintro rfl
    exact hne (hr.2.symm.trans hs.2)

end RunTable

end HaloMesh
