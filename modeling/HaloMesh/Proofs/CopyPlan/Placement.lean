-- SUMMARY: The check of a plan accepts it exactly if no two runs share a slot and all of them end within storage.
import HaloMesh.CopyPlan
import HaloMesh.Proofs.Checked
import Mathlib.Data.List.Chain
import Mathlib.Data.List.Pairwise
import Mathlib.Data.List.Perm.Subperm

/-!
# Placement of runs

The runs of a plan are placed if no two of them share a slot and all of them end within storage. This
compares all pairs. The check of a plan sorts the runs by their first slots, compares each only with the
next one, and looks at the end of the last one alone. For runs that are not empty the two agree, and it
does not matter in which order the sort leaves runs that start at the same slot. If the check objects,
then what it objects to is there.
-/

namespace HaloMesh

/-! ## Ranges of slots -/

namespace SlotRange

variable {r s : SlotRange} {slots : Nat} {ranges others : List SlotRange} {violation : Violation}

instance : Membership Nat SlotRange := ⟨fun r slot => r.start ≤ slot ∧ slot < r.stop⟩

/-- No slot lies in both ranges. -/
def Disjoint (r s : SlotRange) : Prop := ∀ slot ∈ r, slot ∉ s

theorem Disjoint.symm (h : r.Disjoint s) : s.Disjoint r := fun slot hs hr => h slot hr hs

theorem disjoint_of_stop_le (h : r.stop ≤ s.start) : r.Disjoint s :=
  fun _ hr hs => Nat.lt_irrefl _ (Nat.lt_of_lt_of_le hr.2 (Nat.le_trans h hs.1))

/-- Of two disjoint ranges, the one that starts first ends before the other starts. -/
theorem Disjoint.stop_le (h : r.Disjoint s) (hstart : r.start ≤ s.start) (hs : s.start < s.stop) :
    r.stop ≤ s.start := by
  by_contra hlt
  exact h s.start ⟨hstart, Nat.lt_of_not_le hlt⟩ ⟨Nat.le_refl _, hs⟩

theorem disjoint_iff : r.Disjoint s ↔ min r.stop s.stop ≤ max r.start s.start := by
  constructor
  · intro h
    by_contra hlt
    have hr : max r.start s.start ∈ r := ⟨by omega, by omega⟩
    exact h _ hr ⟨by omega, by omega⟩
  · rintro h slot ⟨hr, hr'⟩ ⟨hs, hs'⟩
    omega

instance : DecidableRel Disjoint := fun _ _ => decidable_of_iff _ disjoint_iff.symm

/-- No two ranges share a slot, and all of them end within storage of so many slots. -/
structure Placed (slots : Nat) (ranges : List SlotRange) : Prop where
  disjoint : ranges.Pairwise Disjoint
  stop_le : ∀ r ∈ ranges, r.stop ≤ slots

instance : Decidable (Placed slots ranges) :=
  decidable_of_iff (ranges.Pairwise Disjoint ∧ ∀ r ∈ ranges, r.stop ≤ slots)
    ⟨fun h => ⟨h.1, h.2⟩, fun h => ⟨h.disjoint, h.stop_le⟩⟩

/-- What a violation says about the ranges is true: two of them share a slot, or no two do and one
ends past the storage. -/
inductive Flaw (slots : Nat) (ranges : List SlotRange) : Violation → Prop
  | overlappingRuns {first second : SlotRange} (both : [first, second].Subperm ranges)
      (common : ¬ first.Disjoint second) : Flaw slots ranges (.overlappingRuns first second)
  | runBeyondStorage {range : SlotRange} (disjoint : ranges.Pairwise Disjoint) (mem : range ∈ ranges)
      (beyond : slots < range.stop) : Flaw slots ranges (.runBeyondStorage range slots)

theorem Flaw.not_placed (h : Flaw slots ranges violation) : ¬ Placed slots ranges := by
  intro hplaced
  cases h with
  | overlappingRuns both common =>
    obtain ⟨pair, hperm, hsublist⟩ := both
    have hpair := (hperm.pairwise_iff Disjoint.symm).mp (hplaced.disjoint.sublist hsublist)
    exact common (List.pairwise_pair.mp hpair)
  | runBeyondStorage _ mem beyond =>
    exact Nat.not_le.mpr beyond (hplaced.stop_le _ mem)

theorem placed_congr (h : ranges.Perm others) : Placed slots ranges ↔ Placed slots others := by
  have hdisjoint : ranges.Pairwise Disjoint ↔ others.Pairwise Disjoint := h.pairwise_iff Disjoint.symm
  exact ⟨fun ⟨hp, hs⟩ => ⟨hdisjoint.mp hp, fun r hr => hs r (h.mem_iff.mpr hr)⟩,
    fun ⟨hp, hs⟩ => ⟨hdisjoint.mpr hp, fun r hr => hs r (h.mem_iff.mp hr)⟩⟩

theorem Flaw.perm (h : ranges.Perm others) (hflaw : Flaw slots ranges violation) :
    Flaw slots others violation := by
  cases hflaw with
  | overlappingRuns both common => exact .overlappingRuns (both.trans h.subperm) common
  | runBeyondStorage disjoint mem beyond =>
    exact .runBeyondStorage ((h.pairwise_iff Disjoint.symm).mp disjoint) (h.mem_iff.mp mem) beyond

/-! ## Ranges in the order of their starts -/

/-- If each range ends before the next one starts, then it ends before all later ones start. -/
theorem pairwise_of_isChain (hsorted : ranges.Pairwise fun r s => r.start ≤ s.start)
    (hchain : ranges.IsChain fun r s => r.stop ≤ s.start) :
    ranges.Pairwise fun r s => r.stop ≤ s.start := by
  induction ranges with
  | nil => exact .nil
  | cons r rest ih =>
    obtain ⟨-, hrest⟩ := List.pairwise_cons.mp hsorted
    refine List.pairwise_cons.mpr ⟨?_, ih hrest (List.isChain_cons.mp hchain).2⟩
    cases rest with
    | nil => exact nofun
    | cons s rest =>
      intro t ht
      have hnext : r.stop ≤ s.start := (List.isChain_cons_cons.mp hchain).1
      rcases List.mem_cons.mp ht with rfl | ht
      · exact hnext
      · exact Nat.le_trans hnext ((List.pairwise_cons.mp hrest).1 t ht)

/-- Of ranges that follow one another, the last one ends last. -/
theorem stop_le_getLast {last : SlotRange} (hfollow : ranges.Pairwise fun r s => r.stop ≤ s.start)
    (hpos : ∀ r ∈ ranges, r.start < r.stop) (hlast : ranges.getLast? = some last) (hr : r ∈ ranges) :
    r.stop ≤ last.stop := by
  have hstops : ranges.Pairwise fun r s => r.stop ≤ s.stop :=
    hfollow.imp_of_mem fun _ hs hle => Nat.le_trans hle (Nat.le_of_lt (hpos _ hs))
  obtain ⟨before, rfl⟩ := List.getLast?_eq_some_iff.mp hlast
  rcases List.mem_append.mp hr with hr | hr
  · exact (List.pairwise_append.mp hstops).2.2 r hr last (by simp)
  · rw [List.mem_singleton.mp hr]

theorem pairwise_mergeSort (ranges : List SlotRange) :
    (ranges.mergeSort fun r s => r.start ≤ s.start).Pairwise fun r s => r.start ≤ s.start := by
  have hsorted : (ranges.mergeSort fun r s => r.start ≤ s.start).Pairwise fun r s =>
      decide (r.start ≤ s.start) = true := by
    refine List.pairwise_mergeSort (fun r s t hrs hst => ?_) (fun r s => ?_) ranges
    · rw [decide_eq_true_eq] at *
      exact Nat.le_trans hrs hst
    · rw [Bool.or_eq_true, decide_eq_true_eq, decide_eq_true_eq]
      exact Nat.le_total _ _
  exact hsorted.imp of_decide_eq_true

end SlotRange

/-! ## The check -/

/-- The slots that a run fills. -/
def Run.target (r : Run) : SlotRange := ⟨r.dest, r.dest + r.length⟩

namespace CopyPlan

/-- The ranges that the runs of a plan fill. -/
def targets (p : CopyPlan) : List SlotRange := p.runs.map Run.target

/-- An answer accepts a plan exactly if its runs are placed, and otherwise reports a flaw of theirs as a
broken invariant. -/
structure Exact (p : CopyPlan) (answer : Except Failure Unit) : Prop where
  accepts_iff : answer = .ok () ↔ SlotRange.Placed p.slots p.targets
  objects : ¬ SlotRange.Placed p.slots p.targets → ∃ violation,
    SlotRange.Flaw p.slots p.targets violation ∧ answer = .error (.reported (.invariant violation))

section
variable {slots : Nat} {ranges : List SlotRange}

theorem firstOverlap?_eq_none_iff :
    firstOverlap? ranges = none ↔ ranges.IsChain fun r s => r.stop ≤ s.start := by
  fun_induction firstOverlap? ranges with
  | case1 r s rest hlt => simp [hlt]
  | case2 r s rest hle ih =>
    rw [List.isChain_cons_cons, ih]
    exact (and_iff_right (Nat.le_of_not_lt hle)).symm
  | case3 ranges hshort =>
    match ranges with
    | [] => simp
    | [r] => simp
    | r :: s :: rest => exact absurd rfl (hshort r s rest)

/-- The ranges that are found are neighbors. -/
theorem infix_of_firstOverlap? {r s : SlotRange} (h : firstOverlap? ranges = some (r, s)) :
    [r, s] <:+: ranges ∧ s.start < r.stop := by
  fun_induction firstOverlap? ranges with
  | case1 r s rest hlt =>
    cases h
    exact ⟨(List.prefix_append [r, s] rest).isInfix, hlt⟩
  | case2 r s rest hle ih =>
    obtain ⟨hneighbors, hlt⟩ := ih h
    exact ⟨hneighbors.trans (List.suffix_cons r _).isInfix, hlt⟩
  | case3 => cases h

/-- Ranges in the order of their starts are placed and accepted, or have a flaw that is reported. -/
theorem checkRanges_of_sorted (hsorted : ranges.Pairwise fun r s => r.start ≤ s.start)
    (hpos : ∀ r ∈ ranges, r.start < r.stop) :
    SlotRange.Placed slots ranges ∧ checkRanges slots ranges = .ok () ∨
      ∃ violation, SlotRange.Flaw slots ranges violation ∧
        checkRanges slots ranges = .error (.invariant violation) := by
  rw [checkRanges]
  cases hoverlap : firstOverlap? ranges with
  | some pair =>
    obtain ⟨r, s⟩ := pair
    obtain ⟨hneighbors, hlt⟩ := infix_of_firstOverlap? hoverlap
    have hpair := hsorted.sublist hneighbors.sublist
    have hstart : r.start ≤ s.start := List.rel_of_pairwise_cons hpair List.mem_cons_self
    have hs : s.start < s.stop := hpos s (hneighbors.subset (by simp))
    -- `s` is not empty and starts inside `r`, so the first slot of `s` lies in both.
    refine .inr ⟨_, .overlappingRuns hneighbors.sublist.subperm fun hdisjoint => ?_, rfl⟩
    exact Nat.not_le.mpr hlt (hdisjoint.stop_le hstart hs)
  | none =>
    have hfollow := SlotRange.pairwise_of_isChain hsorted (firstOverlap?_eq_none_iff.mp hoverlap)
    have hdisjoint : ranges.Pairwise SlotRange.Disjoint := hfollow.imp SlotRange.disjoint_of_stop_le
    cases hlast : ranges.getLast? with
    | none =>
      rw [List.getLast?_eq_none_iff.mp hlast]
      exact .inl ⟨⟨.nil, nofun⟩, rfl⟩
    | some last =>
      by_cases hstop : last.stop > slots
      · simp only [if_pos hstop]
        exact .inr ⟨_, .runBeyondStorage hdisjoint (List.mem_of_getLast? hlast) hstop, rfl⟩
      · simp only [if_neg hstop]
        refine .inl ⟨⟨hdisjoint, fun r hr => ?_⟩, trivial⟩
        exact Nat.le_trans (SlotRange.stop_le_getLast hfollow hpos hlast hr) (Nat.le_of_not_lt hstop)

/-- An empty range inside another one shares no slot with it, and is reported all the same. -/
example : SlotRange.Placed 4 [⟨0, 4⟩, ⟨2, 2⟩] ∧ checkRanges 4 [⟨0, 4⟩, ⟨2, 2⟩] =
    .error (.invariant (.overlappingRuns ⟨0, 4⟩ ⟨2, 2⟩)) := by
  decide

end

variable {p : CopyPlan}

/-- The ranges of the runs may be checked in any order of their starts. -/
theorem exact_checkRanges (hlength : ∀ r ∈ p.runs, 0 < r.length) {ranges : List SlotRange}
    (hperm : ranges.Perm p.targets) (hsorted : ranges.Pairwise fun r s => r.start ≤ s.start) :
    p.Exact (liftM (checkRanges p.slots ranges)) := by
  have hpos : ∀ range ∈ ranges, range.start < range.stop := by
    intro range hrange
    obtain ⟨r, hr, rfl⟩ := List.mem_map.mp (hperm.mem_iff.mp hrange)
    exact Nat.lt_add_of_pos_right (hlength r hr)
  rcases checkRanges_of_sorted hsorted hpos with ⟨hplaced, hok⟩ | ⟨violation, hflaw, herror⟩
  · replace hplaced := (SlotRange.placed_congr hperm).mp hplaced
    rw [hok]
    exact ⟨iff_of_true rfl hplaced, fun h => absurd hplaced h⟩
  · replace hflaw := hflaw.perm hperm
    rw [herror]
    exact ⟨iff_of_false nofun hflaw.not_placed, fun _ => ⟨violation, hflaw, rfl⟩⟩

theorem check_eq (hfits : ∀ r ∈ p.runs, r.dest + r.length < Word.limit) :
    p.check = liftM (checkRanges p.slots (p.targets.mergeSort fun r s => r.start ≤ s.start)) := by
  have htargets : p.runs.mapM Run.destRange = .ok p.targets := by
    refine Checked.mapM_eq_ok fun r hr => ?_
    rw [Run.destRange, Word.add_of_lt (hfits r hr)]
    rfl
  rw [check, htargets]
  rfl

theorem exact_check (hlength : ∀ r ∈ p.runs, 0 < r.length)
    (hfits : ∀ r ∈ p.runs, r.dest + r.length < Word.limit) : p.Exact p.check := by
  rw [check_eq hfits]
  exact exact_checkRanges hlength (List.mergeSort_perm _ _) (SlotRange.pairwise_mergeSort _)

/-- The check of a plan, which compares neighbors and looks at the end of the last run alone, is exact. So
it is with any other sort of the runs by their first slots. -/
theorem check_decides_placed (hlength : ∀ r ∈ p.runs, 0 < r.length)
    (hfits : ∀ r ∈ p.runs, r.dest + r.length < Word.limit) :
    p.Exact p.check ∧ ∀ ranges : List SlotRange, ranges.Perm p.targets →
      (ranges.Pairwise fun r s => r.start ≤ s.start) → p.Exact (liftM (checkRanges p.slots ranges)) :=
  ⟨exact_check hlength hfits, fun _ hperm hsorted => exact_checkRanges hlength hperm hsorted⟩

/-- Two sources whose runs lie between each other, without a gap and up to the last slot. With one slot
less they are refused. -/
theorem check_decides_placed_interleaved :
    let p : CopyPlan :=
      { indexSpace := 0, color := 2, slots := 12, tag := firstTag, send := [],
        recv := [(1, [⟨8, 4, 1, 2⟩, ⟨0, 2, 1, 6⟩]), (3, [⟨4, 4, 3, 0⟩, ⟨2, 1, 3, 9⟩])] }
    (∀ r ∈ p.runs, 0 < r.length) ∧ (∀ r ∈ p.runs, r.dest + r.length < Word.limit) ∧
      p.check = .ok () ∧ CopyPlan.check { p with slots := 11 } ≠ .ok () ∧
      p.Exact p.check ∧ ∀ ranges : List SlotRange, ranges.Perm p.targets →
        (ranges.Pairwise fun r s => r.start ≤ s.start) →
          p.Exact (liftM (checkRanges p.slots ranges)) := by
  intro p
  have hlength : ∀ r ∈ p.runs, 0 < r.length := by decide
  have hfits : ∀ r ∈ p.runs, r.dest + r.length < Word.limit := by decide
  have hexact := check_decides_placed hlength hfits
  have hsmaller := (check_decides_placed (p := { p with slots := 11 }) hlength hfits).1
  refine ⟨hlength, hfits, hexact.1.accepts_iff.mpr (by decide), ?_, hexact⟩
  exact fun hok => absurd (hsmaller.accepts_iff.mp hok) (by decide)

end CopyPlan

end HaloMesh
